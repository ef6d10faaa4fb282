import StreamTransform.Proofs.Bodies
import StreamTransform.Proofs.Moves

/-!
# Names that are owed

A container whose end needs a name owes it to its end from the moment it is entered. The names that
a frame owes are those of the contents around its cursor, the innermost first, whatever jumps and
suspensions led there: every instruction keeps them so, and no other step touches them. So an end
finds the name that its own start left, and the end of a processing instruction finds a target that
was checked.
-/

namespace StreamTransform

/-- What the start of a processing instruction asks of its target. -/
def AcceptedTarget (target : String) : Prop :=
  isNCName target = true ∧ target.toList.map Char.toLower ≠ ['x', 'm', 'l']

/-- A name that the end of a container can be owed. A selected attribute has no content to end. -/
def Container.Owed (name : QName) : Container → Prop
  | element _ | attr _ .written => True
  | processingInstruction _ => ∃ target, name = .simple target ∧ AcceptedTarget target
  | attr _ (.selected _) | literal .. | copy _ | comment | cdata | document _ | message ..
  | .variable .. | parameter .. | assign .. | loop _ | each .. => False

/-- The names are owed to contents, the innermost of both first. -/
inductive OwedTo (code : Array Node) : List NodeId → List QName → Prop
  | none : OwedTo code [] []
  | name {b : NodeId} {bs : List NodeId} {n : Node} {c : Container} {name : QName}
      {names : List QName} : code[b]? = some n → n.instruction = .container c → c.Owed name →
      OwedTo code bs names → OwedTo code (b :: bs) (name :: names)
  | free {b : NodeId} {bs : List NodeId} {n : Node} {names : List QName} : code[b]? = some n →
      (∀ c, n.instruction = .container c → c.owes = false) → OwedTo code bs names →
      OwedTo code (b :: bs) names

/-- What a frame owes is owed to the contents around its cursor. -/
def Frame.Indebted (code : Array Node) (f : Frame) : Prop :=
  OwedTo code (enclosing code f.cursor) f.owed

section
variable {code : Array Node} {b : NodeId} {bs : List NodeId} {n : Node} {c : Container}
  {names : List QName}

theorem Container.owes_of_owed {name : QName} (h : c.Owed name) : c.owes = true := by
  cases c <;> first | rfl | exact h.elim

theorem OwedTo.of_owes (h : OwedTo code (b :: bs) names) (hn : code[b]? = some n)
    (hc : n.instruction = .container c) (ho : c.owes = true) :
    ∃ name rest, names = name :: rest ∧ c.Owed name ∧ OwedTo code bs rest := by
  cases h with
  | @name _ _ m c' name rest hm hc' howed h =>
    obtain rfl := Option.some.inj (hn.symm.trans hm)
    obtain rfl := Instruction.container.inj (hc.symm.trans hc')
    exact ⟨name, rest, rfl, howed, h⟩
  | @free _ _ m _ hm hfree h =>
    obtain rfl := Option.some.inj (hn.symm.trans hm)
    rw [hfree c hc] at ho
    cases ho

theorem OwedTo.of_free (h : OwedTo code (b :: bs) names) (hn : code[b]? = some n)
    (hfree : ∀ c, n.instruction = .container c → c.owes = false) : OwedTo code bs names := by
  cases h with
  | @name _ _ m c name rest hm hc howed h =>
    obtain rfl := Option.some.inj (hn.symm.trans hm)
    have hfalse := hfree c hc
    rw [Container.owes_of_owed howed] at hfalse
    cases hfalse
  | free _ _ h => exact h

end

/-! ## Starts -/

/-- What a start does to the names of its frame: it keeps them where the content is passed over,
and adds the one that the content's end is to take where it is entered. -/
inductive Flow.Starts (f : Frame) (n : Node) (c : Container) : Flow → Prop
  | passed {g : Frame} : f.Alike g → Starts f n c (.on (g.skip n))
  | entered {g : Frame} : g.cursor = f.cursor + 1 → c.owes = false → g.owed = f.owed →
      Starts f n c (.on g)
  | owing {g : Frame} {name : QName} : g.cursor = f.cursor + 1 → c.Owed name →
      g.owed = name :: f.owed → Starts f n c (.on g)

namespace Operation

variable {env : Environment} {a : Activation} {f : Frame} {n : Node} {c : Container}

theorem starts_passed : Flow.Starts f n c (.on (f.skip n)) := .passed ⟨rfl, rfl⟩

theorem starts_capture (context : String) (hc : c.owes = false) :
    Gives (Flow.Starts f n c) (capture env f n context none) := by
  refine gives_bind fun opened => ?_
  cases opened with
  | none => exact gives_pure starts_passed
  | some u => exact gives_pure (.entered rfl hc rfl)

theorem starts_capture_owing (context : String) {name : QName} (hc : c.Owed name) :
    Gives (Flow.Starts f n c) (capture env f n context (some name)) := by
  refine gives_bind fun opened => ?_
  cases opened with
  | none => exact gives_pure starts_passed
  | some u => exact gives_pure (.owing rfl hc rfl)

/-- An operation that leaves the frame where it is, and then passes over the content. -/
theorem starts_passing {op : Operation Frame} (h : Gives f.Alike op) :
    Gives (Flow.Starts f n c) (do pure (.on ((← op).skip n))) :=
  h.bind fun _ hg => gives_pure (.passed hg)

theorem starts_openVariable (name : String) (origin : Origin) (home : Home)
    (hc : c.owes = false) : Gives (Flow.Starts f n c) (openVariable env a f n name origin home) := by
  cases origin with
  | selected e => exact gives_bind fun v => starts_passing (alike_declareVariable home name v)
  | written => exact starts_capture _ hc

theorem starts_startContainer (c : Container) :
    Gives (Flow.Starts f n c) (startContainer env a f n c) := by
  cases c with
  | literal name as =>
    exact gives_bind fun _ => gives_bind fun _ => gives_pure (.entered rfl rfl rfl)
  | element t =>
    refine gives_bind fun name => ?_
    cases name with
    | none => exact gives_pure starts_passed
    | some name => exact gives_bind fun _ => gives_pure (.owing rfl trivial rfl)
  | attr t origin =>
    refine gives_bind fun name => ?_
    cases name with
    | none => exact gives_pure starts_passed
    | some name =>
      cases origin with
      | written => exact starts_capture_owing _ trivial
      | selected e => exact gives_bind fun _ => gives_bind fun _ => gives_pure starts_passed
  | copy as => exact gives_bind fun _ => gives_pure (.entered rfl rfl rfl)
  | comment => exact starts_capture "comment" rfl
  | processingInstruction t =>
    refine gives_bind fun target => ?_
    split
    · exact gives_bind fun _ => gives_pure starts_passed
    · rename_i haccepted
      simp only [isXmlTarget, Bool.or_eq_true, Bool.not_eq_true', not_or, Bool.not_eq_false,
        beq_iff_eq] at haccepted
      exact starts_capture_owing _ ⟨target, rfl, haccepted⟩
  | cdata => exact starts_capture "CDATA section" rfl
  | document t =>
    refine gives_bind fun href => gives_bind fun opened => ?_
    cases opened with
    | none => exact gives_pure starts_passed
    | some u => exact gives_pure (.entered rfl rfl rfl)
  | message origin terminate =>
    cases origin with
    | selected e => exact gives_bind fun _ => gives_bind fun _ => gives_pure starts_passed
    | written => exact starts_capture "message" rfl
  | «variable» name origin home => exact starts_openVariable name origin home rfl
  | parameter name default home =>
    simp only [startContainer, openParameter]
    split
    · exact starts_passing (alike_declareVariable home name _)
    · split
      · exact starts_openVariable name _ home rfl
      · exact gives_bind fun _ => starts_passing (alike_declareVariable home name _)
  | assign name origin =>
    cases origin with
    | selected e => exact gives_bind fun v => starts_passing (alike_assignVariable name v)
    | written => exact starts_capture s!"assign `{name}'" rfl
  | loop test =>
    refine gives_bind fun v => gives_pure ?_
    split
    · exact .entered rfl rfl rfl
    · exact starts_passed
  | each name select =>
    refine (alike_enterLoop select).bind fun g hg => ?_
    unfold nextItem
    split
    · exact gives_pure (.entered (congrArg (· + 1) hg.1) rfl hg.2)
    · exact gives_pure (.passed (g := { g with loops := g.loops.tail }) hg)

end Operation

/-! ## Ends -/

/-- After the end of a content the name that was owed to it is gone. -/
def Flow.Settles (f : Frame) (c : Container) (flow : Flow) : Prop :=
  ∃ g, flow = .on g ∧ g.owed = if c.owes then f.owed.tail else f.owed

namespace Operation

variable {env : Environment} {a : Activation} {f : Frame} {b : NodeId}

theorem settles_finishVariable {c : Container} (name : String) (home : Home)
    (hc : c.owes = false) : Gives (Flow.Settles f c) (do
      let f ← finishVariable env f b name home
      pure (.on f.next)) := by
  have hkept : Gives f.Alike (finishVariable env f b name home) := by
    refine gives_bind fun text => ?_
    cases text with
    | none => exact gives_pure ⟨rfl, rfl⟩
    | some text => exact alike_declareVariable home name _
  refine hkept.bind fun g hg => gives_pure ⟨g.next, rfl, ?_⟩
  rw [hc]
  exact hg.2

/-- The end of an attribute settles its name if it finds the captured text. -/
theorem settles_attr (t : NameTemplate) (origin : Origin) {s s' : State} {flow : Flow}
    (hy : (finishContainer env a f b (.attr t origin)).Yields s flow s')
    (hfound : ∀ text s₁, (captured env f b).Yields s text s₁ → text.isSome) :
    Flow.Settles f (.attr t origin) flow := by
  have settled : Gives (Flow.Settles f (.attr t origin)) (pure (.on f.settle.next)) :=
    gives_pure ⟨_, rfl, rfl⟩
  obtain ⟨text, s₁, hcaptured, hy⟩ := yields_bind.mp hy
  obtain ⟨value, rfl⟩ := Option.isSome_iff_exists.mp (hfound text s₁ hcaptured)
  simp only at hy
  split at hy
  · exact (gives_bind fun _ => settled) _ _ _ hy
  · exact settled _ _ _ hy

/-- Other ends settle what their start left owed in any case. -/
theorem settles_finishContainer (c : Container) (hc : ∀ t origin, c ≠ .attr t origin) :
    Gives (Flow.Settles f c) (finishContainer env a f b c) := by
  have next : ∀ {c : Container}, c.owes = false → Gives (Flow.Settles f c) (pure (.on f.next)) :=
    fun hc => gives_pure ⟨_, rfl, by rw [hc]; rfl⟩
  have settled : ∀ {c : Container}, c.owes = true →
      Gives (Flow.Settles f c) (pure (.on f.settle.next)) :=
    fun hc => gives_pure ⟨_, rfl, by rw [hc]; rfl⟩
  cases c with
  | attr t origin => exact absurd rfl (hc t origin)
  | literal name as => exact gives_bind fun _ => next rfl
  | element t =>
    simp only [finishContainer]
    split
    · exact gives_bind fun _ => settled rfl
    · exact settled rfl
  | copy as =>
    refine gives_bind fun e => ?_
    split
    · exact gives_bind fun _ => next rfl
    all_goals exact next rfl
  | comment =>
    refine gives_bind fun text => ?_
    cases text with
    | none => exact next rfl
    | some text => exact gives_bind fun _ => next rfl
  | processingInstruction t =>
    refine gives_bind fun text => ?_
    split
    · exact gives_bind fun _ => settled rfl
    · exact settled rfl
  | cdata =>
    refine gives_bind fun text => ?_
    cases text with
    | none => exact next rfl
    | some text => exact gives_bind fun _ => gives_bind fun _ => gives_bind fun _ => next rfl
  | document t => exact gives_bind fun _ => next rfl
  | message origin terminate =>
    refine gives_bind fun text => ?_
    cases text with
    | none => exact next rfl
    | some text => exact gives_bind fun _ => next rfl
  | «variable» name origin home => exact settles_finishVariable name home rfl
  | parameter name default home => exact settles_finishVariable name home rfl
  | assign name origin =>
    refine gives_bind fun text => ?_
    cases text with
    | none => exact next rfl
    | some text =>
      exact (alike_assignVariable name _).bind fun g hg => gives_pure ⟨g.next, rfl, hg.2⟩
  | loop | each => exact gives_pure ⟨_, rfl, rfl⟩

end Operation

/-! ## Deeds -/

namespace Deed

variable {env : Environment} {d : Deed} {g : Frame} {b : NodeId} {o : Node}

/-- From the end of a content control goes among the contents around the start. -/
theorem Happens.outside (hw : env.program.WellNested) (hd : d.Happens env)
    (hb : d.node.instruction = .closing b) (ho : env.program.code[b]? = some o)
    (hg : d.flow.frame? = some g) :
    enclosing env.program.code g.cursor = enclosing env.program.code b := by
  cases hx : o.instruction.exit? env.program.code b d.frame.cursor with
  | none =>
    have hbody : o.instruction = .body := by
      unfold Instruction.exit? at hx
      split at hx <;> first | assumption | cases hx
    have hy := hd.closeAt hb
    simp only [Operation.closeAt, ho, hbody] at hy
    rw [(Operation.yields_pure.mp hy).1] at hg
    cases hg
  | some place =>
    obtain ⟨g', hg', rfl⟩ := hd.exits hb ho hx
    obtain rfl := Option.some.inj (hg'.symm.trans hg)
    exact enclosing_exit hw.code hd.node hb ho hx

/-- The end of what is no container leaves the names. -/
theorem Happens.owed_of_plain_end (hd : d.Happens env) (hb : d.node.instruction = .closing b)
    (ho : env.program.code[b]? = some o) (hc : ∀ c, o.instruction ≠ .container c)
    (hg : d.flow.frame? = some g) : g.owed = d.frame.owed := by
  have hy := hd.closeAt hb
  have on : ∀ {g' : Frame}, (pure (.on g') : Operation Flow).Yields d.before d.flow d.after →
      g'.owed = d.frame.owed → g.owed = d.frame.owed := by
    intro g' hy howed
    rw [(Operation.yields_pure.mp hy).1] at hg
    exact Option.some.inj hg ▸ howed
  simp only [Operation.closeAt, ho] at hy
  cases hi : o.instruction with
  | container c => exact absurd hi (hc c)
  | body =>
    simp only [hi] at hy
    rw [(Operation.yields_pure.mp hy).1] at hg
    cases hg
  | condition test other =>
    cases other with
    | none =>
      simp only [hi] at hy
      exact on hy rfl
    | some other =>
      simp only [hi, Operation.leaveTo_eq] at hy
      exact on hy rfl
  | when test choice =>
    simp only [hi, Operation.leaveTo_eq] at hy
    exact on hy rfl
  | _ =>
    simp only [hi] at hy
    exact on hy rfl

/-- The end of a container settles what its start left owed. -/
theorem Happens.settles (hd : d.Happens env) (hb : d.node.instruction = .closing b)
    (ho : env.program.code[b]? = some o) {c : Container} (hc : o.instruction = .container c)
    (hfound : ∀ t origin, c = .attr t origin → ∀ text s₁,
      (Operation.captured env d.frame.leave b).Yields d.before text s₁ → text.isSome)
    (hg : d.flow.frame? = some g) : g.owed = if c.owes then d.frame.owed.tail else d.frame.owed := by
  have hy := hd.closeAt hb
  simp only [Operation.closeAt, ho, hc] at hy
  have hsettles : Flow.Settles d.frame.leave c d.flow := by
    by_cases hattr : ∃ t origin, c = .attr t origin
    · obtain ⟨t, origin, rfl⟩ := hattr
      exact Operation.settles_attr t origin hy (hfound t origin rfl)
    · exact Operation.settles_finishContainer c (fun t origin h => hattr ⟨t, origin, h⟩) _ _ _ hy
  obtain ⟨g', hflow, howed⟩ := hsettles
  rw [hflow] at hg
  exact Option.some.inj hg ▸ howed

theorem Happens.enclosing_of_entered (hw : env.program.WellNested)
    (hd : d.Happens env) (hcursor : g.cursor = d.frame.cursor + 1)
    (ho : d.node.instruction.isOpening) : enclosing env.program.code g.cursor =
      d.frame.cursor :: enclosing env.program.code d.frame.cursor := by
  rw [hcursor]
  exact Frame.enclosing_enter hw.code hd.node ho

section
variable (hw : env.program.WellNested) (hd : d.Happens env)
  (h : d.frame.Indebted env.program.code) (hg : d.flow.frame? = some g)

include h

/-- A frame that stays among the same contents with the same names. -/
theorem indebted_of_kept
    (hin : enclosing env.program.code g.cursor = enclosing env.program.code d.frame.cursor)
    (howed : g.owed = d.frame.owed) : g.Indebted env.program.code := by
  rw [Frame.Indebted, hin, howed]
  exact h

include hw hd hg

/-- Content that is no container's is owed nothing. -/
theorem Happens.indebted_plain (hc : ∀ c, d.node.instruction ≠ .container c)
    (ho : d.node.instruction.isOpening)
    (hflow : d.flow = .on d.frame.enter ∨ d.flow = .on (d.frame.skip d.node)) :
    g.Indebted env.program.code := by
  rcases hflow with hflow | hflow
  · rw [hflow] at hg
    obtain rfl := Option.some.inj hg
    rw [Frame.Indebted, hd.enclosing_of_entered hw rfl ho]
    exact .free hd.node (fun c hc' => absurd hc' (hc c)) h
  · rw [hflow] at hg
    obtain rfl := Option.some.inj hg
    exact indebted_of_kept h (Frame.enclosing_skip hw.code hd.node ho) rfl

/-- A condition goes on in its content or past it. -/
theorem Happens.indebted_test {test : Path.Expr} (hc : ∀ c, d.node.instruction ≠ .container c)
    (ho : d.node.instruction.isOpening)
    (hy : (Operation.enterIf env d.activation d.frame d.node test).Yields d.before d.flow d.after) :
    g.Indebted env.program.code := by
  obtain ⟨v, -, hflow⟩ := Operation.yields_enterIf hy
  refine hd.indebted_plain hw h hg hc ho ?_
  rw [hflow]
  split
  · exact .inl rfl
  · exact .inr rfl

theorem Happens.indebted_act {action : Action} (hi : d.node.instruction = .act action) :
    g.Indebted env.program.code := by
  have hleads := leads_act action _ _ _ (hd.act hi)
  have hnext : g = d.frame.next := by
    cases hflow : d.flow with
    | done =>
      rw [hflow] at hg
      cases hg
    | on | walk | call =>
      rw [hflow] at hg hleads
      exact (Option.some.inj hg).symm.trans hleads
  subst hnext
  exact indebted_of_kept h (enclosing_of_act hw.code hd.node hi) rfl

/-- The start of a container leaves its name for the end, if the content is entered. -/
theorem Happens.indebted_start {c : Container} (hi : d.node.instruction = .container c) :
    g.Indebted env.program.code := by
  have hy := hd.startContainer hi
  have ho : d.node.instruction.isOpening := by
    rw [hi]
    rfl
  have hstarts := Operation.starts_startContainer c _ _ _ hy
  generalize d.flow = flow at hstarts hg
  cases hstarts with
  | @passed g₀ hg₀ =>
    obtain rfl := Option.some.inj hg
    refine indebted_of_kept h ?_ hg₀.2
    have hcursor : (g₀.skip d.node).cursor = (d.frame.skip d.node).cursor := by
      change d.node.close.getD g₀.cursor + 1 = d.node.close.getD d.frame.cursor + 1
      rw [hg₀.1]
    rw [hcursor, Frame.enclosing_skip hw.code hd.node ho]
  | entered hcursor hfree howed =>
    obtain rfl := Option.some.inj hg
    rw [Frame.Indebted, hd.enclosing_of_entered hw hcursor ho, howed]
    refine .free hd.node (fun c' hc' => ?_) h
    obtain rfl := Instruction.container.inj (hi.symm.trans hc')
    exact hfree
  | owing hcursor hname howed =>
    obtain rfl := Option.some.inj hg
    rw [Frame.Indebted, hd.enclosing_of_entered hw hcursor ho, howed]
    exact .name hd.node hi hname h

/-- The end of a content takes the name that was owed to it, and leaves the others. -/
theorem Happens.indebted_end (hi : d.node.instruction = .closing b)
    (hfound : ∀ o t, env.program.code[b]? = some o →
      o.instruction = .container (.attr t .written) → ∀ text s₁,
      (Operation.captured env d.frame.leave b).Yields d.before text s₁ → text.isSome) :
    g.Indebted env.program.code := by
  obtain ⟨hin, -, o, ho, -⟩ := enclosing_of_closing hw.code hd.node hi
  have hout := hd.outside hw hi ho hg
  rw [Frame.Indebted, hin] at h
  rw [Frame.Indebted, hout]
  by_cases hc : ∃ c, o.instruction = .container c
  · obtain ⟨c, hc⟩ := hc
    cases howes : c.owes with
    | true =>
      obtain ⟨name, rest, howed, hname, hrest⟩ := h.of_owes ho hc howes
      have hsettled := hd.settles hi ho hc (fun t origin hattr => ?_) hg
      · rw [hsettled, howes, howed]
        exact hrest
      · subst hattr
        cases origin with
        | selected e => exact hname.elim
        | written => exact hfound o t ho hc
    | false =>
      have hsettled := hd.settles hi ho hc (fun t origin hattr => ?_) hg
      · rw [hsettled, howes]
        refine h.of_free ho fun c' hc' => ?_
        obtain rfl := Instruction.container.inj (hc.symm.trans hc')
        exact howes
      · subst hattr
        cases howes
  · rw [hd.owed_of_plain_end hi ho (fun c hc' => hc ⟨c, hc'⟩) hg]
    exact h.of_free ho fun c hc' => absurd ⟨c, hc'⟩ hc

/-- A deed keeps the names of its frame those that the contents around it are owed. -/
theorem Happens.indebted (hfound : ∀ b o t, d.node.instruction = .closing b →
      env.program.code[b]? = some o → o.instruction = .container (.attr t .written) →
      ∀ text s₁, (Operation.captured env d.frame.leave b).Yields d.before text s₁ →
        text.isSome) :
    g.Indebted env.program.code := by
  have hy := hd.yields
  cases hi : d.node.instruction with
  | act action => exact hd.indebted_act hw h hg hi
  | container c => exact hd.indebted_start hw h hg hi
  | closing b => exact hd.indebted_end hw h hg hi fun o t => hfound b o t hi
  | condition | when =>
    rw [Operation.execute, hi] at hy
    exact hd.indebted_test hw h hg (by simp [hi]) (by rw [hi]; rfl) hy
  | _ =>
    rw [Operation.execute, hi] at hy
    exact hd.indebted_plain hw h hg (by simp [hi]) (by rw [hi]; rfl)
      (.inl (Operation.yields_pure.mp hy).1)

end

end Deed

/-! ## Runs -/

section
variable {env : Environment} {m : Moment} {b : NodeId} {o : Node} {c : Container}

/-- At the end of a container its captured text is found. -/
theorem Deed.Occurs.finds_text {m' : Moment} {d : Deed} (hw : env.program.WellNested)
    (hm : Reached env m) (ho : d.Occurs env m m') (hb : d.node.instruction = .closing b)
    (hn : env.program.code[b]? = some o) (hc : o.instruction = .container c)
    (hk : c.scope? = some .capture) {text : Option String} {s₁ : State}
    (hy : (Operation.captured env d.frame.leave b).Yields d.before text s₁) : text.isSome := by
  obtain ⟨rest, ha⟩ := ho.runs
  obtain ⟨fs, hf⟩ := ho.innermost
  obtain ⟨cs, hs⟩ := (account_scopes env).fits_of_run hw hm ha hf
  rw [Frame.constructs_closing hw.code ho.happens.node hb hn hc, Container.opened_of_scope hk,
    ← ho.before] at hs
  exact ((Operation.ensures_attempt_of hs.attempted_closeCapture).of_yields hy).1.1

/-- At every moment all bodies in execution owe the contents around their cursors. -/
theorem indebted_of_reached (hw : env.program.WellNested) (hm : Reached env m) :
    ∀ f ∈ m.bodies, f.Indebted env.program.code := by
  refine forall_bodies_of_reached hw (fun g b passed hb => ?_) (fun hm ho hown hg => ?_) hm
  · change OwedTo _ (enclosing env.program.code b) []
    rw [hb.enclosing_eq_nil hw.code]
    exact .none
  · exact ho.happens.indebted hw hown hg fun b o t hb hn hc _ _ hy =>
      ho.finds_text hw hm hb hn hc rfl hy

end

end StreamTransform
