import StreamTransform.Proofs.Conduct
import StreamTransform.Proofs.FreshNames

/-!
# Frames and the contents around them

A frame keeps three stacks that its starts fill and its ends empty: scopes, loops over items and
owed names. Whatever starts are passed over or refused, whatever jumps, rounds and suspensions lead
to an instruction, the stacks are then those of the contents around it. A loop over items is the
one exception. Its state lasts from one round to the next, so when control comes back from its end
the state is there before the content is.
-/

namespace StreamTransform

/-! ## Contents of a kind -/

/-- The start of a content that is repeated for items. -/
def Instruction.isItems : Instruction → Bool
  | .container (.each ..) => true
  | _ => false

theorem Instruction.exists_each {i : Instruction} (h : i.isItems = true) :
    ∃ name select, i = .container (.each name select) := by
  unfold isItems at h
  split at h
  · exact ⟨_, _, rfl⟩
  · cases h

/-- The start of a content whose end needs a name that is computed. -/
def Instruction.needsName : Instruction → Bool
  | .container (.element _) | .container (.attr _ .written)
  | .container (.processingInstruction _) => true
  | _ => false

/-- Those of the contents that start with an instruction of a kind. -/
def contentsWith (code : Array Node) (kind : Instruction → Bool) (bs : List NodeId) :
    List NodeId :=
  bs.filter fun b => (code[b]?).any fun n => kind n.instruction

/-- The last deed was the end of what starts at the node. -/
def CameBack (ds : List Deed) (i : NodeId) : Prop :=
  ∃ d, ds.getLast? = some d ∧ d.node.instruction = .closing i

/-- The loops of a frame after some deeds are those over items around its cursor, and the one at
the cursor if control came back to it from its end. -/
structure Frame.Looped (code : Array Node) (ds : List Deed) (f : Frame) : Prop where
  around : ¬ CameBack ds f.cursor → f.loops.map Loop.node =
    contentsWith code Instruction.isItems (enclosing code f.cursor)
  again : CameBack ds f.cursor → f.loops.map Loop.node =
    contentsWith code Instruction.isItems (f.cursor :: enclosing code f.cursor)

/-- The name is one that the end of a content can be owed. -/
def OwedBy (code : Array Node) (b : NodeId) (name : QName) : Prop :=
  ∃ n c, code[b]? = some n ∧ n.instruction = .container c ∧ c.Owed name

/-- What a frame keeps after some deeds is what the contents around its cursor need, the innermost
first. -/
structure Frame.Aligned (code : Array Node) (ds : List Deed) (f : Frame) : Prop where
  scopes : f.scopes.length = (enclosing code f.cursor).length
  loops : f.Looped code ds
  owed : List.Forall₂ (OwedBy code)
    (contentsWith code Instruction.needsName (enclosing code f.cursor)) f.owed

section
variable {code : Array Node} {kind : Instruction → Bool} {b i : NodeId} {bs : List NodeId}
  {n : Node} {ds : List Deed} {d : Deed} {f : Frame} {c : Container} {name : QName}
  {names : List QName}

theorem contentsWith_cons (hn : code[b]? = some n) : contentsWith code kind (b :: bs) =
    if kind n.instruction then b :: contentsWith code kind bs else contentsWith code kind bs := by
  rw [contentsWith, List.filter_cons, hn]
  rfl

theorem contentsWith_subset : contentsWith code kind bs ⊆ bs := List.filter_subset_self bs

theorem not_cameBack_nil : ¬ CameBack [] i := by
  rintro ⟨d, hd, -⟩
  cases hd

theorem cameBack_append : CameBack (ds ++ [d]) i ↔ d.node.instruction = .closing i := by
  simp [CameBack]

/-- At any other instruction it does not matter from where control came. -/
theorem Frame.Looped.of_plain (h : f.Looped code ds) (hn : code[f.cursor]? = some n)
    (hplain : n.instruction.isItems = false) : f.loops.map Loop.node =
      contentsWith code Instruction.isItems (enclosing code f.cursor) := by
  by_cases hcame : CameBack ds f.cursor
  · rw [h.again hcame, contentsWith_cons hn, hplain]
    rfl
  · exact h.around hcame

/-! ## Names -/

theorem needsName_of_owed (h : c.Owed name) :
    (Instruction.container c).needsName = true := by
  cases c with
  | attr t origin =>
    cases origin with
    | written => rfl
    | selected e => exact h.elim
  | element | processingInstruction => rfl
  | _ => exact h.elim

theorem needsName_of_free {instruction : Instruction}
    (h : ∀ c, instruction = .container c → c.owes = false) : instruction.needsName = false := by
  cases instruction with
  | container c =>
    have hfree := h c rfl
    cases c with
    | element | attr | processingInstruction => cases hfree
    | _ => rfl
  | _ => rfl

/-- What is owed is one name for each content that needs one. -/
theorem OwedTo.forall₂ (h : OwedTo code bs names) :
    List.Forall₂ (OwedBy code) (contentsWith code Instruction.needsName bs) names := by
  induction h with
  | none => exact .nil
  | name hn hc howed _ ih =>
    rw [contentsWith_cons hn, hc, needsName_of_owed howed]
    exact .cons ⟨_, _, hn, hc, howed⟩ ih
  | free hn hfree _ ih =>
    rw [contentsWith_cons hn, needsName_of_free hfree]
    exact ih

end

/-! ## Loops over one instruction -/

/-- The frame that goes on has the same loops. -/
def Flow.KeepsLoops (f : Frame) (flow : Flow) : Prop := ∀ g, flow.frame? = some g → g.loops = f.loops

/-- Into the content with the loop on top, or past it without the loop. -/
def Flow.Rounds (f : Frame) (close : NodeId) (outer : List NodeId) (flow : Flow) : Prop :=
  ∃ g, flow.frame? = some g ∧
    (g.cursor = f.cursor + 1 ∧ g.loops.map Loop.node = f.cursor :: outer ∨
      g.cursor = close + 1 ∧ g.loops.map Loop.node = outer)

namespace Flow

variable {f : Frame} {flow : Flow} {cursor : NodeId} {scopes : List Bindings}

theorem Goes.keepsLoops (h : flow.Goes f cursor scopes f.loops) : flow.KeepsLoops f := by
  intro g hg
  obtain ⟨owed, hf⟩ := h
  rw [← Option.some.inj (hf.symm.trans hg)]

end Flow

namespace Operation

variable {env : Environment} {a : Activation} {f : Frame} {n : Node} {b close : NodeId}

theorem keepsLoops_on {g : Frame} (h : g.loops = f.loops) :
    Gives (Flow.KeepsLoops f) (pure (.on g)) :=
  gives_pure fun _ hg => Option.some.inj hg ▸ h

theorem keepsLoops_startContainer (hclose : n.close = some close) (c : Container)
    (hc : (Instruction.container c).isItems = false) :
    Gives (Flow.KeepsLoops f) (startContainer env a f n c) := by
  intro s flow s' hy
  cases hr : c.isRepeated with
  | false =>
    cases hs : c.isSelected f.passed with
    | true =>
      obtain ⟨v, hgoes⟩ := passes_startContainer hclose c hs _ _ _ hy
      exact hgoes.keepsLoops
    | false =>
      rcases unless_startContainer hclose c hr hs _ _ _ hy with hgoes | ⟨hgoes, -⟩
      · exact hgoes.keepsLoops
      · exact hgoes.keepsLoops
  | true =>
    cases c with
    | loop test =>
      obtain ⟨v, -, rfl⟩ := yields_enterIf hy
      intro g hg
      rw [← Option.some.inj hg]
      split <;> rfl
    | each => cases hc
    | _ => cases hr

theorem keepsLoops_closeAt (b : NodeId) : Gives (Flow.KeepsLoops f) (closeAt env a f b) := by
  unfold closeAt
  split
  · exact keepsLoops_on rfl
  · split
    case h_1 => exact gives_pure nofun
    case h_2 c _ =>
      intro s flow s' hy
      cases hr : c.isRepeated with
      | false =>
        rcases unless_finishContainer b c hr _ _ _ hy with ⟨v, hgoes⟩ | ⟨hgoes, -⟩
        · exact hgoes.keepsLoops
        · exact hgoes.keepsLoops
      | true =>
        cases c with
        | loop | each => exact keepsLoops_on (g := f.moveTo b) rfl s flow s' hy
        | _ => cases hr
    case h_3 | h_4 =>
      rw [leaveTo_eq]
      exact keepsLoops_on rfl
    all_goals exact keepsLoops_on rfl

/-- The state of a loop is taken up or begun, as its frame has it or not. -/
theorem gives_loop (select : Path.Expr) {outer : List NodeId}
    (h : f.loops.map Loop.node = f.cursor :: outer ∨
      f.loops.map Loop.node = outer ∧ f.cursor ∉ outer) :
    Gives (fun g => g.cursor = f.cursor ∧ g.loops.map Loop.node = f.cursor :: outer)
      (enterLoop env a f select) := by
  have hhead : f.loops.head?.map Loop.node = (f.loops.map Loop.node).head? :=
    List.head?_map.symm
  unfold enterLoop
  rw [hhead]
  rcases h with h | ⟨h, hnot⟩
  · rw [h, List.head?_cons, if_pos (beq_self_eq_true _)]
    exact gives_pure ⟨rfl, h⟩
  · have hother : (outer.head? == some f.cursor) = false := by
      rw [beq_eq_false_iff_ne]
      exact fun heq => hnot (List.mem_of_mem_head? heq)
    rw [h, hother, if_neg Bool.false_ne_true]
    exact gives_bind fun v => gives_pure ⟨rfl, congrArg (f.cursor :: ·) h⟩

theorem rounds_nextItem (hclose : n.close = some close) (name : String) {outer : List NodeId}
    (h : f.loops.map Loop.node = f.cursor :: outer) :
    Gives (Flow.Rounds f close outer) (nextItem f n name) := by
  unfold nextItem
  split
  · rename_i start item rest loops hloops
    rw [hloops] at h
    exact gives_pure ⟨_, rfl, .inl ⟨rfl, h⟩⟩
  · refine gives_pure ⟨_, rfl, .inr ⟨?_, ?_⟩⟩
    · simp [Frame.skip, Frame.moveTo, hclose]
    · rw [List.map_tail, h, List.tail_cons]

end Operation

/-! ## Loops over a deed -/

namespace Deed

variable {env : Environment} {d : Deed} {g : Frame} {b close : NodeId} {ds : List Deed}
  {name : String} {select : Path.Expr}

theorem Happens.keepsLoops (hw : env.program.WellNested) (hd : d.Happens env)
    (hplain : d.node.instruction.isItems = false) : d.flow.KeepsLoops d.frame := by
  have hy := hd.yields
  cases hi : d.node.instruction with
  | act action => exact (Operation.goes_act action _ _ _ (hd.act hi)).keepsLoops
  | container c =>
    obtain ⟨close, hclose⟩ := close_of_isOpening hw.code hd.node (by rw [hi]; rfl)
    exact Operation.keepsLoops_startContainer hclose c (hi ▸ hplain) _ _ _ (hd.startContainer hi)
  | closing b =>
    exact Operation.keepsLoops_closeAt (f := d.frame.leave) b _ _ _ (hd.closeAt hi)
  | condition | when =>
    rw [Operation.execute, hi] at hy
    obtain ⟨v, -, hflow⟩ := Operation.yields_enterIf hy
    intro g hg
    rw [hflow] at hg
    rw [← Option.some.inj hg]
    split <;> rfl
  | _ =>
    rw [Operation.execute, hi] at hy
    exact Operation.keepsLoops_on (g := d.frame.enter) rfl _ _ _ hy

/-- A loop over items finds its state where it was left at its end, and begins one otherwise. -/
theorem Happens.rounds (hd : d.Happens env) (h : d.frame.Looped env.program.code ds)
    (hi : d.node.instruction = .container (.each name select)) (hclose : d.node.close = some close) :
    d.flow.Rounds d.frame close (contentsWith env.program.code Instruction.isItems
      (enclosing env.program.code d.frame.cursor)) := by
  obtain ⟨f, s, hf, hy⟩ := Operation.yields_bind.mp (hd.startContainer hi)
  have hitems : d.node.instruction.isItems = true := by
    rw [hi]
    rfl
  have hheld : d.frame.loops.map Loop.node = d.frame.cursor :: contentsWith env.program.code
        Instruction.isItems (enclosing env.program.code d.frame.cursor) ∨
      d.frame.loops.map Loop.node = contentsWith env.program.code Instruction.isItems
        (enclosing env.program.code d.frame.cursor) ∧
      d.frame.cursor ∉ contentsWith env.program.code Instruction.isItems
        (enclosing env.program.code d.frame.cursor) := by
    by_cases hcame : CameBack ds d.frame.cursor
    · left
      rw [h.again hcame, contentsWith_cons hd.node, hitems]
      rfl
    · -- the contents around a node start before it
      exact .inr ⟨h.around hcame, fun hmem =>
        Nat.lt_irrefl _ (lt_of_mem_enclosing (contentsWith_subset hmem))⟩
  obtain ⟨hcursor, hloops⟩ := Operation.gives_loop select hheld _ _ _ hf
  rw [← hcursor] at hloops
  have hrounds := Operation.rounds_nextItem hclose name hloops _ _ _ hy
  unfold Flow.Rounds at hrounds ⊢
  rwa [hcursor] at hrounds

section
variable (hw : env.program.WellNested) (hd : d.Happens env)
  (h : d.frame.Looped env.program.code ds) (hg : d.flow.frame? = some g)
include hw hd h hg

/-- At the end of a content control goes back to the start if that is a loop over items. -/
theorem Happens.looped_of_closing (hb : d.node.instruction = .closing b) :
    g.Looped env.program.code (ds ++ [d]) := by
  obtain ⟨hin, -, o, ho, -⟩ := enclosing_of_closing hw.code hd.node hb
  have hplain : d.node.instruction.isItems = false := by
    rw [hb]
    rfl
  have hloops := h.of_plain hd.node hplain
  rw [hin] at hloops
  have hkept := hd.keepsLoops hw hplain g hg
  have hout := hd.outside hw hb ho hg
  have hcame : CameBack (ds ++ [d]) g.cursor ↔ b = g.cursor := by
    rw [cameBack_append, hb, Instruction.closing.injEq]
  constructor
  · intro hnot
    have hitems : o.instruction.isItems = false := by
      apply Bool.eq_false_iff.mpr
      intro hitems
      obtain ⟨name, select, hi⟩ := Instruction.exists_each hitems
      have hback : o.instruction.exit? env.program.code b d.frame.cursor = some b := by
        rw [hi]
        rfl
      obtain ⟨g', hg', hplace⟩ := hd.exits hb ho hback
      obtain rfl := Option.some.inj (hg'.symm.trans hg)
      exact hnot (hcame.mpr hplace.symm)
    rw [hkept, hloops, hout, contentsWith_cons ho, hitems]
    rfl
  · intro hyes
    obtain rfl := hcame.mp hyes
    rw [hkept, hloops]

theorem Happens.looped : g.Looped env.program.code (ds ++ [d]) := by
  by_cases hb : ∃ b, d.node.instruction = .closing b
  · obtain ⟨b, hb⟩ := hb
    exact hd.looped_of_closing hw h hg hb
  · have hfirst : ¬ CameBack (ds ++ [d]) g.cursor := fun hcame => hb ⟨_, cameBack_append.mp hcame⟩
    refine ⟨fun _ => ?_, fun hcame => absurd hcame hfirst⟩
    cases hitems : d.node.instruction.isItems with
    | true =>
      obtain ⟨name, select, hi⟩ := Instruction.exists_each hitems
      obtain ⟨close, hclose⟩ := close_of_isOpening hw.code hd.node (by rw [hi]; rfl)
      obtain ⟨g', hg', hround⟩ := hd.rounds h hi hclose
      obtain rfl := Option.some.inj (hg'.symm.trans hg)
      rcases hround with ⟨hcursor, hloops⟩ | ⟨hcursor, hloops⟩
      · rw [hloops, hd.enclosing_of_entered hw hcursor (by rw [hi]; rfl),
          contentsWith_cons hd.node, hitems]
        rfl
      · rw [hloops, hcursor, enclosing_after_close hw.code hd.node hclose]
    | false =>
      have hloops := h.of_plain hd.node hitems
      rw [hd.keepsLoops hw hitems g hg, hloops]
      cases hd.moves hw.code with
      | enters hf he =>
        obtain rfl := Option.some.inj (hf.symm.trans hg)
        rw [he, contentsWith_cons hd.node, hitems]
        rfl
      | stays hf he =>
        obtain rfl := Option.some.inj (hf.symm.trans hg)
        rw [he]
      | leaves hb' | ends hb' => exact absurd ⟨_, hb'⟩ hb

end

/-- A body returns at its end, and nowhere else. -/
theorem Happens.returns_iff (hw : env.program.WellNested) (hd : d.Happens env) :
    d.flow = .done ↔ ∃ b, d.node.instruction = .closing b ∧ StartsBody env.program.code b :=
  (hd.done_iff hw.code).trans (endsBody_iff hd.node)

end Deed

/-! ## Runs -/

section
variable {env : Environment} {m₁ m m' : Moment} {f : Frame} {below : List Frame} {ds : List Deed}
  {g : GroupId} {b : NodeId} {passed : Bindings}

theorem eq_of_suffix {α : Type} {x y : α} {below l : List α} (hx : x :: below <:+ l)
    (hy : y :: below <:+ l) : x = y :=
  head_eq_of_suffix (List.suffix_of_suffix_length_le hx hy (Nat.le_refl _))

/-- From its start on a body has the loops around its cursor, until it ends. -/
theorem Conducts.looped (hw : env.program.WellNested) (hm : Reached env m₁)
    (hb : StartsBody env.program.code b) (hbodies : m₁.bodies = .start g b passed :: below)
    (h : Conducts env below m₁ ds m) :
    (∃ f, f :: below <:+ m.bodies ∧ f.Looped env.program.code ds) ∨ m.bodies = below := by
  induction h with
  | start =>
    refine .inl ⟨.start g b passed, hbodies ▸ List.suffix_refl _, fun _ => ?_, fun hcame => ?_⟩
    · change [] = contentsWith _ _ (enclosing env.program.code b)
      rw [hb.enclosing_eq_nil hw.code]
      rfl
    · exact absurd hcame not_cameBack_nil
  | @own ds d m m' hc ho hd ih =>
    rcases ih with ⟨f, hf, hlooped⟩ | hends
    · obtain ⟨rfl, hleads⟩ := ho.leads_own hw (hc.reached hm) hd hf
      cases hflow : d.flow.frame? with
      | some g =>
        exact .inl ⟨g, hleads.keeps hflow, ho.happens.looped hw hlooped hflow⟩
      | none => exact .inr (hleads.eq_below hflow)
    · rw [hd] at hends
      exact absurd hends (ne_of_suffix (List.suffix_refl _))
  | @other ds f₀ m m' hc hn hf₀ hothers ih =>
    rcases ih with ⟨f, hf, hlooped⟩ | hends
    · exact .inl ⟨f, (body_move hw (hc.reached hm) hn).keeps hf hothers, hlooped⟩
    · exact absurd hends (ne_of_suffix hf₀)

theorem Conducts.aligned (hw : env.program.WellNested) (hp : Pointed env.program.code)
    (hm : Reached env m₁) (hb : StartsBody env.program.code b)
    (hbodies : m₁.bodies = .start g b passed :: below) (h : Conducts env below m₁ ds m)
    (hf : f :: below <:+ m.bodies) : f.Aligned env.program.code ds := by
  have hreached := h.reached hm
  have hmem : f ∈ m.bodies := hf.mem List.mem_cons_self
  constructor
  case scopes =>
    have hlength := List.Forall₂.length_eq (lexical_of_reached hw hp hreached f hmem)
    rw [hlength, List.length_map]
  case loops =>
    rcases h.looped hw hm hb hbodies with ⟨f', hf', hlooped⟩ | hends
    · exact eq_of_suffix hf hf' ▸ hlooped
    · exact absurd hends (ne_of_suffix hf)
  case owed => exact (indebted_of_reached hw hreached f hmem).forall₂

/-- A frame that is at the end of its body has nothing left. -/
theorem Frame.Aligned.returns {n : Node} (hw : env.program.WellNested)
    (h : f.Aligned env.program.code ds) (hn : env.program.code[f.cursor]? = some n)
    (hi : n.instruction = .closing b) (hb : StartsBody env.program.code b) :
    f.loops = [] ∧ f.owed = [] ∧ f.leave.scopes = [] := by
  have hin : enclosing env.program.code f.cursor = [b] := by
    rw [(enclosing_of_closing hw.code hn hi).1, hb.enclosing_eq_nil hw.code]
  obtain ⟨o, ho, hbody⟩ := hb
  have hnone : ∀ {kind : Instruction → Bool}, kind .body = false →
      contentsWith env.program.code kind [b] = [] := by
    intro kind hkind
    rw [contentsWith_cons ho, hbody, hkind]
    rfl
  refine ⟨?_, ?_, ?_⟩
  · have hloops := h.loops.of_plain hn (by rw [hi]; rfl)
    rw [hin, hnone rfl] at hloops
    exact List.map_eq_nil_iff.mp hloops
  · have howed := h.owed
    rw [hin, hnone rfl] at howed
    exact List.forall₂_nil_left_iff.mp howed
  · have hscopes := h.scopes
    rw [hin] at hscopes
    obtain ⟨s, hs⟩ := List.length_eq_one_iff.mp hscopes
    rw [Frame.leave, hs, List.tail_cons]

end

/-- What the frames of a run keep, from one instruction to the next. -/
structure FramesAligned (env : Environment) : Prop where
  /-- An instruction that is about to be executed is the one at the cursor of the topmost body. -/
  executing : ∀ m a f fs rest, Reached env m → m.agenda = .run a :: rest → a.frames = f :: fs →
    (∃ n, env.program.code[f.cursor]? = some n) ∧ ∃ below, m.bodies = f :: below
  /-- Every body in execution was started on those below it, and has done its deeds since. -/
  started : ∀ m f below, Reached env m → f :: below <:+ m.bodies → ∃ m₁ g b passed ds,
    Reached env m₁ ∧ StartsBody env.program.code b ∧ m₁.bodies = .start g b passed :: below ∧
    Conducts env below m₁ ds m
  /-- After these its frame keeps what the contents around its cursor need. -/
  aligned : ∀ m₁ g b passed below ds m f, Reached env m₁ → StartsBody env.program.code b →
    m₁.bodies = .start g b passed :: below → Conducts env below m₁ ds m →
    f :: below <:+ m.bodies → f.Aligned env.program.code ds
  /-- A body returns at its end alone, and then nothing is left. -/
  returns : ∀ m m' (d : Deed), Reached env m → d.Occurs env m m' →
    (d.flow = .done ↔
      ∃ b, d.node.instruction = .closing b ∧ StartsBody env.program.code b) ∧
    (d.flow = .done → d.frame.loops = [] ∧ d.frame.owed = [] ∧ d.frame.leave.scopes = [])

/-- Whatever exits starts and ends take, the frames of a built program stay aligned with its
contents. -/
theorem frames_aligned {ds : List Script.Declaration} {env : Environment}
    (h : Script.build ds = .ok env.program) : FramesAligned env := by
  have hw : env.program.WellNested := Script.wellNested_of_build h
  have hp : Pointed env.program.code := Script.pointed_of_build h
  constructor
  case executing =>
    intro m a f fs rest hm ha hf
    refine ⟨node_of_run hw hm ha hf, ?_⟩
    rw [Moment.bodies, Moment.live, ha, live_run, List.flatMap_cons, hf]
    exact ⟨_, rfl⟩
  case started => exact fun m f below hm hf => exists_start_of_body hw hm hf
  case aligned =>
    exact fun m₁ g b passed below ds m f hm hb hbodies hc hf => hc.aligned hw hp hm hb hbodies hf
  case returns =>
    intro m m' d hm ho
    refine ⟨ho.happens.returns_iff hw, fun hdone => ?_⟩
    obtain ⟨b, hi, hb⟩ := (ho.happens.returns_iff hw).mp hdone
    obtain ⟨below, hbodies, -⟩ := ho.leads hw hm
    have hf : d.frame :: below <:+ m.bodies := hbodies ▸ List.suffix_refl _
    obtain ⟨m₁, g, b₁, passed, ds, hm₁, hb₁, hstart, hc⟩ := exists_start_of_body hw hm hf
    exact (hc.aligned hw hp hm₁ hb₁ hstart hf).returns hw ho.happens.node hi hb

/-- One template, for the root, with a loop over one item in a processing instruction. -/
def loopingProgram : Program where
  code := (⟨.unknown, [.enclose .unknown (.processingInstruction (.fixed "p"))
    [.enclose .unknown (.each "i" (.literal "x")) [] .unknown] .unknown], .unknown⟩ : Body).code 0
      |>.toArray
  templates := #[⟨⟨true, []⟩, "/", 0, .group, false, 0, .unknown, 0⟩]
  procedures := #[]
  groups := #[{ (default : Group) with
    templates := [0], candidates := [0], ancestry := [Program.rootGroup] }]
  globals := []

theorem build_looping : Script.build [.template "/" { priority := some 0 }
    [.processingInstruction "p" [.each "i" "'x'" []]]] = .ok loopingProgram :=
  (Script.build_eq _).trans (by with_unfolding_all rfl)

def looping : Environment := ⟨loopingProgram, {}, .plain fun _ => none⟩

/-- After the first round the loop is there before its content, and the target is owed. -/
theorem frames_aligned_looping : FramesAligned looping ∧ ∃ m₁ ds m f, Reached looping m₁ ∧
    m₁.bodies = [.start 0 0 []] ∧ Conducts looping [] m₁ ds m ∧ m.bodies = [f] ∧
    f.Aligned looping.program.code ds ∧ f.cursor = 2 ∧ CameBack ds 2 ∧
    enclosing looping.program.code 2 = [1, 0] ∧ f.scopes.length = 2 ∧
    f.loops.map Loop.node = [2] ∧ f.owed = [.simple "p"] := by
  have haligned : FramesAligned looping := frames_aligned build_looping
  have h₀ : Reached looping _ := .first .startDocument rfl
  have h₁ := h₀.next (.task rfl)
  have h₂ := h₁.next (.task rfl)
  have h₃ := h₂.next (.task rfl)
  have hstarts : StartsBody looping.program.code 0 := ⟨_, rfl, rfl⟩
  have here : ∀ {m}, Reached looping m → Conducts looping [] m [] m := fun _ => .start
  have hc₁ := (here h₃).own (.of_run rfl rfl rfl (.task rfl)) rfl
  have hc₂ := hc₁.own (.of_run rfl rfl rfl (.task rfl)) rfl
  have hc₃ := hc₂.own (.of_run rfl rfl rfl (.task rfl)) rfl
  have hc₄ := hc₃.own (.of_run rfl rfl rfl (.task rfl)) rfl
  exact ⟨haligned, _, _, _, _, h₃, rfl, hc₄, rfl,
    haligned.aligned _ _ _ _ _ _ _ _ h₃ hstarts rfl hc₄ (List.suffix_refl _), rfl,
    cameBack_append.mpr rfl, rfl, rfl, rfl, rfl⟩

end StreamTransform
