import StreamTransform.Proofs.Operation

/-!
# Operations that leave the processing of the input alone

Most of what an instruction does is to evaluate expressions and to report what
goes wrong. `Muted` collects what a property of the state has to bear for that,
and the lemmas say which operations then keep it. `Vocal` adds every write, and
`Serves` what an instruction may ask of the variables and of the open nodes;
with them whole instructions keep the property. `Calm` and `Outward` are the same
for a property that bears every note to observers. The state without its output
and variables is such a property.
-/

namespace StreamTransform

/-- A fault that tells of output scopes or result elements out of order. -/
def Fault.isStructural : Fault → Bool
  | .outputUnclosed _ | .outputMismatch .. | .outputUnopened _ | .notACapture
  | .unbalancedScopes => true
  | _ => false

/-- A fault that tells of nodes missing where the work on the input relies on them. -/
def Fault.isPositional : Fault → Bool
  | .outsideDocument | .unbalancedNode | .noCurrentNode | .noNodeAt _ => true
  | _ => false

/-- A fault that any program may meet with. The others tell of bookkeeping gone wrong. -/
def Fault.isRoutine : Fault → Bool
  | .noGroupFrame _ => false
  | f => !f.isStructural && !f.isPositional

/-- A fault that tells of calls nested too deep. -/
def Fault.isExcess : Fault → Bool
  | .recursionLimit _ => true
  | _ => false

/-- A fault that any instruction may meet with. -/
def Fault.isOrdinary (f : Fault) : Bool := f.isRoutine && !f.isExcess

theorem Fault.isRoutine_of_isOrdinary {f : Fault} (h : f.isOrdinary) : f.isRoutine :=
  (Bool.and_eq_true_iff.mp h).1

theorem Fault.isExcess_of_isOrdinary {f : Fault} (h : f.isOrdinary) : f.isExcess = false := by
  simpa using (Bool.and_eq_true_iff.mp h).2

theorem Fault.isStructural_of_isRoutine {f : Fault} (h : f.isRoutine) : f.isStructural = false := by
  cases f <;> first | rfl | cases h

theorem Fault.isStructural_of_isPositional {f : Fault} (h : f.isPositional) :
    f.isStructural = false := by
  cases f <;> first | rfl | cases h

theorem Fault.isExcess_of_isPositional {f : Fault} (h : f.isPositional) : f.isExcess = false := by
  cases f <;> first | rfl | cases h

theorem computedName_error {lexical : String} {uri : Option String} {ns : Namespaces} {f : Fault}
    (h : computedName lexical uri ns = .error f) : f.isOrdinary := by
  unfold computedName at h
  simp only at h
  split at h
  · cases h; rfl
  · cases uri with
    | some uri => cases h
    | none =>
      cases hq : (splitName lexical).1 with
      | none => simp [hq, namespaceFor, bind, Except.bind] at h
      | some q =>
        cases hl : ns.lookup q with
        | none =>
          simp only [hq, hl, namespaceFor, bind, Except.bind, Except.error.injEq] at h
          exact h ▸ rfl
        | some uri => simp [hq, hl, namespaceFor, bind, Except.bind] at h

/-- An element that starts with attributes has some that are allowed for it, and no document
starts. -/
def Output.Event.Admitted (allowed : QName → List Attribute → Prop) : Output.Event → Prop
  | .opening n as => as = [] ∨ allowed n as
  | .startDocument => False
  | _ => True

namespace Operation

variable {α : Type} {env : Environment} {P : State → Prop} {Q : Fault → State → Prop}

/-- A property that bears the notes of output, and the reports and failures that any instruction
may meet with. -/
structure Muted (env : Environment) (P : State → Prop) (Q : Fault → State → Prop) : Prop where
  emitted : ∀ e, Keeps P Q (note (.emit e))
  reported : ∀ severity (f : Fault) node, f.isOrdinary → Keeps P Q (report env severity f node)
  raised : ∀ (f : Fault) s, f.isOrdinary → P s → Q f s

/-- A property that bears every note as well. -/
structure Calm (env : Environment) (P : State → Prop) (Q : Fault → State → Prop) : Prop extends
    Muted env P Q where
  noted : ∀ n, Keeps P Q (note n)
  emitted := fun e => noted (.emit e)

/-- The writes that the processing makes. -/
inductive IsWrite (env : Environment) : {α : Type} → Output.Writing α → Prop
  | emit (e : Output.Event) : IsWrite env (Output.Writing.emit env.surroundings e)
  | addAttribute (a : Attribute) : IsWrite env (Output.Writing.addAttribute a)
  | openCapture (owner : Nat) (context : String) :
      IsWrite env (Output.Writing.openCapture owner context)
  | closeCapture (owner : Nat) : IsWrite env (Output.Writing.closeCapture owner)
  | openDocument (owner : Nat) (href : String) :
      IsWrite env (Output.Writing.openDocument env.surroundings owner href)
  | closeDocument (owner : Nat) :
      IsWrite env (Output.Writing.closeDocument env.surroundings owner)

/-- A property that bears output in the middle of documents, in which elements start with attributes
only if these are allowed for them, with the notes of it. -/
structure Voices (env : Environment) (allowed : QName → List Attribute → Prop) (P : State → Prop)
    (Q : Fault → State → Prop) : Prop extends Muted env P Q where
  emit : ∀ e node, e.Admitted allowed → Keeps P Q (Operation.emit env e node)
  addAttribute : ∀ attr node, Keeps P Q (Operation.addAttribute env attr node)
  openCapture : ∀ owner context node,
    Keeps P Q (attempt env node (Output.Writing.openCapture owner context))
  closeCapture : ∀ owner node, Keeps P Q (attempt env node (Output.Writing.closeCapture owner))
  openDocument : ∀ owner href node,
    Keeps P Q (attempt env node (Output.Writing.openDocument env.surroundings owner href))
  closeDocument : ∀ owner node,
    Keeps P Q (attempt env node (Output.Writing.closeDocument env.surroundings owner))

/-- A property that bears output, with the notes of it. -/
structure Vocal (env : Environment) (P : State → Prop) (Q : Fault → State → Prop) : Prop extends
    Muted env P Q where
  attempted : ∀ {α : Type} node {w : Output.Writing α}, IsWrite env w → Keeps P Q (attempt env node w)

/-- A property that bears every note and every write. -/
structure Outward (env : Environment) (P : State → Prop) (Q : Fault → State → Prop) : Prop extends
    Calm env P Q, Vocal env P Q

theorem keeps_nextItem (f : Frame) (n : Node) (name : String) :
    Keeps P Q (nextItem f n name) := by
  unfold nextItem
  split <;> exact keeps_pure _

namespace Muted

variable (h : Muted env P Q) (a : Activation) (f : Frame)
include h

theorem fatal (fault : Fault) (hf : fault.isOrdinary) :
    Keeps P Q (fatal env fault : Operation α) :=
  keeps_bind (h.reported _ _ _ hf) fun _ => keeps_throw fun s hs => h.raised fault s hf hs

theorem settle (node : NodeId) (fallback : α) (r : Except Path.Fault α) :
    Keeps P Q (settle env node fallback r) := by
  cases r with
  | ok a => exact keeps_pure _
  | error e => exact keeps_bind (h.reported _ _ _ rfl) fun _ => keeps_pure _

theorem evaluate (e : Path.Expr) : Keeps P Q (evaluate env a f e) :=
  keeps_bind keeps_get fun _ => h.settle _ _ _

theorem evaluateText (t : Path.TextTemplate) : Keeps P Q (evaluateText env a f t) :=
  keeps_bind keeps_get fun _ => h.settle _ _ _

theorem evaluateAttributes (as : List (QName × Path.TextTemplate)) :
    Keeps P Q (as.mapM fun p => do
      pure (Attribute.mk p.1 (← Operation.evaluateText env a f p.2))) := by
  apply keeps_mapM
  intro p
  exact keeps_bind (h.evaluateText a f p.2) fun _ => keeps_pure _

theorem evaluateArguments (arguments : List (String × Path.Expr)) :
    Keeps P Q (evaluateArguments env a f arguments) :=
  keeps_foldlM (fun _ _ => keeps_bind (h.evaluate a f _) fun _ => keeps_pure _) _ _

theorem computedName (lexical : String) (uri : Option String)
    (namespaces : Namespaces) :
    Keeps P Q (match StreamTransform.computedName lexical uri namespaces with
      | .ok n => pure (some n)
      | .error fault => do
        report env .error fault (some f.cursor)
        pure none : Operation (Option QName)) := by
  split
  · exact keeps_pure _
  · rename_i hc
    exact keeps_bind (h.reported _ _ _ (computedName_error hc)) fun _ => keeps_pure _

theorem evaluateName (t : NameTemplate) : Keeps P Q (evaluateName env a f t) := by
  refine keeps_bind (h.evaluateText a f _) fun lexical => ?_
  cases t.uri with
  | none => exact keeps_bind (keeps_pure none) fun uri => h.computedName f lexical uri _
  | some u =>
    exact keeps_bind (h.evaluateText a f u) fun _ => keeps_bind (keeps_pure _) fun uri =>
      h.computedName f lexical uri _

theorem reportHere (fault : Fault) (hf : fault.isOrdinary) :
    Keeps P Q (reportHere env f fault) := h.reported _ _ _ hf

theorem targetGroup (d : Delegation) : Keeps P Q (targetGroup env f d) := by
  unfold Operation.targetGroup
  split
  · exact keeps_pure _
  · split
    · exact keeps_pure _
    · exact keeps_bind (h.reportHere f _ rfl) fun _ => keeps_pure _

theorem requestWalk (w : Walk) (d : Delegation) : Keeps P Q (requestWalk env a f w d) := by
  unfold Operation.requestWalk
  split
  · exact keeps_bind (h.reportHere f _ rfl) fun _ => keeps_pure _
  · split
    · exact keeps_bind (h.reportHere f _ rfl) fun _ => keeps_pure _
    · refine keeps_bind (h.targetGroup f d) fun g => ?_
      split
      · exact keeps_pure _
      · exact keeps_bind (h.evaluateArguments a f _) fun _ => keeps_pure _

theorem callProcedure (name : String) (d : Delegation) :
    Keeps P Q (callProcedure env a f name d) := by
  refine keeps_bind (h.targetGroup f d) fun g => ?_
  split
  · exact keeps_pure _
  · split
    · exact keeps_bind (h.reportHere f _ rfl) fun _ => keeps_pure _
    · exact keeps_bind (h.evaluateArguments a f _) fun _ => keeps_pure _

theorem deliverMessage (text : String) (terminate : Bool) :
    Keeps P Q (deliverMessage env text terminate) := by
  unfold Operation.deliverMessage
  split
  · exact h.fatal _ rfl
  · exact keeps_pure _

theorem enterLoop (select : Path.Expr) : Keeps P Q (enterLoop env a f select) := by
  unfold Operation.enterLoop
  split
  · exact keeps_pure _
  · exact keeps_bind (h.evaluate a f _) fun _ => keeps_pure _

theorem enterIf (n : Node) (test : Path.Expr) : Keeps P Q (enterIf env a f n test) :=
  keeps_bind (h.evaluate a f _) fun _ => keeps_pure _

theorem warnOfRival (hasChildren : Bool) (found : Found) :
    Keeps P Q (warnOfRival env hasChildren found) := by
  refine keeps_bind keeps_get fun s => ?_
  split
  · exact h.reported _ _ _ rfl
  · exact keeps_pure _

theorem selectTemplate (g : GroupId) (exclude : List TemplateId) (hasChildren : Bool) :
    Keeps P Q (selectTemplate env g exclude hasChildren) := by
  refine keeps_bind keeps_get fun s => ?_
  have told : ∀ found : Option Found, Keeps P Q ((do
      (s.searchTemplates env.program g exclude hasChildren).faults.forM fun p =>
        report env .error (.evaluation p.2) (env.program.bodyOf p.1)
      pure found) : Operation (Option Found)) := fun found =>
    keeps_bind (keeps_forM (fun p => h.reported _ _ _ rfl) _) fun _ => keeps_pure _
  simp only
  split
  · exact keeps_bind (h.warnOfRival _ _) fun _ => told _
  · exact told _

theorem takes (w : SiblingWait) (r : SiblingRequest) (e : Event) :
    Keeps P Q (takes env w r e) := by
  unfold Operation.takes
  split
  · exact keeps_bind keeps_get fun _ => h.settle _ _ _
  · exact keeps_pure _

/-- A property that bears new bindings in the frames of groups bears assignments. -/
theorem assignVariable (hp : ∀ s g name v, P s → P { s with frames := s.frames.insert g name v })
    (name : String) (v : Value) : Keeps P Q (assignVariable env f name v) := by
  unfold Operation.assignVariable
  split
  · exact keeps_pure _
  · refine keeps_get_bind fun s hs => ?_
    split
    · rename_i fs hfs
      obtain ⟨g, -, rfl⟩ := Option.map_eq_some_iff.mp hfs
      exact hp s g name v hs
    · exact keeps_bind (h.reportHere f _ rfl) (fun _ => keeps_pure _) s hs

end Muted

/-- It bears declarations as well, if one that finds no frame does no harm. -/
theorem keeps_declareVariable
    (hp : ∀ s g name v, P s → P { s with frames := s.frames.insert g name v }) (f : Frame)
    {home : Home} (name : String) (v : Value)
    (hr : ∀ s g, P s → home = .group g → s.frames.current? g = none →
      (report env .error (.noGroupFrame name) (some f.cursor)).Ensures s (fun _ => P) Q) :
    Keeps P Q (declareVariable env f home name v) := by
  cases home with
  | body => exact keeps_pure _
  | group g =>
    refine keeps_get_bind fun s hs => ?_
    split
    · exact hp s g name v hs
    · rename_i hnone
      exact ensures_bind.mpr ((hr s g hs rfl hnone).mono (fun _ _ hs' => hs') fun _ _ hq => hq)

theorem preserves_eventAt (depth : Nat) : Preserves P (eventAt depth) := by
  refine keeps_bind keeps_get fun s => ?_
  split
  · exact keeps_throw fun _ hs => hs
  · split
    · exact keeps_pure _
    · exact keeps_throw fun _ hs => hs

end Operation

/-- Where the variable of a container lives, if it has one. -/
def Container.home? : Container → Option Home
  | .variable _ _ home | .parameter _ _ home => some home
  | _ => none

/-- The node starts or ends the container. -/
inductive Node.Concerns (code : Array Node) (n : Node) (c : Container) : Prop
  | starts : n.instruction = .container c → Concerns code n c
  | ends {b : NodeId} {o : Node} : n.instruction = .closing b → code[b]? = some o →
      o.instruction = .container c → Concerns code n c

section
variable {code : Array Node} {n o : Node} {c c' : Container} {b : NodeId}

theorem Node.Concerns.of_container (h : n.Concerns code c) (hi : n.instruction = .container c') :
    c' = c := by
  cases h with
  | starts hi' => exact Instruction.container.inj (hi.symm.trans hi')
  | ends hb _ _ => cases hi.symm.trans hb

theorem Node.Concerns.of_closing (h : n.Concerns code c) (hi : n.instruction = .closing b)
    (ho : code[b]? = some o) : o.instruction = .container c := by
  cases h with
  | starts hi' => cases hi.symm.trans hi'
  | ends hb ho' hc =>
    obtain rfl := Instruction.closing.inj (hi.symm.trans hb)
    obtain rfl := Option.some.inj (ho.symm.trans ho')
    exact hc

end

namespace Operation

variable {α : Type} {env : Environment} {P : State → Prop} {Q : Fault → State → Prop}

/-- A property that bears what a container may ask of the variables and of the open nodes. -/
structure Serves (env : Environment) (P : State → Prop) (Q : Fault → State → Prop) (a : Activation)
    (c : Container) : Prop where
  located : Keeps P Q (eventAt a.depth)
  declared : ∀ home ∈ c.home?, ∀ f name v, Keeps P Q (declareVariable env f home name v)
  assigned : ∀ f name v, Keeps P Q (assignVariable env f name v)

/-- What a container brings to a start tag is allowed there. -/
structure Brings (allowed : QName → List Attribute → Prop) (P : State → Prop) (a : Activation)
    (c : Container) : Prop where
  written : ∀ n pairs, c = .literal n pairs → ∀ as : List Attribute,
    as.map Attribute.name = pairs.map Prod.fst → allowed n as
  copied : ∀ s e s', P s → (eventAt a.depth).Yields s e s' → ∀ n as, e.content = .element n as →
    allowed n as

/-- The attributes of a literal element are those that it is written with. -/
theorem Muted.ensures_evaluateAttributes (h : Muted env P Q) (a : Activation) (f : Frame)
    (pairs : List (QName × Path.TextTemplate)) {s : State} (hs : P s) :
    Ensures (pairs.mapM fun p => do
        pure (Attribute.mk p.1 (← Operation.evaluateText env a f p.2))) s
      (fun as s' => P s' ∧ as.map Attribute.name = pairs.map Prod.fst) Q := by
  induction pairs generalizing s with
  | nil => exact ⟨hs, rfl⟩
  | cons p pairs ih =>
    rw [List.mapM_cons, ensures_bind, ensures_bind]
    refine (h.evaluateText a f p.2 s hs).mono (fun v s₁ hs₁ => ?_) fun _ _ hq => hq
    rw [ensures_pure, ensures_bind]
    refine (ih hs₁).mono (fun as s₂ hs₂ => ?_) fun _ _ hq => hq
    rw [ensures_pure]
    exact ⟨hs₂.1, congrArg (p.1 :: ·) hs₂.2⟩

namespace Voices

variable {allowed : QName → List Attribute → Prop} (h : Voices env allowed P Q) (a : Activation)
  (f : Frame)
include h

theorem emitHere (e : Output.Event) (he : e.Admitted allowed) : Keeps P Q (emitHere env f e) :=
  h.emit _ _ he

theorem emitText (text : String) : Keeps P Q (emitText env f text) := by
  unfold Operation.emitText
  split
  · exact keeps_pure _
  · exact h.emitHere f _ trivial

theorem capture (n : Node) (context : String) (owed : Option QName) :
    Keeps P Q (capture env f n context owed) := by
  refine keeps_bind (h.openCapture _ _ _) fun opened => ?_
  split
  · split <;> exact keeps_pure _
  · exact keeps_pure _

theorem openVariable (n : Node) (name : String) (origin : Origin) {home : Home}
    (hd : ∀ f name v, Keeps P Q (declareVariable env f home name v)) :
    Keeps P Q (openVariable env a f n name origin home) := by
  cases origin with
  | selected e =>
    exact keeps_bind (h.evaluate a f e) fun v => keeps_bind (hd f _ v) fun _ => keeps_pure _
  | written => exact h.capture f n s!"variable `{name}'" none

theorem openParameter (n : Node) (name : String) (default : Option Origin) {home : Home}
    (hd : ∀ f name v, Keeps P Q (declareVariable env f home name v)) :
    Keeps P Q (openParameter env a f n name default home) := by
  unfold Operation.openParameter
  split
  · exact keeps_bind (hd f _ _) fun _ => keeps_pure _
  · split
    · exact h.openVariable a f n _ _ hd
    · exact keeps_bind (h.reportHere f _ rfl) fun _ =>
        keeps_bind (hd f _ _) fun _ => keeps_pure _

theorem act (action : Action) : Keeps P Q (act env a f action) := by
  cases action with
  | process w d => exact h.requestWalk a f w d
  | processSiblings d _ _ => exact h.requestWalk a f .siblings d
  | call name d => exact h.callProcedure a f name d
  | startElement t =>
    refine keeps_bind (h.evaluateName a f t) fun n => ?_
    split
    · exact keeps_bind (h.emitHere f _ (.inl rfl)) fun _ => keeps_pure _
    · exact keeps_pure _
  | endElement t =>
    refine keeps_bind (h.evaluateName a f t) fun n => ?_
    split
    · exact keeps_bind (h.emitHere f _ trivial) fun _ => keeps_pure _
    · exact keeps_pure _
  | text s => exact keeps_bind (h.emitText f s) fun _ => keeps_pure _
  | valueOf select separator =>
    exact keeps_bind (h.evaluate a f _) fun v => keeps_bind (h.evaluateText a f _) fun _ =>
      keeps_bind (h.emitText f _) fun _ => keeps_pure _

theorem startCopy (withAttributes : Bool) (hat : Keeps P Q (eventAt a.depth))
    (hcopied : ∀ s e s', P s → (eventAt a.depth).Yields s e s' → ∀ n as,
      e.content = .element n as → allowed n as) :
    Keeps P Q (startCopy env a f withAttributes) := by
  intro s hs
  refine ensures_bind.mpr (hat.yielding hs fun e s' hy hs' => ?_)
  have hallowed := hcopied s e s' hs hy
  split
  · rename_i n as hc
    cases withAttributes with
    | true => exact h.emitHere f (.opening n as) (.inr (hallowed n as hc)) s' hs'
    | false => exact h.emitHere f (.opening n []) (.inl rfl) s' hs'
  · exact h.addAttribute _ _ s' hs'
  · exact hs'
  · refine h.emitHere f _ ?_ s' hs'
    cases e.content <;> exact trivial

theorem startAttribute (n : Node) (t : NameTemplate) (origin : Origin) :
    Keeps P Q (startAttribute env a f n t origin) := by
  refine keeps_bind (h.evaluateName a f t) fun name => ?_
  split
  · exact keeps_pure _
  · split
    · exact h.capture f n _ _
    · exact keeps_bind (h.evaluate a f _) fun _ =>
        keeps_bind (h.addAttribute _ _) fun _ => keeps_pure _

theorem startInstruction (n : Node) (t : Path.TextTemplate) :
    Keeps P Q (startInstruction env a f n t) := by
  refine keeps_bind (h.evaluateText a f t) fun target => ?_
  split
  · exact keeps_bind (h.reportHere f _ rfl) fun _ => keeps_pure _
  · exact h.capture f n _ _

theorem startContainer (n : Node) (c : Container) (hc : Serves env P Q a c)
    (hb : Brings allowed P a c) : Keeps P Q (startContainer env a f n c) := by
  cases c with
  | literal name pairs =>
    intro s hs
    refine ensures_bind.mpr ((h.ensures_evaluateAttributes a f pairs hs).mono ?_ fun _ _ hq => hq)
    rintro as s' ⟨hs', hnames⟩
    have hallowed := hb.written name pairs rfl as hnames
    have hemitted := h.emitHere f (.opening name as) (.inr hallowed)
    exact keeps_bind hemitted (fun _ => keeps_pure _) s' hs'
  | element t =>
    refine keeps_bind (h.evaluateName a f t) fun name => ?_
    split
    · exact keeps_bind (h.emitHere f _ (.inl rfl)) fun _ => keeps_pure _
    · exact keeps_pure _
  | attr t origin => exact h.startAttribute a f n t origin
  | copy as =>
    exact keeps_bind (h.startCopy a f as hc.located hb.copied) fun _ => keeps_pure _
  | comment => exact h.capture f n "comment" none
  | processingInstruction t => exact h.startInstruction a f n t
  | cdata => exact h.capture f n "CDATA section" none
  | document t =>
    refine keeps_bind (h.evaluateText a f t) fun href =>
      keeps_bind (h.openDocument _ _ _) fun opened => ?_
    split <;> exact keeps_pure _
  | message origin terminate =>
    cases origin with
    | selected e =>
      exact keeps_bind (h.evaluate a f e) fun _ =>
        keeps_bind (h.deliverMessage _ _) fun _ => keeps_pure _
    | written => exact h.capture f n "message" none
  | «variable» name origin home => exact h.openVariable a f n _ _ (hc.declared home rfl)
  | parameter name default home => exact h.openParameter a f n _ _ (hc.declared home rfl)
  | assign name origin =>
    cases origin with
    | selected e =>
      exact keeps_bind (h.evaluate a f e) fun v =>
        keeps_bind (hc.assigned f name v) fun _ => keeps_pure _
    | written => exact h.capture f n s!"assign `{name}'" none
  | loop test => exact h.enterIf a f n test
  | each name select =>
    exact keeps_bind (h.enterLoop a f select) fun f => keeps_nextItem f n name

theorem finishVariable (begun : NodeId) (name : String) {home : Home}
    (hd : ∀ f name v, Keeps P Q (declareVariable env f home name v)) :
    Keeps P Q (finishVariable env f begun name home) := by
  refine keeps_bind (h.closeCapture _ _) fun text => ?_
  split
  · exact hd f _ _
  · exact keeps_pure _

theorem finishContainer (begun : NodeId) (c : Container) (hc : Serves env P Q a c) :
    Keeps P Q (finishContainer env a f begun c) := by
  have caught : ∀ {k : Option String → Operation Flow}, (∀ t, Keeps P Q (k t)) →
      Keeps P Q (captured env f begun >>= k) := fun hk =>
    keeps_bind (h.closeCapture begun _) hk
  cases c with
  | literal name as => exact keeps_bind (h.emitHere f _ trivial) fun _ => keeps_pure _
  | element t =>
    simp only [Operation.finishContainer]
    split
    · exact keeps_bind (h.emitHere f _ trivial) fun _ => keeps_pure _
    · exact keeps_pure _
  | attr t origin =>
    refine caught fun text => ?_
    split
    · exact keeps_pure _
    · split
      · exact keeps_bind (h.addAttribute _ _) fun _ => keeps_pure _
      · exact keeps_pure _
  | copy as =>
    refine keeps_bind hc.located fun e => ?_
    split
    · exact keeps_bind (h.emitHere f _ trivial) fun _ => keeps_pure _
    all_goals exact keeps_pure _
  | comment =>
    refine caught fun text => ?_
    split
    · exact keeps_bind (h.emitHere f _ trivial) fun _ => keeps_pure _
    · exact keeps_pure _
  | processingInstruction t =>
    refine caught fun text => ?_
    split
    · exact keeps_bind (h.emitHere f _ trivial) fun _ => keeps_pure _
    · exact keeps_pure _
  | cdata =>
    refine caught fun text => ?_
    split
    · exact keeps_bind (h.emitHere f _ trivial) fun _ =>
        keeps_bind (h.emitHere f _ trivial) fun _ =>
        keeps_bind (h.emitHere f _ trivial) fun _ => keeps_pure _
    · exact keeps_pure _
  | document t =>
    exact keeps_bind (keeps_discard (h.closeDocument begun _)) fun _ => keeps_pure _
  | message origin terminate =>
    refine caught fun text => ?_
    split
    · exact keeps_bind (h.deliverMessage _ _) fun _ => keeps_pure _
    · exact keeps_pure _
  | «variable» name origin home =>
    exact keeps_bind (h.finishVariable f _ _ (hc.declared home rfl)) fun _ => keeps_pure _
  | parameter name default home =>
    exact keeps_bind (h.finishVariable f _ _ (hc.declared home rfl)) fun _ => keeps_pure _
  | assign name origin =>
    refine caught fun text => ?_
    split
    · exact keeps_bind (hc.assigned f _ _) fun _ => keeps_pure _
    · exact keeps_pure _
  | loop test => exact keeps_pure _
  | each name select => exact keeps_pure _

theorem closeAt (begun : NodeId) (hc : ∀ o c, env.program.code[begun]? = some o →
    o.instruction = .container c → Serves env P Q a c) : Keeps P Q (closeAt env a f begun) := by
  unfold Operation.closeAt
  split
  · exact keeps_pure _
  · rename_i o ho
    split
    · exact keeps_pure _
    · rename_i c hi
      exact h.finishContainer a f _ _ (hc o c ho hi)
    all_goals exact keeps_pure _

theorem execute (n : Node) (hc : ∀ c, n.Concerns env.program.code c → Serves env P Q a c)
    (hb : ∀ c, n.instruction = .container c → Brings allowed P a c) :
    Keeps P Q (execute env a f n) := by
  unfold Operation.execute
  split
  · exact keeps_pure _
  · exact keeps_pure _
  · exact keeps_pure _
  · exact keeps_pure _
  · exact h.act a f _
  · rename_i c hi
    exact h.startContainer a f n c (hc c (.starts hi)) (hb c hi)
  · exact h.enterIf a f n _
  · exact h.enterIf a f n _
  · rename_i b hi
    exact h.closeAt a f.leave b fun o c ho hoc => hc c (.ends hi ho hoc)

end Voices

namespace Vocal

variable (h : Vocal env P Q) (a : Activation) (f : Frame)
include h

theorem emit (e : Output.Event) (node : Option NodeId) : Keeps P Q (emit env e node) :=
  keeps_bind (h.emitted _) fun _ => keeps_discard (h.attempted _ (.emit e))

theorem addAttribute (attr : Attribute) (node : Option NodeId) :
    Keeps P Q (addAttribute env attr node) := keeps_discard (h.attempted _ (.addAttribute attr))

/-- All output is borne, with any attributes. -/
theorem voices : Voices env (fun _ _ => True) P Q where
  toMuted := h.toMuted
  emit e node _ := h.emit e node
  addAttribute := h.addAttribute
  openCapture owner context node := h.attempted node (.openCapture owner context)
  closeCapture owner node := h.attempted node (.closeCapture owner)
  openDocument owner href node := h.attempted node (.openDocument owner href)
  closeDocument owner node := h.attempted node (.closeDocument owner)

theorem finishVariable (begun : NodeId) (name : String) {home : Home}
    (hd : ∀ f name v, Keeps P Q (declareVariable env f home name v)) :
    Keeps P Q (finishVariable env f begun name home) :=
  h.voices.finishVariable f begun name hd

theorem execute (n : Node)
    (hc : ∀ c, n.Concerns env.program.code c → Serves env P Q a c) :
    Keeps P Q (execute env a f n) :=
  h.voices.execute a f n hc fun _ _ =>
    ⟨fun _ _ _ _ _ => trivial, fun _ _ _ _ _ _ _ _ => trivial⟩

end Vocal

end Operation

/-- The state without its output and without the variables of groups. -/
def State.inputSide (s : State) : State := { s with outlet := .initial, frames := [] }

namespace Operation

/-- A property that does not look at the outlet bears whatever is written. -/
theorem outward_of_unseen {P : State → Prop} (hp : ∀ s o, P s → P { s with outlet := o }) :
    Outward env P fun _ => P where
  noted _ := keeps_modify fun s hs => hp s _ hs
  reported _ _ _ _ := preserves_report fun s hs => hp s _ hs
  raised _ _ _ hs := hs
  attempted node w _ := by
    intro s hs
    rw [ensures_attempt]
    split
    · exact hp s _ hs
    · exact preserves_report (fun s hs => hp s _ hs) _ (hp s _ hs)

theorem outward_inputSide (env : Environment) (s₀ : State) :
    Outward env (fun s => s.inputSide = s₀) fun _ s => s.inputSide = s₀ :=
  outward_of_unseen fun _ _ hs => hs

/-- No instruction changes anything on the input side. -/
theorem inputSide_execute (env : Environment) (s₀ : State) (a : Activation) (f : Frame) (n : Node) :
    Preserves (fun s => s.inputSide = s₀) (execute env a f n) := by
  have h := outward_inputSide env s₀
  refine h.execute a f n fun c _ => ⟨preserves_eventAt _, fun home _ f name v => ?_, fun f name v => ?_⟩
  · exact keeps_declareVariable (fun _ _ _ _ hs => hs) f name v fun s _ hs _ _ =>
      preserves_report (fun _ hs => hs) s hs
  · exact h.assignVariable f (fun _ _ _ _ hs => hs) name v

/-- An operation that leaves all but the output and the variables of groups as it was. -/
theorem inputSide_eq {op : Operation α} {s s' : State} {a : α}
    (h : ∀ s₀, Preserves (fun s => s.inputSide = s₀) op) (hy : Yields op s a s') :
    s'.inputSide = s.inputSide := (h _).of_yields hy rfl

end Operation

end StreamTransform
