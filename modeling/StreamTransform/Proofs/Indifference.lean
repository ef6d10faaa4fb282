import StreamTransform.Proofs.Bookkeeping
import StreamTransform.Proofs.WorkedOff

/-!
# Operations to which the open elements make no difference

The names of the open elements are there for the checks of the input. All other
work neither looks at them nor changes them: with other names it does the same
and comes to the same. So what is processed is the same whether the end tag of
an element has been checked already or not.
-/

namespace StreamTransform

/-- The state with these elements open. -/
def State.withOpen (os : List QName) (s : State) : State := { s with inputOpen := os }

namespace Operation

variable {α β : Type} {env : Environment}

/-- With other elements open the operation comes to the same, and leaves them alone. -/
def Indifferent (op : Operation α) : Prop :=
  ∀ s os, op.outcome (s.withOpen os) = ((op.outcome s).1, (op.outcome s).2.withOpen os)

theorem outcome_attempt (node : Option NodeId) (w : Output.Writing α) (s : State) :
    (attempt env node w).outcome s =
      match w.run.run s.outlet with
      | (.ok a, o) => (.ok (some a), { s with outlet := o })
      | (.error f, o) =>
        (do report env .error f node
            pure none : Operation (Option α)).outcome { s with outlet := o } := by
  rw [attempt, outcome_bind]
  -- what is read first is the state itself
  change Operation.outcome _ s = _
  rcases hw : w.run.run s.outlet with ⟨r, o⟩
  cases r <;> rfl

/-- What is left to do for a node once it is off the stack. -/
def handOver (mode : Closing) (n : OpenNode) (ns : List OpenNode) (depth : Nat) :
    Operation Unit := do
  if mode ≠ .restored then note (.leaveNode n.event depth)
  if !n.activations.isEmpty && !ns.isEmpty then
    modifyCurrent fun parent => { parent with waits := ⟨n.event, n.activations⟩ :: parent.waits }

theorem outcome_popNode_nil {mode : Closing} {s : State} (hn : s.nodes = []) :
    (popNode mode).outcome s = (.error .unbalancedNode, s) := by
  cases s
  cases hn
  rfl

theorem outcome_popNode_cons {mode : Closing} {s : State} {n : OpenNode} {ns : List OpenNode}
    (hn : s.nodes = n :: ns) :
    (popNode mode).outcome s = (handOver mode n ns s.depth).outcome { s with nodes := ns } := by
  cases s
  cases hn
  rfl

namespace Indifferent

protected theorem pure (a : α) : Indifferent (pure a) := fun _ _ => rfl

protected theorem throw (f : Fault) : Indifferent (throw f : Operation α) := fun _ _ => rfl

protected theorem bind {op : Operation α} {k : α → Operation β} (h : Indifferent op)
    (hk : ∀ a, Indifferent (k a)) : Indifferent (op >>= k) := by
  intro s os
  rw [outcome_bind, outcome_bind, h s os]
  rcases op.outcome s with ⟨r, s₁⟩
  cases r with
  | ok a => exact hk a s₁ os
  | error f => rfl

/-- What is read is used for nothing that the open elements are part of. -/
protected theorem get {k : State → Operation β} (hsame : ∀ s os, k (s.withOpen os) = k s)
    (hk : ∀ s, Indifferent (k s)) : Indifferent (get >>= k) := by
  intro s os
  change (k (s.withOpen os)).outcome (s.withOpen os) =
    (((k s).outcome s).1, ((k s).outcome s).2.withOpen os)
  rw [hsame]
  exact hk s s os

protected theorem modify {g : State → State}
    (h : ∀ s os, g (s.withOpen os) = (g s).withOpen os) :
    Indifferent (modify g : Operation PUnit) := by
  intro s os
  change ((Except.ok ⟨⟩, g (s.withOpen os)) : Except Fault PUnit × State) = _
  rw [h]
  rfl

protected theorem modifyGet {g : State → α × State} (hv : ∀ s os, (g (s.withOpen os)).1 = (g s).1)
    (h : ∀ s os, (g (s.withOpen os)).2 = (g s).2.withOpen os) :
    Indifferent (modifyGet g : Operation α) := by
  intro s os
  change ((Except.ok (g (s.withOpen os)).1, (g (s.withOpen os)).2) : Except Fault α × State) = _
  rw [hv, h]
  rfl

protected theorem discard {op : Operation α} (h : Indifferent op) : Indifferent (discard op) := by
  change Indifferent (Function.const α PUnit.unit <$> op)
  rw [map_eq_pure_bind]
  exact h.bind fun _ => .pure _

protected theorem forM {γ : Type} {k : γ → Operation PUnit} (h : ∀ c, Indifferent (k c))
    (cs : List γ) : Indifferent (cs.forM k) := by
  induction cs with
  | nil => exact .pure _
  | cons c cs ih => exact (h c).bind fun _ => ih

protected theorem foldlM {γ : Type} {k : β → γ → Operation β} (h : ∀ b c, Indifferent (k b c))
    (b : β) (cs : List γ) : Indifferent (cs.foldlM k b) := by
  induction cs generalizing b with
  | nil => exact .pure _
  | cons c cs ih => exact (h b c).bind fun b' => ih b'

protected theorem mapM {γ : Type} {k : γ → Operation β} (h : ∀ c, Indifferent (k c))
    (cs : List γ) : Indifferent (cs.mapM k) := by
  induction cs with
  | nil => exact .pure _
  | cons c cs ih =>
    rw [List.mapM_cons]
    exact (h c).bind fun _ => ih.bind fun _ => .pure _

/-! ## Notes, reports and writes -/

theorem note (n : Note) : Indifferent (note n) := .modify fun _ _ => rfl

theorem report (severity : Severity) (f : Fault) (node : Option NodeId) :
    Indifferent (report env severity f node) := by
  refine .get (fun _ _ => rfl) fun s => .bind (.modify fun _ _ => rfl) fun _ => ?_
  split
  · exact .throw _
  · exact .pure _

theorem fatal (f : Fault) : Indifferent (fatal env f : Operation α) :=
  (report _ _ _).bind fun _ => .throw _

theorem attempt (node : Option NodeId) (w : Output.Writing α) :
    Indifferent (attempt env node w) := by
  intro s os
  rw [outcome_attempt, outcome_attempt]
  rcases hw : w.run.run s.outlet with ⟨r, o⟩
  have hw' : w.run.run (s.withOpen os).outlet = (r, o) := hw
  rw [hw']
  cases r with
  | ok a => rfl
  | error f =>
    have hreported : Indifferent (do
        Operation.report env .error f node
        pure none : Operation (Option α)) := (report _ _ _).bind fun _ => .pure _
    exact hreported { s with outlet := o } os

theorem emit (e : Output.Event) (node : Option NodeId) : Indifferent (emit env e node) :=
  (note _).bind fun _ => (attempt node _).discard

theorem addAttribute (attr : Attribute) (node : Option NodeId) :
    Indifferent (addAttribute env attr node) := (attempt node _).discard

theorem settle (node : NodeId) (fallback : α) (r : Except Path.Fault α) :
    Indifferent (settle env node fallback r) := by
  cases r with
  | ok a => exact .pure _
  | error e => exact (report _ _ _).bind fun _ => .pure _

/-! ## Nodes -/

theorem current : Indifferent current := by
  refine .get (fun _ _ => rfl) fun s => ?_
  split
  · exact .pure _
  · exact .throw _

theorem modifyCurrent (g : OpenNode → OpenNode) : Indifferent (modifyCurrent g) := by
  refine .get (fun _ _ => rfl) fun s => ?_
  split
  · exact .modify fun _ _ => rfl
  · exact .throw _

theorem eventAt (depth : Nat) : Indifferent (eventAt depth) := by
  refine .get (fun _ _ => rfl) fun s => ?_
  split
  · exact .throw _
  · split
    · exact .pure _
    · exact .throw _

theorem enterNode (n : OpenNode) : Indifferent (enterNode n) :=
  .bind (.modify fun _ _ => rfl) fun _ => .get (fun _ _ => rfl) fun _ => note _

theorem newEvent (c : Content) : Indifferent (newEvent c) :=
  .modifyGet (fun _ _ => rfl) fun _ _ => rfl

/-! ## Instructions -/

variable (a : Activation) (f : Frame)

theorem evaluate (e : Path.Expr) : Indifferent (evaluate env a f e) :=
  .get (fun _ _ => rfl) fun _ => settle _ _ _

theorem evaluateText (t : Path.TextTemplate) : Indifferent (evaluateText env a f t) :=
  .get (fun _ _ => rfl) fun _ => settle _ _ _

theorem evaluateAttributes (as : List (QName × Path.TextTemplate)) :
    Indifferent (as.mapM fun p => do
      pure (Attribute.mk p.1 (← Operation.evaluateText env a f p.2))) := by
  apply Indifferent.mapM
  intro p
  exact (evaluateText a f p.2).bind fun _ => .pure _

theorem evaluateArguments (arguments : List (String × Path.Expr)) :
    Indifferent (evaluateArguments env a f arguments) :=
  .foldlM (fun _ _ => (evaluate a f _).bind fun _ => .pure _) _ _

theorem computedName (lexical : String) (uri : Option String)
    (namespaces : Namespaces) :
    Indifferent (match StreamTransform.computedName lexical uri namespaces with
      | .ok n => Pure.pure (some n)
      | .error fault => do
        Operation.report env .error fault (some f.cursor)
        Pure.pure none : Operation (Option QName)) := by
  split
  · exact .pure _
  · exact (report _ _ _).bind fun _ => .pure _

theorem evaluateName (t : NameTemplate) : Indifferent (evaluateName env a f t) := by
  refine (evaluateText a f _).bind fun lexical => ?_
  cases t.uri with
  | none => exact (Indifferent.pure none).bind fun uri => computedName f lexical uri _
  | some u =>
    exact (evaluateText a f u).bind fun _ => (Indifferent.pure _).bind fun uri =>
      computedName f lexical uri _

theorem emitHere (e : Output.Event) : Indifferent (emitHere env f e) := emit _ _

theorem reportHere (fault : Fault) : Indifferent (reportHere env f fault) := report _ _ _

theorem emitText (text : String) : Indifferent (emitText env f text) := by
  unfold Operation.emitText
  split
  · exact .pure _
  · exact emitHere f _

theorem capture (n : Node) (context : String) (owed : Option QName) :
    Indifferent (capture env f n context owed) := by
  refine (attempt _ _).bind fun opened => ?_
  split
  · split <;> exact .pure _
  · exact .pure _

theorem captured (start : NodeId) : Indifferent (captured env f start) := attempt _ _

theorem declareVariable (home : Home) (name : String) (v : Value) :
    Indifferent (declareVariable env f home name v) := by
  cases home with
  | body => exact .pure _
  | group g =>
    refine .get (fun _ _ => rfl) fun s => ?_
    split
    · exact .bind (.modify fun _ _ => rfl) fun _ => .pure _
    · exact (reportHere f _).bind fun _ => .pure _

theorem assignVariable (name : String) (v : Value) :
    Indifferent (assignVariable env f name v) := by
  unfold Operation.assignVariable
  split
  · exact .pure _
  · refine .get (fun _ _ => rfl) fun s => ?_
    split
    · exact .bind (.modify fun _ _ => rfl) fun _ => .pure _
    · exact (reportHere f _).bind fun _ => .pure _

theorem openVariable (n : Node) (name : String) (origin : Origin) (home : Home) :
    Indifferent (openVariable env a f n name origin home) := by
  cases origin with
  | selected e =>
    exact (evaluate a f e).bind fun _ => (declareVariable f _ _ _).bind fun _ => .pure _
  | written => exact capture f n s!"variable `{name}'" none

theorem openParameter (n : Node) (name : String) (default : Option Origin) (home : Home) :
    Indifferent (openParameter env a f n name default home) := by
  unfold Operation.openParameter
  split
  · exact (declareVariable f _ _ _).bind fun _ => .pure _
  · split
    · exact openVariable a f n _ _ _
    · exact (reportHere f _).bind fun _ => (declareVariable f _ _ _).bind fun _ => .pure _

theorem targetGroup (d : Delegation) : Indifferent (targetGroup env f d) := by
  unfold Operation.targetGroup
  split
  · exact .pure _
  · split
    · exact .pure _
    · exact (reportHere f _).bind fun _ => .pure _

theorem requestWalk (w : Walk) (d : Delegation) : Indifferent (requestWalk env a f w d) := by
  unfold Operation.requestWalk
  split
  · exact (reportHere f _).bind fun _ => .pure _
  · split
    · exact (reportHere f _).bind fun _ => .pure _
    · refine (targetGroup f d).bind fun g => ?_
      split
      · exact .pure _
      · exact (evaluateArguments a f _).bind fun _ => .pure _

theorem callProcedure (name : String) (d : Delegation) :
    Indifferent (callProcedure env a f name d) := by
  refine (targetGroup f d).bind fun g => ?_
  split
  · exact .pure _
  · split
    · exact (reportHere f _).bind fun _ => .pure _
    · exact (evaluateArguments a f _).bind fun _ => .pure _

theorem act (action : Action) : Indifferent (act env a f action) := by
  cases action with
  | process w d => exact requestWalk a f w d
  | processSiblings d _ _ => exact requestWalk a f .siblings d
  | call name d => exact callProcedure a f name d
  | startElement t | endElement t =>
    refine (evaluateName a f t).bind fun n => ?_
    split
    · exact (emitHere f _).bind fun _ => .pure _
    · exact .pure _
  | text s => exact (emitText f s).bind fun _ => .pure _
  | valueOf select separator =>
    exact (evaluate a f _).bind fun _ => (evaluateText a f _).bind fun _ =>
      (emitText f _).bind fun _ => .pure _

theorem startCopy (withAttributes : Bool) : Indifferent (startCopy env a f withAttributes) := by
  refine (eventAt _).bind fun e => ?_
  split
  · exact emitHere f _
  · exact addAttribute _ _
  · exact .pure _
  · exact emitHere f _

theorem startAttribute (n : Node) (t : NameTemplate) (origin : Origin) :
    Indifferent (startAttribute env a f n t origin) := by
  refine (evaluateName a f t).bind fun name => ?_
  split
  · exact .pure _
  · split
    · exact capture f n _ _
    · exact (evaluate a f _).bind fun _ => (addAttribute _ _).bind fun _ => .pure _

theorem startInstruction (n : Node) (t : Path.TextTemplate) :
    Indifferent (startInstruction env a f n t) := by
  refine (evaluateText a f t).bind fun target => ?_
  split
  · exact (reportHere f _).bind fun _ => .pure _
  · exact capture f n _ _

theorem deliverMessage (text : String) (terminate : Bool) :
    Indifferent (deliverMessage env text terminate) := by
  unfold Operation.deliverMessage
  split
  · exact fatal _
  · exact .pure _

theorem nextItem (n : Node) (name : String) : Indifferent (nextItem f n name) := by
  unfold Operation.nextItem
  split <;> exact .pure _

theorem enterLoop (select : Path.Expr) : Indifferent (enterLoop env a f select) := by
  unfold Operation.enterLoop
  split
  · exact .pure _
  · exact (evaluate a f _).bind fun _ => .pure _

theorem enterIf (n : Node) (test : Path.Expr) : Indifferent (enterIf env a f n test) :=
  (evaluate a f _).bind fun _ => .pure _

theorem startContainer (n : Node) (c : Container) :
    Indifferent (startContainer env a f n c) := by
  cases c with
  | literal name as =>
    exact (evaluateAttributes a f as).bind fun _ => (emitHere f _).bind fun _ => .pure _
  | element t =>
    refine (evaluateName a f t).bind fun name => ?_
    split
    · exact (emitHere f _).bind fun _ => .pure _
    · exact .pure _
  | attr t origin => exact startAttribute a f n t origin
  | copy as => exact (startCopy a f as).bind fun _ => .pure _
  | comment => exact capture f n "comment" none
  | processingInstruction t => exact startInstruction a f n t
  | cdata => exact capture f n "CDATA section" none
  | document t =>
    refine (evaluateText a f t).bind fun href => (attempt _ _).bind fun opened => ?_
    split <;> exact .pure _
  | message origin terminate =>
    cases origin with
    | selected e =>
      exact (evaluate a f e).bind fun _ => (deliverMessage _ _).bind fun _ => .pure _
    | written => exact capture f n "message" none
  | «variable» name origin home => exact openVariable a f n _ _ _
  | parameter name default home => exact openParameter a f n _ _ _
  | assign name origin =>
    cases origin with
    | selected e =>
      exact (evaluate a f e).bind fun _ => (assignVariable f _ _).bind fun _ => .pure _
    | written => exact capture f n s!"assign `{name}'" none
  | loop test => exact enterIf a f n test
  | each name select => exact (enterLoop a f select).bind fun f => nextItem f n name

theorem finishVariable (begun : NodeId) (name : String) (home : Home) :
    Indifferent (finishVariable env f begun name home) := by
  refine (captured f begun).bind fun text => ?_
  split
  · exact declareVariable f _ _ _
  · exact .pure _

theorem finishContainer (begun : NodeId) (c : Container) :
    Indifferent (finishContainer env a f begun c) := by
  cases c with
  | literal name as => exact (emitHere f _).bind fun _ => .pure _
  | element t =>
    simp only [Operation.finishContainer]
    split
    · exact (emitHere f _).bind fun _ => .pure _
    · exact .pure _
  | attr t origin =>
    refine (captured f begun).bind fun text => ?_
    split
    · exact .pure _
    · split
      · exact (addAttribute _ _).bind fun _ => .pure _
      · exact .pure _
  | copy as =>
    refine (eventAt _).bind fun e => ?_
    split
    · exact (emitHere f _).bind fun _ => .pure _
    all_goals exact .pure _
  | comment =>
    refine (captured f begun).bind fun text => ?_
    split
    · exact (emitHere f _).bind fun _ => .pure _
    · exact .pure _
  | processingInstruction t =>
    refine (captured f begun).bind fun text => ?_
    split
    · exact (emitHere f _).bind fun _ => .pure _
    · exact .pure _
  | cdata =>
    refine (captured f begun).bind fun text => ?_
    split
    · exact (emitHere f _).bind fun _ => (emitHere f _).bind fun _ =>
        (emitHere f _).bind fun _ => .pure _
    · exact .pure _
  | document t => exact (attempt _ _).discard.bind fun _ => .pure _
  | message origin terminate =>
    refine (captured f begun).bind fun text => ?_
    split
    · exact (deliverMessage _ _).bind fun _ => .pure _
    · exact .pure _
  | «variable» name origin home | parameter name default home =>
    exact (finishVariable f begun _ _).bind fun _ => .pure _
  | assign name origin =>
    refine (captured f begun).bind fun text => ?_
    split
    · exact (assignVariable f _ _).bind fun _ => .pure _
    · exact .pure _
  | loop test => exact .pure _
  | each name select => exact .pure _

theorem closeAt (begun : NodeId) : Indifferent (closeAt env a f begun) := by
  unfold Operation.closeAt
  split
  · exact .pure _
  · split
    · exact .pure _
    · exact finishContainer a f _ _
    all_goals exact .pure _

theorem execute (n : Node) : Indifferent (execute env a f n) := by
  unfold Operation.execute
  split
  · exact .pure _
  · exact .pure _
  · exact .pure _
  · exact .pure _
  · exact act a f _
  · exact startContainer a f n _
  · exact enterIf a f n _
  · exact enterIf a f n _
  · exact closeAt a f.leave _

/-! ## Tasks -/

theorem selectTemplate (g : GroupId) (exclude : List TemplateId) (hasChildren : Bool) :
    Indifferent (selectTemplate env g exclude hasChildren) := by
  refine .get (fun _ _ => rfl) fun s => ?_
  have told : ∀ found : Option Found, Indifferent (do
      (s.searchTemplates env.program g exclude hasChildren).faults.forM fun p =>
        Operation.report env .error (.evaluation p.2) (env.program.bodyOf p.1)
      pure found : Operation (Option Found)) := fun found =>
    (Indifferent.forM (fun p => report _ _ _) _).bind fun _ => .pure _
  have warned : ∀ found, Indifferent (warnOfRival env hasChildren found) := by
    intro found
    refine .get (fun _ _ => rfl) fun s => ?_
    split
    · exact report _ _ _
    · exact .pure _
  simp only
  split
  · exact (warned _).bind fun _ => told _
  · exact told _

theorem startTemplate (found : Found) (passed : Bindings) (hasChildren : Bool) :
    Indifferent (startTemplate env found passed hasChildren) := by
  unfold Operation.startTemplate
  split
  · exact .pure _
  · refine current.bind fun n => (note _).bind fun _ => .get (fun _ _ => rfl) fun s => ?_
    split <;> exact .pure _

theorem parkForChildren (a : Activation) (g : Handover) : Indifferent (parkForChildren a g) :=
  modifyCurrent _

theorem builtIn (g : Handover) (hasChildren : Bool) :
    Indifferent (builtIn env g hasChildren) := by
  have descended : ∀ copied : Option QName, Indifferent (do
      Operation.parkForChildren (.start (.builtIn copied) (← get).depth 1 hasChildren []) g) :=
    fun copied => .get (fun _ _ => rfl) fun _ => parkForChildren _ g
  refine current.bind fun n => ?_
  simp only
  split
  · exact descended none
  · split
    · exact (emit _ _).bind fun _ => descended _
    · exact descended none
  all_goals
    split
    · first | exact emit _ _ | exact addAttribute _ _
    · exact .pure _

theorem dispatch (g : Handover) (exclude : List TemplateId) (hasChildren : Bool) :
    Indifferent (dispatch env g exclude hasChildren) := by
  refine (selectTemplate _ _ _).bind fun found => ?_
  cases found with
  | some found => exact startTemplate found _ _
  | none => exact (builtIn g hasChildren).bind fun _ => .pure _

theorem enterGroup (g : GroupId) : Indifferent (enterGroup env g) := by
  refine .bind (.modify fun _ _ => rfl) fun _ => ?_
  split
  · exact .pure _
  · exact .get (fun _ _ => rfl) fun _ => .pure _

theorem enterProcedure (id : ProcedureId) (passed : Bindings) :
    Indifferent (enterProcedure env a id passed) := by
  unfold Operation.enterProcedure
  simp only
  split
  · exact fatal _
  · split <;> exact .pure _

theorem suspend (r : Request) : Indifferent (suspend a r) := by
  unfold Operation.suspend
  split
  · exact current.bind fun _ => .pure _
  · exact (parkForChildren _ _).bind fun _ => .pure _
  · exact (modifyCurrent _).bind fun _ => .pure _
  · exact current.bind fun _ => (modifyCurrent _).bind fun _ => .pure _

theorem noteLeft : Indifferent (match a.template? with
      | some id => Operation.note (.leaveTemplate id (env.program.sourceOf id))
      | none => Pure.pure ()) := by
  split
  · exact note _
  · exact .pure _

theorem conclude : Indifferent (conclude env a) := by
  unfold Operation.conclude
  cases a.entered with
  | none => exact noteLeft a
  | some g => exact .bind (.modify fun _ _ => rfl) fun _ => noteLeft a

theorem advance : Indifferent (advance env a) := by
  unfold Operation.advance
  split
  · exact (conclude a).bind fun _ => .pure _
  · split
    · exact .pure _
    · refine (execute a _ _).bind fun flow => ?_
      cases flow with
      | on g => exact .pure _
      | done => exact .pure _
      | call g id passed => exact enterProcedure _ id passed
      | walk g r => exact suspend _ r

theorem attributes (as : List (Attribute × Nat)) (g : Handover) : Indifferent (attributes as g) := by
  cases as with
  | nil => exact .pure _
  | cons p as => exact (newEvent _).bind fun e => (enterNode _).bind fun _ => .pure _

theorem selfDone (below : Nat) : Indifferent (selfDone below) := by
  refine current.bind fun n => ?_
  split
  · split
    · exact (modifyCurrent _).bind fun _ => .pure _
    · exact .pure _
  · exact .pure _

theorem releaseWait (w : SiblingWait) (rest : List SiblingWait) :
    Indifferent (releaseWait w rest) :=
  (modifyCurrent _).bind fun _ => .modify fun _ _ => rfl

theorem close (mode : Closing) : Indifferent (close mode) := by
  refine .get (fun _ _ => rfl) fun s => ?_
  split
  · exact .pure _
  · split
    · exact .pure _
    · exact (releaseWait _ _).bind fun _ => .pure _

theorem popNode (mode : Closing) : Indifferent (popNode mode) := by
  intro s os
  cases hn : s.nodes with
  | nil =>
    have hn' : (s.withOpen os).nodes = [] := hn
    rw [outcome_popNode_nil hn, outcome_popNode_nil hn']
  | cons n ns =>
    have hn' : (s.withOpen os).nodes = n :: ns := hn
    rw [outcome_popNode_cons hn, outcome_popNode_cons hn']
    have handed : Indifferent (handOver mode n ns s.depth) := by
      unfold handOver
      by_cases hmode : mode = .restored
      · simp only [hmode, ne_eq, not_true_eq_false, if_false]
        split
        · exact modifyCurrent _
        · exact .pure _
      · simp only [hmode, ne_eq, not_false_eq_true, if_true]
        refine (note _).bind fun _ => ?_
        split
        · exact modifyCurrent _
        · exact .pure _
    exact handed { s with nodes := ns } os

theorem resume : Indifferent (resume env a) := by
  unfold Operation.resume
  split
  · simp only
    split
    · exact (emit _ _).bind fun _ => .pure _
    · exact .pure _
  all_goals exact .pure _

theorem unwind (mode : Closing) : Indifferent (unwind env mode) := by
  have ended : Indifferent (do
      Operation.popNode mode
      pure [] : Operation (List Task)) := (popNode mode).bind fun _ => .pure _
  refine .get (fun _ _ => rfl) fun s => ?_
  split
  · exact ended
  · split
    · exact ended
    · split
      · exact ended
      · exact (modifyCurrent _).bind fun _ => (resume _).bind fun _ => .pure _

theorem takes (w : SiblingWait) (r : SiblingRequest) (e : Event) :
    Indifferent (takes env w r e) := by
  unfold Operation.takes
  split
  · exact .get (fun _ _ => rfl) fun _ => settle _ _ _
  · exact .pure _

theorem openChild (e : Event) (g : Handover) (hasChildren : Bool) :
    Indifferent (openChild e g hasChildren) := (enterNode _).bind fun _ => .pure _

theorem offer (e : Event) (hasChildren : Bool) : Indifferent (offer env e hasChildren) := by
  have released : ∀ (w : SiblingWait) (ws : List SiblingWait), Indifferent (do
      Operation.releaseWait w ws
      pure [.close .restored, .offer e hasChildren] : Operation (List Task)) := fun w ws =>
    (releaseWait w ws).bind fun _ => .pure _
  refine current.bind fun n => ?_
  split
  · split
    · exact openChild e _ hasChildren
    · refine Indifferent.bind ?_ fun _ => .pure _
      unfold Operation.skip
      split
      · exact .modify fun _ _ => rfl
      · exact .pure _
  · split
    · exact released _ _
    · refine (takes _ _ e).bind fun taken => ?_
      split
      · exact openChild e _ hasChildren
      · exact released _ _

theorem meet (c : Content) (hasChildren : Bool) : Indifferent (meet env c hasChildren) := by
  refine .get (fun _ _ => rfl) fun s => ?_
  simp only
  split
  · split
    · exact .bind (.modify fun _ _ => rfl) fun _ => .pure _
    · exact .pure _
  · split
    · exact fatal _
    · exact (newEvent c).bind fun e => (modifyCurrent _).bind fun _ => .pure _

theorem flush (closing : Bool) : Indifferent (flush env closing) := by
  have taken : Indifferent (takeText env) := by
    refine .get (fun _ _ => rfl) fun s => .bind (.modify fun _ _ => rfl) fun _ => ?_
    split <;> exact .pure _
  exact taken.bind fun _ => .get (fun _ _ => rfl) fun _ =>
    .bind (.modify fun _ _ => rfl) fun _ => .pure _

theorem endOutput : Indifferent (endOutput env) := (emit _ _).bind fun _ => note _

end Indifferent

theorem Indifferent.yields {op : Operation α} (h : Indifferent op) {s s' : State} {a : α}
    (hy : op.Yields s a s') (os : List QName) : op.Yields (s.withOpen os) a (s'.withOpen os) := by
  unfold Yields at hy ⊢
  rw [h, hy]

end Operation

section
variable {env : Environment}

/-- Only the tasks by which an input starts concern the open elements. -/
theorem Task.indifferent (env : Environment) {t : Task} (ht : t.isInput = false) :
    (t.perform env).Indifferent := by
  cases t with
  | endOutput => exact Operation.Indifferent.endOutput.bind fun _ => .pure _
  | flush closing => exact .flush closing
  | meet c hasChildren => exact .meet c hasChildren
  | offer e hasChildren => exact .offer e hasChildren
  | dispatch g exclude hasChildren => exact .dispatch g exclude hasChildren
  | enterGroup g => exact .enterGroup g
  | run a => exact .advance a
  | attributes as g => exact .attributes as g
  | selfDone below => exact .selfDone below
  | close mode => exact .close mode
  | unwind mode => exact .unwind mode
  | _ => cases ht

/-- So work that follows on an input is the same with other elements open. -/
theorem WorksOff.withOpen {ts : List Task} {s s' : State} (h : WorksOff env ts s s')
    (hts : ∀ t ∈ ts, t.isInput = false) (os : List QName) :
    WorksOff env ts (s.withOpen os) (s'.withOpen os) := by
  induction h with
  | nil s => exact .nil _
  | @cons t rest new s s₁ s' hy _ ih =>
    have hnew := (Turn.of_yields hy).not_isInput
    refine .cons ((Task.indifferent env (hts t List.mem_cons_self)).yields hy os) (ih ?_)
    intro u hu
    rcases List.mem_append.mp hu with hu | hu
    · exact hnew u hu
    · exact hts u (List.mem_cons_of_mem _ hu)

end

end StreamTransform
