import StreamTransform.Proofs.Assembly
import StreamTransform.Proofs.Completion
import StreamTransform.Proofs.Copy
import StreamTransform.Proofs.Documents

/-!
# The built-in rules copy a document

Where nothing is declared, an open element has one activation, which waits for
its children and owes an end tag if its start tag was copied. Between two calls
a start tag of the input may be held back, some text, and a start tag of the
output. What was copied and what the inputs held back and those to come are
still to be copied to make up the whole, call by call.
-/

namespace StreamTransform

open Output

/-! ## Output -/

/-- The main output has these elements open, and has got these events, the one held back
included. -/
def Output.Outlet.Holds (o : Outlet) (opened : List QName) (out : List Output.Event) : Prop :=
  ∃ t : Scope, o.scopes = [t] ∧ t.target = .sink .main ∧ t.opened = opened ∧
    o.record.taken .main ++ t.pending.toList.map (fun tag => .opening tag.1 tag.2) = out

namespace Output.Outlet.Holds

variable {s : Surroundings} {o : Outlet} {opened : List QName} {out : List Output.Event}
  (ha : ∀ r e, s.sink .main r e = none)

theorem noted (h : o.Holds opened out) (n : Note) : (o.after (.noted n)).Holds opened out := by
  obtain ⟨t, ht, htarget, hopened, hout⟩ := h
  exact ⟨t, ht, htarget, hopened, by rw [Outlet.record_after, Record.taken_noted, hout]⟩

include ha

/-- With nothing held back the sink has got everything. -/
theorem flush (h : o.Holds opened out) :
    (Writing.flush s).Ensures o (fun _ o' => ∃ t : Scope, o'.scopes = [t] ∧
      t.target = .sink .main ∧ t.opened = opened ∧ t.pending = none ∧ o'.record.taken .main = out)
      fun _ _ => False := by
  obtain ⟨t, ht, htarget, hopened, hout⟩ := h
  unfold Writing.flush
  rw [Writing.ensures_bind, Writing.ensures_top, ht]
  cases hp : t.pending with
  | none =>
    simp only [hp, Option.toList_none, List.map_nil, List.append_nil] at hout ⊢
    exact ⟨t, ht, htarget, hopened, hp, hout⟩
  | some tag =>
    simp only [hp, Option.toList_some, List.map_cons, List.map_nil] at hout ⊢
    rw [Writing.ensures_bind, Writing.ensures_setTop, Writing.ensures_deliver_sink ha
      (t := { t with pending := none }) rfl htarget]
    refine ⟨{ t with pending := none }, by simp [ht], htarget, hopened, rfl, ?_⟩
    rw [Outlet.record_after, Record.taken_sent]
    exact hout

/-- What is written once nothing is held back. -/
theorem after_flush (h : o.Holds opened out) {k : Scope → Writing Unit}
    {ok : Unit → Outlet → Prop}
    (hk : ∀ {o' : Outlet} {t : Scope}, o'.scopes = [t] → t.target = .sink .main →
      t.opened = opened → t.pending = none → o'.record.taken .main = out →
      (k t).Ensures o' ok fun _ _ => False) :
    (do Writing.flush s; k (← Writing.top)).Ensures o ok fun _ _ => False := by
  rw [Writing.ensures_bind]
  refine (h.flush ha).mono ?_ fun _ _ hfalse => hfalse
  rintro - o' ⟨t, ht, htarget, hopened, hp, hout⟩
  rw [Writing.ensures_bind, Writing.ensures_top, ht]
  exact hk ht htarget hopened hp hout

theorem deliver (t : Scope) (ht : o.scopes = [t]) (htarget : t.target = .sink .main)
    (hp : t.pending = none) (e : Output.Event) :
    (Writing.deliver s e).Ensures o
      (fun _ o' => o'.Holds t.opened (o.record.taken .main ++ [e])) fun _ _ => False := by
  rw [Writing.ensures_deliver_sink ha ht htarget]
  refine ⟨t, ht, htarget, rfl, ?_⟩
  rw [Outlet.record_after, Record.taken_sent, hp]
  exact List.append_nil _

theorem emit_plain (h : o.Holds opened out) {e : Output.Event} (he : e.isPlain) :
    (Writing.emit s e).Ensures o (fun _ o' => o'.Holds opened (out ++ [e]))
      fun _ _ => False := by
  rw [Writing.emit_of_isPlain he]
  refine h.after_flush ha fun ht htarget hopened hp hout => ?_
  rw [← hopened, ← hout]
  exact deliver ha _ ht htarget hp e

theorem emit_opening (h : o.Holds opened out) (n : QName) (as : List Attribute) :
    (Writing.emit s (.opening n as)).Ensures o
      (fun _ o' => o'.Holds (n :: opened) (out ++ [.opening n as])) fun _ _ => False := by
  unfold Writing.emit
  refine h.after_flush ha fun {o' t} ht htarget hopened hp hout => ?_
  simp only [htarget]
  rw [Writing.ensures_setTop]
  exact ⟨_, by rw [ht]; rfl, rfl, by rw [hopened], by rw [hout]; rfl⟩

theorem emit_closing {n : QName} (h : o.Holds (n :: opened) out) :
    (Writing.emit s (.closing n)).Ensures o
      (fun _ o' => o'.Holds opened (out ++ [.closing n])) fun _ _ => False := by
  unfold Writing.emit
  refine h.after_flush ha fun {o' t} ht htarget hopened hp hout => ?_
  simp only [htarget, hopened]
  rw [if_pos (by simp [QName.same]), Writing.ensures_bind, Writing.ensures_setTop, ← hout]
  exact deliver ha ⟨.sink .main, t.owner, t.pending, opened⟩ (by rw [ht]; rfl) rfl hp _

/-- The mark of the end leaves nothing held back. -/
theorem emit_endDocument (h : o.Holds [] out) :
    (Writing.emit s .endDocument).Ensures o
      (fun _ o' => o'.record.taken .main = out ++ [.endDocument]) fun _ _ => False := by
  unfold Writing.emit
  refine h.after_flush ha fun {o' t} ht htarget hopened hp hout => ?_
  simp only
  rw [Writing.ensures_bind, Writing.ensures_checkClosed, hopened]
  simp only
  rw [Writing.ensures_deliver_sink ha ht htarget, Outlet.record_after, Record.taken_sent, hout]

theorem emit_startDocument (h : o.Holds [] []) :
    (Writing.emit s .startDocument).Ensures o
      (fun _ o' => o'.Holds [] [.startDocument]) fun _ _ => False := by
  unfold Writing.emit
  refine h.after_flush ha fun ht htarget hopened hp hout => ?_
  have hdeliver := deliver ha _ ht htarget hp .startDocument
  rw [hopened, hout] at hdeliver
  exact hdeliver

end Output.Outlet.Holds

/-- An event that cannot be refused changes the outlet alone. -/
theorem Operation.ensures_emit_of {env : Environment} {s : State} {e : Output.Event}
    {node : Option NodeId} {P : Outlet → Prop}
    (h : (Writing.emit env.surroundings e).Ensures (s.outlet.after (.noted (.emit e)))
      (fun _ => P) fun _ _ => False) :
    (emit env e node).Ensures s (fun _ s' => ∃ o, s' = { s with outlet := o } ∧ P o)
      fun _ _ => False := by
  unfold Operation.emit
  rw [ensures_bind, ensures_note, ensures_discard, ensures_attempt]
  unfold Writing.Ensures at h
  split
  · rename_i u o hw
    have hw : (Writing.emit env.surroundings e).run.run (s.outlet.after (.noted (.emit e))) =
        (.ok u, o) := hw
    rw [hw] at h
    exact ⟨o, rfl, h⟩
  · rename_i f o hw
    have hw : (Writing.emit env.surroundings e).run.run (s.outlet.after (.noted (.emit e))) =
        (.error f, o) := hw
    rw [hw] at h
    exact h.elim

/-! ## Open elements -/

/-- Below this node the built-in rule waits, and it owes an end tag if there is one to be owed. -/
structure OpenNode.Awaits (n : OpenNode) (owed : Option QName) : Prop where
  waits : n.waits = []
  children : n.children = some ⟨Program.rootGroup, []⟩
  activation : ∃ a, n.activations = [a] ∧ a.role = .builtIn owed ∧ a.phase = .awaitingChildren

/-- The nodes of open elements, the innermost first, with the root below them. -/
inductive Descended (p : PassThrough) : List QName → List OpenNode → Prop
  | root {n : OpenNode} : n.Awaits none → Descended p [] [n]
  | element {n : OpenNode} {name : QName} {names : List QName} {ns : List OpenNode} :
      n.Awaits (if p.copiesMarkup then some name else none) → Descended p names ns →
      Descended p (name :: names) (n :: ns)

theorem Descended.tallied {p : PassThrough} {names : List QName} {n : OpenNode}
    {ns : List OpenNode} (h : Descended p names (n :: ns)) (tally : Tally) :
    Descended p names ({ n with tally := tally } :: ns) := by
  cases h with
  | root hn => exact .root ⟨hn.waits, hn.children, hn.activation⟩
  | element hn h => exact .element ⟨hn.waits, hn.children, hn.activation⟩ h

/-- What is held back of the input, and the elements that are open in it. -/
structure HeldBack where
  inputOpen : List QName
  start : Option (QName × List Attribute)
  text : String

namespace HeldBack

/-- The elements that are open once nothing is held back, below others. -/
def below (h : HeldBack) (names : List QName) : List QName :=
  h.start.toList.map Prod.fst ++ names

/-- What is held back, as the input it came from. -/
def inputs (h : HeldBack) : List Input :=
  h.start.toList.map (fun tag => .opening tag.1 tag.2) ++ [.characters h.text]

/-- The start tag that is held back comes before the text. -/
theorem copy_inputs (h : HeldBack) (c : Configuration) (names : List QName) :
    c.copy names h.inputs =
      (h.start.toList.map fun tag => Output.Event.opening tag.1 tag.2).filter c.passThrough.passes ++
        c.copy (h.below names) [.characters h.text] := by
  obtain ⟨io, start, text⟩ := h
  cases start with
  | none => rfl
  | some tag => exact Configuration.copy_cons rfl

/-- What is held back is finished with when something else than text comes. -/
theorem copy_before (h : HeldBack) (c : Configuration) (names : List QName) {i : Input}
    (hi : i.isText = false) (is : List Input) :
    c.copy names (h.inputs ++ i :: is) =
      c.copy names h.inputs ++ c.copy (h.below names) (i :: is) := by
  obtain ⟨io, start, text⟩ := h
  cases start with
  | none => exact Configuration.copy_text_before text hi
  | some tag =>
    have hcons : ∀ is, c.copy names (.opening tag.1 tag.2 :: is) =
        [Output.Event.opening tag.1 tag.2].filter c.passThrough.passes ++
          c.copy (tag.1 :: names) is := fun _ => Configuration.copy_cons rfl
    change c.copy names (.opening tag.1 tag.2 :: .characters text :: i :: is) =
      c.copy names [.opening tag.1 tag.2, .characters text] ++ c.copy (tag.1 :: names) (i :: is)
    rw [hcons, hcons, Configuration.copy_text_before text hi, List.append_assoc]

theorem copy_characters (h : HeldBack) (c : Configuration) (names : List QName) (t : String)
    (is : List Input) : c.copy names (h.inputs ++ .characters t :: is) =
      c.copy names ({ h with text := h.text ++ t }.inputs ++ is) := by
  obtain ⟨io, start, text⟩ := h
  cases start with
  | none => exact Configuration.copy_characters text t
  | some tag =>
    have hcons : ∀ is, c.copy names (.opening tag.1 tag.2 :: is) =
        [Output.Event.opening tag.1 tag.2].filter c.passThrough.passes ++
          c.copy (tag.1 :: names) is := fun _ => Configuration.copy_cons rfl
    change c.copy names (.opening tag.1 tag.2 :: .characters text :: .characters t :: is) =
      c.copy names (.opening tag.1 tag.2 :: .characters (text ++ t) :: is)
    rw [hcons, hcons, Configuration.copy_characters]

end HeldBack

def State.heldBack (s : State) : HeldBack := ⟨s.inputOpen, s.pendingStart, s.pendingText⟩

/-- Below elements that are open the events that were to be copied are written. -/
structure Copying (env : Environment) (held : HeldBack) (names : List QName)
    (out : List Output.Event) (s : State) : Prop where
  running : s.status = .running
  unskipped : s.skipDepth = 0
  heldBack : s.heldBack = held
  descended : Descended env.configuration.passThrough names s.nodes
  outlet : s.outlet.Holds (if env.configuration.passThrough.copiesMarkup then names else []) out

/-- A node is open above those in a state with a property. -/
def Above (n : OpenNode) (P : State → Prop) (s : State) : Prop :=
  ∃ ns, s.nodes = n :: ns ∧ P { s with nodes := ns }

/-- Nobody is parked at a node, and nobody waits for its children. -/
def OpenNode.Bare (n : OpenNode) : Prop := n.activations = [] ∧ n.waits = []

/-- A node without children as output. -/
def Content.leaf? : Content → Option Output.Event
  | .text s => some (.characters s)
  | .comment s => some (.comment s)
  | .instruction target data => some (.instruction target data)
  | .root | .element .. | .attr .. => none

namespace Copying

open Operation

variable {env : Environment} {held : HeldBack} {names : List QName} {out : List Output.Event}
  {s : State} {n : OpenNode}

theorem noted (h : Copying env held names out s) (note : Note) :
    Copying env held names out (s.after (.noted note)) :=
  ⟨h.running, h.unskipped, h.heldBack, h.descended, h.outlet.noted note⟩

theorem exists_top (h : Copying env held names out s) :
    ∃ n ns owed, s.nodes = n :: ns ∧ n.Awaits owed := by
  have hd := h.descended
  generalize s.nodes = ns at hd
  cases hd with
  | root hn => exact ⟨_, _, _, rfl, hn⟩
  | element hn _ => exact ⟨_, _, _, rfl, hn⟩

/-- A node at which nobody is parked leaves the stack. -/
theorem unwound {mode : Closing} {P : State → Prop} (hn : n.Bare) (hs : Above n P s)
    (hnoted : ∀ s note, P s → P (s.after (.noted note))) :
    Completes env 1 [.unwind mode] s P := by
  obtain ⟨ns, hns, hs⟩ := hs
  refine .task ?_
  simp only [Task.perform, Operation.unwind, popNode, ensures_bind, ensures_get, hns, hn.1,
    ensures_set, ensures_pure, List.isEmpty_nil, Bool.not_true, Bool.false_and]
  split
  · exact .nil (hnoted _ _ hs)
  · exact .nil hs

/-- At the end of a node the built-in rule goes on with what it owes. -/
theorem resumed {mode : Closing} {ns : List OpenNode} (hns : s.nodes = n :: ns)
    {owed : Option QName} (hn : n.Awaits owed) {k : Nat} {P : State → Prop}
    (hk : (match owed with
        | some name => emit env (.closing name) none
        | none => pure ()).Ensures
      { s with nodes := { n with children := none, activations := [] } :: ns }
      (fun _ s' => Completes env k [.unwind mode] s' P) fun _ _ => False) :
    Completes env (k + 1 + 1) [.close mode] s P := by
  obtain ⟨a, hactivations, hrole, hphase⟩ := hn.activation
  have houtlives : outlives mode a = false := by
    simp [outlives, Activation.siblingRequest?, hphase]
  refine .task ?_
  simp only [Task.perform, Operation.close, ensures_bind, ensures_get, hns, hn.waits, ensures_pure]
  refine .task ?_
  simp only [Task.perform, Operation.unwind, ensures_bind, ensures_get, hns, hactivations,
    houtlives, Bool.false_eq_true, if_false]
  rw [ensures_modifyCurrent hns, resume, hrole]
  simp only [ensures_pure]
  cases owed with
  | none => exact hk
  | some name =>
    rw [ensures_bind]
    exact hk

theorem closed {mode : Closing} (hn : n.Bare) (hs : Above n (Copying env held names out) s) :
    Completes env 2 [.close mode] s (Copying env held names out) := by
  refine .task ?_
  obtain ⟨ns, hns, -⟩ := id hs
  simp only [Task.perform, Operation.close, ensures_bind, ensures_get, hns, hn.2, ensures_pure]
  exact unwound hn hs fun _ _ hs' => hs'.noted _

/-- A node is offered below one that waits for its children. -/
theorem met (h : Copying env held names out s) (c : Content) (hasChildren : Bool) {k : Nat}
    {P : State → Prop}
    (hk : ∀ (n : OpenNode) s', n.Bare → n.event.content = c →
      Above n (Copying env held names out) s' →
      Completes env k (.dispatch ⟨Program.rootGroup, []⟩ [] hasChildren ::
        if c.isElement then [] else [.close .sibling]) s' P) :
    Completes env (k + 1 + 1) [.meet c hasChildren] s P := by
  obtain ⟨n, ns, owed, hns, hn⟩ := h.exists_top
  refine .task ?_
  simp only [Task.perform, Operation.meet, ensures_bind, ensures_get, h.unskipped, hns, newEvent,
    Nat.lt_irrefl, if_false, ensures_modifyGet]
  rw [ensures_modifyCurrent rfl, ensures_pure]
  have hd := (hns ▸ h.descended).tallied (Event.register n.tally (Event.met s.serial c)).1
  refine .task ?_
  simp only [Task.perform, Operation.offer]
  rw [ensures_bind, ensures_current rfl]
  simp only [hn.waits, hn.children, openChild, enterNode, ensures_bind, ensures_modify,
    ensures_get, ensures_note, ensures_pure]
  change Completes env k (_ ++ []) _ P
  rw [List.append_nil]
  rw [hn.waits, hn.children] at hd
  exact hk (.fresh _) _ ⟨rfl, rfl⟩ rfl
    ⟨_, rfl, h.running, rfl, h.heldBack, hd, h.outlet.noted _⟩

section
variable (hp : env.program = Script.bareProgram)
  (ha : ∀ r e, env.surroundings.sink .main r e = none)

/-- Without templates the built-in rule applies. -/
theorem ensures_dispatch (hp : env.program = Script.bareProgram) {hasChildren : Bool}
    {ok : List Task → State → Prop} {failed : Fault → State → Prop} :
    (dispatch env ⟨Program.rootGroup, []⟩ [] hasChildren).Ensures s ok failed ↔
      (builtIn env ⟨Program.rootGroup, []⟩ hasChildren).Ensures s (fun _ => ok []) failed := by
  have hsearch : s.searchTemplates env.program Program.rootGroup [] hasChildren = ⟨none, []⟩ := by
    rw [hp]
    rfl
  simp only [dispatch, selectTemplate, ensures_bind, ensures_get, hsearch, ensures_pure]
  rfl

/-- The built-in rule waits for the children of a node. -/
theorem parked {ns : List OpenNode} (hns : s.nodes = n :: ns) (hn : n.Bare) (owed : Option QName)
    (depth : Nat) (hasChildren : Bool) :
    (parkForChildren (.start (.builtIn owed) depth 1 hasChildren [])
      ⟨Program.rootGroup, []⟩).Ensures s
      (fun _ s' => ∃ n', s' = { s with nodes := n' :: ns } ∧ n'.Awaits owed)
      fun _ _ => False := by
  rw [parkForChildren, ensures_modifyCurrent hns]
  exact ⟨_, rfl, hn.2, rfl, _, by rw [hn.1], rfl, rfl⟩

include ha

/-- A leaf is copied or not. -/
theorem emitted {e : Output.Event} (he : e.isPlain) {copies : Bool}
    (hcopies : env.configuration.passThrough.passes e = copies)
    (hs : Above n (Copying env held names out) s) :
    (if copies then emit env e none else pure ()).Ensures s
      (fun _ s' => Above n (Copying env held names
        (out ++ [e].filter env.configuration.passThrough.passes)) s') fun _ _ => False := by
  obtain ⟨ns, hns, h⟩ := hs
  cases copies with
  | false =>
    rw [List.filter_cons_of_neg (by simp [hcopies]), List.filter_nil, List.append_nil]
    exact ⟨ns, hns, h⟩
  | true =>
    rw [List.filter_cons_of_pos hcopies, List.filter_nil]
    have hout := h.outlet.noted (.emit e)
    refine (ensures_emit_of (s := s) (hout.emit_plain ha he)).mono ?_ fun _ _ h => h
    rintro - s' ⟨o, rfl, ho⟩
    exact ⟨ns, hns, h.running, h.unskipped, h.heldBack, h.descended, ho⟩

/-- An element ends: its end tag is written if its start tag was. -/
theorem left {name : QName} (h : Copying env held (name :: names) out s) :
    Completes env 4 [.leave] s (Copying env held names
      (out ++ [.closing name].filter env.configuration.passThrough.passes)) := by
  have hd := h.descended
  generalize hns : s.nodes = ns at hd
  cases hd with
  | @element n _ _ ns hn hd =>
    have hmarkup : env.configuration.passThrough.passes (.closing name) =
        env.configuration.passThrough.copiesMarkup := by
      cases env.configuration.passThrough <;> rfl
    refine .task ?_
    simp only [Task.perform, Operation.leave, ensures_bind, ensures_get, h.unskipped,
      Nat.lt_irrefl, if_false, ensures_pure]
    let n' : OpenNode := { n with children := none, activations := [] }
    have hbare : n'.Bare := ⟨rfl, hn.waits⟩
    have hout := h.outlet
    by_cases hcopies : env.configuration.passThrough.copiesMarkup
    · rw [if_pos hcopies] at hn hout
      refine resumed hns hn ?_
      rw [List.filter_cons_of_pos (hmarkup.trans hcopies), List.filter_nil]
      refine (ensures_emit_of (s := { s with nodes := n' :: ns })
        ((hout.noted _).emit_closing ha)).mono ?_ fun _ _ h => h
      rintro - s' ⟨o, rfl, ho⟩
      refine unwound hbare ⟨ns, rfl, ?_⟩ fun _ _ hs => hs.noted _
      exact ⟨h.running, h.unskipped, h.heldBack, hd, by rwa [if_pos hcopies]⟩
    · rw [if_neg hcopies] at hn hout
      refine resumed hns hn ?_
      rw [List.filter_cons_of_neg (by simp [hmarkup, hcopies]), List.filter_nil, List.append_nil]
      refine unwound hbare ⟨ns, rfl, ?_⟩ fun _ _ hs => Copying.noted hs _
      exact ⟨h.running, h.unskipped, h.heldBack, hd, by rwa [if_neg hcopies]⟩

include hp

/-- A node without children is copied, or not, and closed again. -/
theorem leaf (h : Copying env held names out s) {c : Content} {e : Output.Event}
    (hc : c.leaf? = some e) :
    Completes env 5 [.meet c false] s (Copying env held names
      (out ++ [e].filter env.configuration.passThrough.passes)) := by
  refine h.met c false fun n s' hn hcontent hs => ?_
  obtain ⟨ns, hns, -⟩ := id hs
  have hbuiltIn : (builtIn env ⟨Program.rootGroup, []⟩ false).Ensures s'
      (fun _ s'' => Above n (Copying env held names
        (out ++ [e].filter env.configuration.passThrough.passes)) s'') fun _ _ => False := by
    unfold builtIn
    rw [ensures_bind, ensures_current hns]
    simp only [hcontent]
    cases c <;> cases hc
    all_goals
      refine emitted ha rfl ?_ hs
      cases env.configuration.passThrough <;> rfl
  have helement : c.isElement = false := by cases c <;> first | rfl | cases hc
  rw [if_neg (by simp [helement])]
  refine .task ?_
  rw [Task.perform, ensures_dispatch hp]
  exact hbuiltIn.mono (fun _ _ hs' => closed hn hs') fun _ _ h => h

/-- An element is copied, or not, and waits for its children. -/
theorem element (h : Copying env held names out s) (name : QName) (attributes : List Attribute)
    (hasChildren : Bool) :
    Completes env 3 [.meet (.element name attributes) hasChildren] s
      (Copying env held (name :: names)
        (out ++ [.opening name attributes].filter env.configuration.passThrough.passes)) := by
  refine h.met _ hasChildren fun n s' hn hcontent hs => ?_
  obtain ⟨ns, hns, hs⟩ := hs
  refine .task ?_
  rw [Task.perform, ensures_dispatch hp]
  unfold builtIn
  rw [ensures_bind, ensures_current hns]
  simp only [hcontent]
  have hmarkup : env.configuration.passThrough.passes (.opening name attributes) =
      env.configuration.passThrough.copiesMarkup := by
    cases env.configuration.passThrough <;> rfl
  split
  · rename_i hcopies
    rw [List.filter_cons_of_pos (hmarkup.trans hcopies), List.filter_nil, ensures_bind]
    have hout : s'.outlet.Holds names out := by
      have hout := hs.outlet
      rwa [if_pos hcopies] at hout
    refine (ensures_emit_of (s := s') ((hout.noted _).emit_opening ha name attributes)).mono ?_
      fun _ _ h => h
    rintro - s₁ ⟨o, rfl, ho⟩
    rw [ensures_bind, ensures_get]
    refine (parked (s := { s' with outlet := o }) hns hn (some name) _ hasChildren).mono ?_
      fun _ _ h => h
    rintro - s₂ ⟨n', rfl, hn'⟩
    refine .nil ⟨hs.running, hs.unskipped, hs.heldBack, .element ?_ hs.descended, ?_⟩
    · rwa [if_pos hcopies]
    · rwa [if_pos hcopies]
  · rename_i hcopies
    rw [List.filter_cons_of_neg (by simp [hmarkup, hcopies]), List.filter_nil, List.append_nil]
    rw [ensures_bind, ensures_get]
    refine (parked hns hn none _ hasChildren).mono ?_ fun _ _ h => h
    rintro - s'' ⟨n', rfl, hn'⟩
    refine .nil ⟨hs.running, hs.unskipped, hs.heldBack, .element ?_ hs.descended, ?_⟩
    · rwa [if_neg hcopies]
    · have hout := hs.outlet
      rwa [if_neg hcopies] at hout ⊢

/-- A start tag and a text after it are met, if they are there. -/
theorem held_met (h : Copying env held names out s) (start : Option (QName × List Attribute))
    (text : Option String) (hasChildren : Bool) :
    Completes env 8 ((match start with
        | some (n, as) => [.meet (.element n as) hasChildren]
        | none => []) ++
      match text with
        | some t => [.meet (.text t) false]
        | none => []) s
      (Copying env held (start.toList.map Prod.fst ++ names)
        (out ++ ((start.toList.map fun tag => .opening tag.1 tag.2).filter
          env.configuration.passThrough.passes ++
          (text.toList.map .characters).filter env.configuration.passThrough.passes))) := by
  have hstart : Completes env 3 (match start with
      | some (n, as) => [.meet (.element n as) hasChildren]
      | none => []) s
      (Copying env held (start.toList.map Prod.fst ++ names)
        (out ++ (start.toList.map fun tag => .opening tag.1 tag.2).filter
          env.configuration.passThrough.passes)) := by
    cases start with
    | none =>
      simp only [Option.toList_none, List.map_nil, List.filter_nil, List.append_nil]
      exact (Completes.nil h).mono (Nat.zero_le 3) fun _ hs => hs
    | some tag => exact h.element hp ha tag.1 tag.2 hasChildren
  rw [← List.append_assoc]
  refine hstart.append (l := 5) _ fun s' hs' => ?_
  cases text with
  | none =>
    simp only [Option.toList_none, List.map_nil, List.filter_nil, List.append_nil]
    exact (Completes.nil hs').mono (Nat.zero_le 5) fun _ hs => hs
  | some t => exact hs'.leaf hp ha rfl

/-- What is held back is copied. -/
theorem flushed (h : Copying env held names out s) (closing : Bool) :
    Completes env 9 [.flush closing] s (Copying env ⟨held.inputOpen, none, ""⟩ (held.below names)
      (out ++ env.configuration.copy names held.inputs)) := by
  rw [held.copy_inputs, Configuration.copy_text]
  obtain ⟨io, start, text⟩ := held
  obtain ⟨hio, hstart, htext⟩ := HeldBack.mk.inj h.heldBack
  have hs : Copying env ⟨io, none, ""⟩ names out
      { s with pendingStart := none, pendingText := "" } :=
    ⟨h.running, h.unskipped, by rw [← hio]; rfl, h.descended, h.outlet⟩
  have go := fun taken => hs.held_met hp ha start taken (taken.isSome || !closing)
  refine .task ?_
  simp only [Task.perform, Operation.flush, takeText, ensures_bind, ensures_get, ensures_modify,
    ensures_pure, htext, hstart, List.append_nil]
  cases hcount : text.isEmpty || env.configuration.stripSpace && text.toList.all Text.isXmlSpace with
  | true =>
    have hcounts : Input.counts env.configuration (.characters text) = false := by
      simp [Input.counts, hcount]
    simp only [hcounts]
    exact go none
  | false =>
    have hcounts : Input.counts env.configuration (.characters text) = true := by
      simp [Input.counts, hcount]
    simp only [hcounts]
    exact go (some text)

end

end Copying

/-! ## Calls -/

/-- What was copied, what is held back and what is to come make up the whole. -/
def Due (env : Environment) (is : List Input) (total : List Output.Event) (s : State) : Prop :=
  ∃ held names out, Copying env held names out s ∧ held.inputOpen = held.below names ∧
    Input.Balanced held.inputOpen is ∧
    out ++ env.configuration.copy names (held.inputs ++ is) = total

namespace Due

open Operation

variable {env : Environment} {i : Input} {is : List Input} {total : List Output.Event} {s : State}

/-- With nothing held back the rest is to be copied. -/
theorem of_copying {names : List QName} {out : List Output.Event}
    (h : Copying env ⟨names, none, ""⟩ names out s) (hb : Input.Balanced names is)
    (htotal : out ++ env.configuration.copy names is = total) : Due env is total s :=
  ⟨_, names, out, h, rfl, hb, htotal ▸ congrArg (out ++ ·) Configuration.copy_empty⟩

variable (hp : env.program = Script.bareProgram)
  (ha : ∀ r e, env.surroundings.sink .main r e = none)
include hp ha

/-- Before anything but text what is held back is copied. -/
theorem flushed (hi : i.isText = false) (h : Due env (i :: is) total s) :
    ∃ names out, Input.Balanced names (i :: is) ∧
      out ++ env.configuration.copy names (i :: is) = total ∧
      Completes env 9 [.flush false] s (Copying env ⟨names, none, ""⟩ names out) := by
  obtain ⟨held, names, out, hs, hopen, hb, htotal⟩ := h
  rw [held.copy_before _ _ hi, ← List.append_assoc, ← hopen] at htotal
  have hflush := hs.flushed hp ha false
  rw [← hopen] at hflush
  exact ⟨held.inputOpen, _, hb, htotal, hflush⟩

/-- A call does its part. -/
theorem call (h : Due env (i :: is) total s) :
    Completes env 14 i.tasks (i.apply s) (Due env is total) := by
  cases i with
  | characters t =>
    obtain ⟨held, names, out, hs, hopen, hb, htotal⟩ := h
    rw [held.copy_characters] at htotal
    refine (Completes.nil ⟨{ held with text := held.text ++ t }, names, out, ?_, hopen, hb,
      htotal⟩).mono (Nat.zero_le 14) fun _ hs => hs
    refine ⟨hs.running, hs.unskipped, ?_, hs.descended, hs.outlet⟩
    rw [← hs.heldBack]
    rfl
  | comment t =>
    obtain ⟨names, out, hb, htotal, hflush⟩ := h.flushed hp ha rfl
    rw [Configuration.copy_cons rfl, ← List.append_assoc] at htotal
    exact hflush.append _ fun _ hs => (hs.leaf hp ha (c := .comment t) rfl).mono (Nat.le_refl 5)
      fun _ hs' => of_copying hs' hb htotal
  | instruction t d =>
    obtain ⟨names, out, hb, htotal, hflush⟩ := h.flushed hp ha rfl
    rw [Configuration.copy_cons rfl, ← List.append_assoc] at htotal
    exact hflush.append _ fun _ hs => (hs.leaf hp ha (c := .instruction t d) rfl).mono
      (Nat.le_refl 5) fun _ hs' => of_copying hs' hb htotal
  | opening n as =>
    obtain ⟨names, out, hb, htotal, hflush⟩ := h.flushed hp ha rfl
    refine (hflush.append (l := 1) [.hold n as] fun s' hs => .task ?_).mono
      (by decide) fun _ hs => hs
    simp only [Task.perform, Operation.hold, ensures_bind, ensures_modify, ensures_pure]
    refine .nil ⟨⟨n :: names, some (n, as), ""⟩, names, out, ?_, rfl, hb, ?_⟩
    · obtain ⟨hopen, -, htext⟩ := HeldBack.mk.inj hs.heldBack
      refine ⟨hs.running, hs.unskipped, ?_, hs.descended, hs.outlet⟩
      change HeldBack.mk (n :: s'.inputOpen) (some (n, as)) s'.pendingText = _
      rw [hopen, htext]
    · rw [← htotal, Configuration.copy_cons rfl]
      change out ++ env.configuration.copy names (.opening n as :: .characters "" :: is) = _
      rw [Configuration.copy_cons rfl, Configuration.copy_empty]
  | closing m =>
    obtain ⟨held, names, out, hs, hopen, hb, htotal⟩ := h
    obtain ⟨n, rest, hn, hsame, hb⟩ := hb
    obtain ⟨hinput, hstart, htext⟩ := HeldBack.mk.inj (hs.heldBack.trans (rfl : held = ⟨_, _, _⟩))
    rw [hn] at hinput
    have hs' : Copying env ⟨rest, held.start, held.text⟩ names out { s with inputOpen := rest } :=
      ⟨hs.running, hs.unskipped, by rw [← hstart, ← htext]; rfl, hs.descended, hs.outlet⟩
    have hbelow : HeldBack.below ⟨rest, held.start, held.text⟩ names = n :: rest :=
      hopen.symm.trans hn
    rw [held.copy_before _ _ rfl, ← List.append_assoc, ← hopen, hn, Configuration.copy_cons rfl,
      ← List.append_assoc] at htotal
    refine .task (k := 13) ?_
    simp only [Task.perform, Operation.checkEnd, ensures_bind, ensures_get, Input.apply, hinput,
      ensures_modify, hsame, if_true, ensures_pure]
    have hflush := hs'.flushed hp ha true
    rw [hbelow] at hflush
    exact hflush.append _ fun _ hs => (hs.left ha).mono (Nat.le_refl 4) fun _ hs' =>
      of_copying hs' hb htotal
  | _ =>
    obtain ⟨held, names, out, hs, hopen, hb, htotal⟩ := h
    exact hb.elim

/-- The end of the document does the rest. -/
theorem conclude (h : Due env [] total s) :
    Completes env 14 [.conclude] s fun s' => s'.record.taken .main = total ++ [.endDocument] := by
  obtain ⟨held, names, out, hs, hopen, hb, htotal⟩ := h
  have hempty : held.inputOpen = [] := hb
  have hbelow : held.below names = [] := hopen.symm.trans hempty
  obtain ⟨hinput, -, -⟩ := HeldBack.mk.inj (hs.heldBack.trans (rfl : held = ⟨_, _, _⟩))
  rw [hempty] at hinput
  rw [List.append_nil] at htotal
  refine Completes.task (k := 13) ?_
  simp only [Task.perform, concludeInput, ensures_bind, ensures_get, hinput, ensures_pure]
  have hflush := hs.flushed hp ha false
  rw [hbelow, htotal] at hflush
  refine hflush.append (l := 4) [.close .final, .endOutput] fun s₁ hs₁ => ?_
  have hd := hs₁.descended
  generalize hns : s₁.nodes = ns at hd
  cases hd with
  | @root n hn =>
    have hclose : Completes env 3 [.close .final] s₁ fun s' => s'.outlet.Holds [] total := by
      let n' : OpenNode := { n with children := none, activations := [] }
      have hbare : n'.Bare := ⟨rfl, hn.waits⟩
      have hout := hs₁.outlet
      rw [ite_self] at hout
      refine Copying.resumed hns hn ?_
      exact Copying.unwound hbare ⟨[], rfl, hout⟩ fun _ _ ho => Outlet.Holds.noted ho _
    refine hclose.append (l := 1) _ fun s₂ ho => .task ?_
    simp only [Task.perform, Operation.endOutput, ensures_bind]
    refine (ensures_emit_of ((ho.noted _).emit_endDocument ha)).mono ?_ fun _ _ h => h
    rintro - s₃ ⟨o, rfl, htaken⟩
    exact .nil ((Record.taken_noted _ _ _).trans htaken)

omit ha in
/-- Below the root the built-in rule waits from the start. -/
theorem rooted {n : OpenNode} {out : List Output.Event} (hns : s.nodes = [n]) (hn : n.Bare)
    (hcontent : n.event.content = .root) (hrunning : s.status = .running)
    (hskip : s.skipDepth = 0) (hheld : s.heldBack = ⟨[], none, ""⟩)
    (hout : s.outlet.Holds [] out) :
    Completes env 2 [.enterGroup Program.rootGroup,
      .dispatch ⟨Program.rootGroup, []⟩ [] true] s (Copying env ⟨[], none, ""⟩ [] out) := by
  have hinitialiser : (env.program.group Program.rootGroup).initialiser = none := by
    rw [hp]
    rfl
  let s₁ : State := { s with frames := s.frames.push Program.rootGroup }
  have hns₁ : s₁.nodes = [n] := hns
  refine .task ?_
  simp only [Task.perform, Operation.enterGroup, ensures_bind, ensures_modify, hinitialiser,
    ensures_pure]
  refine .task ?_
  rw [Task.perform, Copying.ensures_dispatch hp]
  unfold builtIn
  rw [ensures_bind, ensures_current hns₁]
  simp only [hcontent]
  rw [ensures_bind, ensures_get]
  refine (Copying.parked hns₁ hn none _ true).mono ?_ fun _ _ h => h
  rintro - s' ⟨n', rfl, hn'⟩
  refine .nil ⟨hrunning, hskip, hheld, .root hn', ?_⟩
  rwa [ite_self]

/-- The start of the document makes the copy of the rest due. -/
theorem begin (hb : Input.Balanced [] is) :
    Completes env 3 [.begin] { State.initial env.program with status := .running }
      (Due env is (.startDocument :: env.configuration.copy [] is)) := by
  let s : State := { State.initial env.program with status := .running }
  have hout : s.outlet.Holds [] [] := ⟨_, rfl, rfl, rfl, rfl⟩
  refine .task ?_
  simp only [Task.perform, Operation.begin, ensures_bind, ensures_note]
  refine (ensures_emit_of (s := s.after (.noted .startDocument))
    (((hout.noted _).noted _).emit_startDocument ha)).mono ?_ fun _ _ h => h
  rintro - s₁ ⟨o, rfl, ho⟩
  simp only [newEvent, enterNode, ensures_modifyGet, ensures_bind, ensures_modify, ensures_get,
    ensures_note, ensures_pure, hp]
  refine (rooted hp rfl ⟨rfl, rfl⟩ rfl rfl rfl rfl (ho.noted _)).mono (Nat.le_refl 2) ?_
  exact fun _ hs => of_copying hs hb rfl

/-- One call after the other does its part. -/
theorem calls {fuel : Nat} (hf : 14 ≤ fuel) (h : Due env is total s) :
    ∃ s', s.receiveAll env fuel is = (.completed, s') ∧ Due env [] total s' := by
  induction is generalizing s with
  | nil => exact ⟨s, rfl, h⟩
  | cons i is ih =>
    have hcall := h.call hp ha
    obtain ⟨held, names, out, hs, -, hb, -⟩ := h
    have haccepted : i.refusal? s.status = none := by
      rw [hs.running]
      cases i <;> first | rfl | exact hb.elim
    obtain ⟨s₁, hreceive, hs₁⟩ := hcall.receive haccepted hf
    have hstatus : i.statusAfter s₁ .completed = s₁.status := by
      cases i <;> first | rfl | exact hb.elim
    rw [hstatus] at hreceive
    obtain ⟨s', hrest, hs'⟩ := ih hs₁
    refine ⟨s', ?_, hs'⟩
    rw [State.receiveAll, hreceive]
    exact hrest

/-- All calls for a document do their part, the end of the document too. -/
theorem document {fuel : Nat} (hf : 14 ≤ fuel) (hb : Input.Balanced [] is) : ∃ s s',
    (State.initial env.program).receiveAll env fuel (.startDocument :: is) = (.completed, s) ∧
      s.receive env fuel .endDocument = (.completed, s') ∧ s'.record.taken .main =
        .startDocument :: env.configuration.copy [] is ++ [.endDocument] := by
  obtain ⟨s₁, hstart, hdue⟩ := Completes.receive (i := .startDocument) rfl
    (Due.begin hp ha hb) (Nat.le_trans (by decide) hf)
  obtain ⟨s₂, hcalls, hdone⟩ := hdue.calls hp ha hf
  have hrunning : s₂.status = .running := by
    obtain ⟨held, names, out, hs, -⟩ := hdone
    exact hs.running
  obtain ⟨s₃, hend, htaken⟩ := Completes.receive (i := .endDocument) (by rw [hrunning]; rfl)
    (hdone.conclude hp ha) hf
  refine ⟨s₂, { s₃ with status := .finished }, ?_, hend, htaken⟩
  rw [State.receiveAll, hstart]
  exact hcalls

end Due

/-- Where nothing is declared the main output gets the copy of the document, whatever the listener
and the resolver are. -/
theorem built_in_rules_copy {env : Environment} {is : List Input} {fuel : Nat}
    (h : Script.build [] = .ok env.program)
    (ha : ∀ r e, env.surroundings.sink .main r e = none) (hb : Input.Balanced [] is)
    (hf : 14 ≤ fuel) :
    ∃ s, (State.initial env.program).receiveAll env fuel (.startDocument :: is ++ [.endDocument]) =
        (.completed, s) ∧
      s.record.taken .main =
        .startDocument :: env.configuration.copy [] is ++ [.endDocument] := by
  have hp : env.program = Script.bareProgram := (Except.ok.inj (Script.build_nil.symm.trans h)).symm
  obtain ⟨s, s', hcalls, hend, htaken⟩ := Due.document hp ha hf hb
  refine ⟨s', ?_, htaken⟩
  rw [State.receiveAll_append hcalls, State.receiveAll, hend]
  rfl

/-- Only text is let through, without what is white space alone. -/
def stripping : Environment :=
  ⟨Script.bareProgram, { passThrough := .text, stripSpace := true }, .plain fun _ => none⟩

theorem built_in_rules_copy_stripping : ∃ s,
    (State.initial stripping.program).receiveAll stripping 14
      (.startDocument :: [.opening (.simple "a") [], .characters " ", .closing (.simple "a"),
        .characters "b", .characters "c"] ++ [.endDocument]) = (.completed, s) ∧
    s.record.taken .main = [.startDocument, .characters "bc", .endDocument] := by
  have haccepting : ∀ r e, stripping.surroundings.sink .main r e = none := fun _ _ => rfl
  have hbalanced : Input.Balanced [] [.opening (.simple "a") [], .characters " ",
      .closing (.simple "a"), .characters "b", .characters "c"] :=
    ⟨.simple "a", [], rfl, by decide, rfl⟩
  obtain ⟨s, hrun, htaken⟩ := built_in_rules_copy Script.build_nil haccepting hbalanced
    (Nat.le_refl 14)
  exact ⟨s, hrun, htaken.trans rfl⟩

end StreamTransform
