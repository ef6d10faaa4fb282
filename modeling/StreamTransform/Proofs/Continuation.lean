import StreamTransform.Proofs.Turn

/-!
# What is under way

The activations that have not ended form one stack. Those on the agenda run or
are about to; the others are parked at the open nodes. `live` puts both in the
order in which they go on, and `Orderly` is the shape of an agenda that keeps to
this order: nothing is parked above an activation that the agenda still runs,
and no node with waiters among its closed children is worked on.
-/

namespace StreamTransform

/-- The parked activations of a node, the one to go on first at the head. -/
def OpenNode.parked (n : OpenNode) : List Activation :=
  n.waits.flatMap SiblingWait.activations ++ n.activations

/-- All parked activations, the one to go on first at the head: from the current node to the root,
at each node those among its closed children before its own. -/
def State.parked (s : State) : List Activation := s.nodes.flatMap OpenNode.parked

/-- An activation that has not ended, and the events from its node up to the root. -/
structure Entry where
  activation : Activation
  path : List Event

/-- The entries parked at a node below others. -/
def OpenNode.entries (n : OpenNode) (above : List OpenNode) : List Entry :=
  n.waits.flatMap (fun w =>
      w.activations.map (⟨·, w.event :: n.event :: above.map OpenNode.event⟩)) ++
    n.activations.map (⟨·, n.event :: above.map OpenNode.event⟩)

def parkedEntries : List OpenNode → List Entry
  | [] => []
  | n :: ns => n.entries ns ++ parkedEntries ns

/-- Every activation under way, in the order in which they go on: an activation of the agenda
stands above those parked at the nodes that are then open. -/
def live : List Task → List OpenNode → List Entry
  | [], ns => parkedEntries ns
  | .run a :: ts, ns => ⟨a, ns.map OpenNode.event⟩ :: live ts ns
  | .close _ :: ts, n :: ns | .unwind _ :: ts, n :: ns => n.entries ns ++ live ts ns
  | _ :: ts, ns => live ts ns

/-- No closed child of the current node left anybody waiting. -/
def Clear (ns : List OpenNode) : Prop := ∀ n r, ns = n :: r → n.waits = []

/-- Agendas on which no activation runs and no node below the current one is worked on. -/
inductive Outer : List Task → Prop
  | nil : Outer []
  | begin : Outer [.begin]
  | conclude : Outer [.conclude]
  | final : Outer [.close .final, .endOutput]
  | endOutput : Outer [.endOutput]
  | checkEnd (n : QName) : Outer [.checkEnd n, .flush true, .leave]
  | leave : Outer [.leave]
  | hold (n : QName) (as : List Attribute) : Outer [.hold n as]
  | flush (closing : Bool) {ts : List Task} : Outer ts → Outer (.flush closing :: ts)
  | meet (c : Content) (hasChildren : Bool) {ts : List Task} : Outer ts →
      Outer (.meet c hasChildren :: ts)

/-- What is held back stays on the level of the input when it is met. -/
theorem Outer.flushed {env : Environment} {ts : List Task} (h : Outer ts) (x : State)
    (closing : Bool) : Outer ((x.pendingStart.map fun p =>
        Task.meet (.element p.1 p.2) ((x.heldText env).isSome || !closing)).toList ++
      ((x.heldText env).map fun t => Task.meet (.text t) false).toList ++ ts) := by
  have leaf : Outer (((x.heldText env).map fun t => Task.meet (.text t) false).toList ++ ts) := by
    cases x.heldText env with
    | none => exact h
    | some t => exact .meet _ _ h
  rw [List.append_assoc]
  cases x.pendingStart with
  | none => exact leaf
  | some p => exact .meet _ _ leaf

/-- Tasks on the level of the input. -/
def Task.isOuter : Task → Bool
  | .begin | .conclude | .endOutput | .checkEnd _ | .leave | .hold .. | .flush _ | .meet .. => true
  | .offer .. | .dispatch .. | .enterGroup _ | .run _ | .attributes .. | .selfDone _ | .close _
  | .unwind _ => false

/-- `Orderly running ts ns`: the agenda can be worked off with these nodes open. Only if `running`
may it begin with an activation that runs; otherwise others may be parked before. -/
inductive Orderly : Bool → List Task → List OpenNode → Prop
  | outer {running : Bool} {ts : List Task} {ns : List OpenNode} : Outer ts → Orderly running ts ns
  | offer {running : Bool} {ts : List Task} {ns : List OpenNode} (e : Event) (hasChildren : Bool) :
      Outer ts → Orderly running (.offer e hasChildren :: ts) ns
  | run {ts : List Task} {ns : List OpenNode} (a : Activation) : Clear ns →
      Orderly a.isInitialiser ts ns → Orderly true (.run a :: ts) ns
  | dispatch {running : Bool} {ts : List Task} {ns : List OpenNode} (h : Handover)
      (exclude : List TemplateId) (hasChildren : Bool) : Clear ns → Orderly false ts ns →
      Orderly running (.dispatch h exclude hasChildren :: ts) ns
  | enterGroup {ts : List Task} {ns : List OpenNode} (g : GroupId) : Clear ns →
      Orderly true ts ns → Orderly true (.enterGroup g :: ts) ns
  | attributes {ts : List Task} {ns : List OpenNode} (as : List (Attribute × Nat)) (h : Handover) :
      Clear ns → Orderly true ts ns → Orderly true (.attributes as h :: ts) ns
  | selfDone {running : Bool} {ts : List Task} {ns : List OpenNode} (below : Nat) : Clear ns →
      Orderly false ts ns → Orderly running (.selfDone below :: ts) ns
  | close {running : Bool} {ts : List Task} {ns : List OpenNode} (mode : Closing) :
      (mode = .sibling → 2 ≤ ns.length ∧ Outer ts) → Orderly true ts ns.tail →
      Orderly running (.close mode :: ts) ns
  | unwind {running : Bool} {ts : List Task} {ns : List OpenNode} (mode : Closing) : Clear ns →
      (mode = .sibling → 2 ≤ ns.length ∧ Outer ts) → Orderly true ts ns.tail →
      Orderly running (.unwind mode :: ts) ns

theorem clear_cons {n : OpenNode} {ns : List OpenNode} : Clear (n :: ns) ↔ n.waits = [] := by
  constructor
  · exact fun h => h n ns rfl
  · rintro h m r ⟨rfl, rfl⟩
    exact h

/-! ## Entries -/

@[simp] theorem OpenNode.entries_fresh (e : Event) (ns : List OpenNode) :
    (OpenNode.fresh e).entries ns = [] := rfl

/-- What waits among the closed children of a node waits at the child's node when it is open
again. -/
theorem entries_released {n : OpenNode} {w : SiblingWait} {ws : List SiblingWait}
    (h : n.waits = w :: ws) (ns : List OpenNode) :
    (OpenNode.ofWait w).entries ({ n with waits := ws } :: ns) ++
      ({ n with waits := ws } : OpenNode).entries ns = n.entries ns := by
  simp [OpenNode.entries, OpenNode.ofWait, h]

theorem entries_of_clear {n : OpenNode} (h : n.waits = []) (ns : List OpenNode) :
    n.entries ns = n.activations.map (⟨·, n.event :: ns.map OpenNode.event⟩) := by
  simp [OpenNode.entries, h]

/-- The topmost activation of a node, taken off it. -/
theorem entries_resumed {n : OpenNode} {a : Activation} {r : List Activation} (h : n.waits = [])
    (ha : n.activations = a :: r) (ns : List OpenNode) :
    n.entries ns = ⟨a, n.event :: ns.map OpenNode.event⟩ ::
      ({ n with children := none, activations := r } : OpenNode).entries ns := by
  simp [OpenNode.entries, h, ha]

theorem handOn_cons (n p : OpenNode) (r : List OpenNode) :
    handOn n (p :: r) = if n.activations.isEmpty then p :: r
      else { p with waits := ⟨n.event, n.activations⟩ :: p.waits } :: r := rfl

theorem map_event_handOn (n : OpenNode) (ns : List OpenNode) :
    (handOn n ns).map OpenNode.event = ns.map OpenNode.event := by
  cases ns with
  | nil => rfl
  | cons p r => rw [handOn_cons]; split <;> rfl

theorem handOn_of_nil {n : OpenNode} (h : n.activations = []) (ns : List OpenNode) :
    handOn n ns = ns := by
  cases ns <;> simp [handOn, h]

theorem length_handOn (n : OpenNode) (ns : List OpenNode) : (handOn n ns).length = ns.length := by
  simpa using congrArg List.length (map_event_handOn n ns)

/-- Closing a node that is not the root loses none of the activations parked there. -/
theorem parkedEntries_handOn {n : OpenNode} {ns : List OpenNode} (hn : n.waits = [])
    (hns : ns ≠ []) : parkedEntries (handOn n ns) = n.entries ns ++ parkedEntries ns := by
  cases ns with
  | nil => exact absurd rfl hns
  | cons p r =>
    rw [entries_of_clear hn]
    rw [handOn_cons]
    split
    · rename_i hnone
      simp [List.isEmpty_iff.mp hnone]
    · simp [parkedEntries, OpenNode.entries]

theorem map_activation_entries (n : OpenNode) (ns : List OpenNode) :
    (n.entries ns).map Entry.activation = n.parked := by
  simp [OpenNode.entries, OpenNode.parked, List.map_flatMap, Function.comp_def]

theorem map_activation_parkedEntries (ns : List OpenNode) :
    (parkedEntries ns).map Entry.activation = ns.flatMap OpenNode.parked := by
  induction ns with
  | nil => rfl
  | cons n ns ih => simp [parkedEntries, map_activation_entries, ih]

/-! ## Live activations -/

section
variable {ts : List Task} {n : OpenNode} {ns : List OpenNode}

@[simp] theorem live_nil : live [] ns = parkedEntries ns := by unfold live; rfl

@[simp] theorem live_run (a : Activation) :
    live (.run a :: ts) ns = ⟨a, ns.map OpenNode.event⟩ :: live ts ns := by
  rw [live]

@[simp] theorem live_close (mode : Closing) :
    live (.close mode :: ts) (n :: ns) = n.entries ns ++ live ts ns := by
  rw [live]

@[simp] theorem live_unwind (mode : Closing) :
    live (.unwind mode :: ts) (n :: ns) = n.entries ns ++ live ts ns := by
  rw [live]

/-- Other tasks neither run an activation nor take a node off the stack. -/
@[simp, reducible] def Task.isLevel : Task → Bool
  | .run _ | .close _ | .unwind _ => false
  | .begin | .conclude | .endOutput | .flush _ | .hold .. | .checkEnd _ | .leave | .meet ..
  | .offer .. | .dispatch .. | .enterGroup _ | .attributes .. | .selfDone _ => true

@[simp] theorem live_level {t : Task} (h : t.isLevel) : live (t :: ts) ns = live ts ns := by
  cases t <;> simp_all [live]

theorem live_outer (h : Outer ts) : live ts ns = parkedEntries ns := by
  induction h with
  | nil => exact live_nil
  | final =>
    cases ns with
    | nil => rfl
    | cons n ns => simp [parkedEntries]
  | flush closing _ ih => simpa using ih
  | meet c hasChildren _ ih => simpa using ih
  | _ => simp

end

/-! ## Orderly agendas -/

section
variable {running : Bool} {ts : List Task} {n n' : OpenNode} {ns : List OpenNode}

theorem Orderly.weaken (h : Orderly false ts ns) : Orderly running ts ns := by
  cases h with
  | outer h => exact .outer h
  | offer e hasChildren h => exact .offer e hasChildren h
  | dispatch g exclude hasChildren hc h => exact .dispatch g exclude hasChildren hc h
  | selfDone below hc h => exact .selfDone below hc h
  | close mode hm h => exact .close mode hm h
  | unwind mode hc hm h => exact .unwind mode hc hm h

theorem Orderly.toRunning {ns : List OpenNode} (h : Orderly running ts ns) :
    Orderly true ts ns := by
  cases running with
  | false => exact h.weaken
  | true => exact h

/-- Only the waiters of the current node matter. -/
theorem Orderly.congr (h : Orderly running ts (n :: ns)) (hw : n'.waits = n.waits) :
    Orderly running ts (n' :: ns) := by
  have clear : Clear (n :: ns) → Clear (n' :: ns) := fun h =>
    clear_cons.mpr (hw.trans (clear_cons.mp h))
  generalize hms : n :: ns = ms at h clear
  induction h with
  | outer h => exact .outer h
  | offer e hasChildren h => exact .offer e hasChildren h
  | run a hc _ ih => exact .run a (clear hc) (ih hms clear)
  | dispatch g exclude hasChildren hc _ ih =>
    exact .dispatch g exclude hasChildren (clear hc) (ih hms clear)
  | enterGroup g hc _ ih => exact .enterGroup g (clear hc) (ih hms clear)
  | attributes as g hc _ ih => exact .attributes as g (clear hc) (ih hms clear)
  | selfDone below hc _ ih => exact .selfDone below (clear hc) (ih hms clear)
  | close mode hm h =>
    subst hms
    exact .close mode hm h
  | unwind mode hc hm h =>
    subst hms
    exact .unwind mode (clear hc) hm h

theorem Orderly.of_close {mode : Closing} {ns : List OpenNode}
    (h : Orderly running (.close mode :: ts) ns) :
    (mode = .sibling → 2 ≤ ns.length ∧ Outer ts) ∧ Orderly true ts ns.tail := by
  cases h with
  | outer h =>
    cases h with
    | final => exact ⟨by simp, .outer .endOutput⟩
  | close mode hm h => exact ⟨hm, h⟩

theorem Orderly.of_run {a : Activation} {ns : List OpenNode}
    (h : Orderly running (.run a :: ts) ns) : Clear ns ∧ Orderly a.isInitialiser ts ns := by
  cases h with
  | outer h => cases h
  | run a hc h => exact ⟨hc, h⟩

theorem Orderly.of_offer {e : Event} {hasChildren : Bool} {ns : List OpenNode}
    (h : Orderly running (.offer e hasChildren :: ts) ns) : Outer ts := by
  cases h with
  | outer h => cases h
  | offer e hasChildren h => exact h

theorem Orderly.of_dispatch {g : Handover} {exclude : List TemplateId} {hasChildren : Bool}
    {ns : List OpenNode} (h : Orderly running (.dispatch g exclude hasChildren :: ts) ns) :
    Clear ns ∧ Orderly false ts ns := by
  cases h with
  | outer h => cases h
  | dispatch g exclude hasChildren hc h => exact ⟨hc, h⟩

theorem Orderly.of_enterGroup {g : GroupId} {ns : List OpenNode}
    (h : Orderly running (.enterGroup g :: ts) ns) : Clear ns ∧ Orderly true ts ns := by
  cases h with
  | outer h => cases h
  | enterGroup g hc h => exact ⟨hc, h⟩

theorem Orderly.of_attributes {as : List (Attribute × Nat)} {g : Handover} {ns : List OpenNode}
    (h : Orderly running (.attributes as g :: ts) ns) : Clear ns ∧ Orderly true ts ns := by
  cases h with
  | outer h => cases h
  | attributes as g hc h => exact ⟨hc, h⟩

theorem Orderly.of_selfDone {below : Nat} {ns : List OpenNode}
    (h : Orderly running (.selfDone below :: ts) ns) : Clear ns ∧ Orderly false ts ns := by
  cases h with
  | outer h => cases h
  | selfDone below hc h => exact ⟨hc, h⟩

theorem Orderly.of_unwind {mode : Closing} {ns : List OpenNode}
    (h : Orderly running (.unwind mode :: ts) ns) :
    Clear ns ∧ (mode = .sibling → 2 ≤ ns.length ∧ Outer ts) ∧ Orderly true ts ns.tail := by
  cases h with
  | outer h => cases h
  | unwind mode hc hm h => exact ⟨hc, hm, h⟩

theorem Orderly.of_input {t : Task} {ns : List OpenNode} (h : Orderly running (t :: ts) ns)
    (ht : t.isOuter) : Outer (t :: ts) := by
  cases h with
  | outer h => exact h
  | _ => simp [Task.isOuter] at ht

/-- An activation that is parked above stands above everything that is under way. -/
theorem live_park (h : Orderly false ts (n :: ns)) (hc : n.waits = []) (a : Activation)
    (hw : n'.waits = []) (he : n'.event = n.event) (ha : n'.activations = a :: n.activations) :
    live ts (n' :: ns) = ⟨a, n.event :: ns.map OpenNode.event⟩ :: live ts (n :: ns) := by
  have parked : n'.entries ns = ⟨a, n.event :: ns.map OpenNode.event⟩ :: n.entries ns := by
    rw [entries_of_clear hw, entries_of_clear hc, ha, he, List.map_cons]
  generalize hr : false = running, hms : n :: ns = ms at h
  induction h with
  | outer h =>
    subst hms
    rw [live_outer h, live_outer h, parkedEntries, parked, parkedEntries, List.cons_append]
  | offer e hasChildren h =>
    subst hms
    simp [live_outer h, parkedEntries, parked]
  | run => simp at hr
  | dispatch g exclude hasChildren _ _ ih =>
    simpa using ih rfl hms
  | enterGroup => simp at hr
  | attributes => simp at hr
  | selfDone below _ _ ih => simpa using ih rfl hms
  | close mode hm h =>
    subst hms
    rw [live_close, live_close, parked, List.cons_append]
  | unwind mode hc hm h =>
    subst hms
    rw [live_unwind, live_unwind, parked, List.cons_append]

end

end StreamTransform
