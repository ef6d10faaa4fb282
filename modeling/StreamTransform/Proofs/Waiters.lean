import StreamTransform.Proofs.Spine
import StreamTransform.Proofs.WorkedOff

/-!
# Waiters for siblings

What is left at a closed node waits at its parent for further children. The
waiters of all open nodes form one stack: a closing node puts its own on top,
and an offer or the end of the parent takes the topmost off and opens their node
again. Nodes that are open for the time being leave the nodes below them as they
were. So a waiter that is resumed has finished before anything else goes on, and
each one is resumed once.
-/

namespace StreamTransform

/-! ## Nodes that are open for the time being -/

/-- Tasks that concern the current node alone. -/
def Task.isNodal : Task → Bool
  | .dispatch .. | .enterGroup _ | .run _ | .attributes .. | .selfDone _ => true
  | _ => false

/-- Tasks that work on these nodes, the first one first, and close them all for good. -/
inductive Within : List Task → List OpenNode → Prop
  | nil : Within [] []
  | nodal {t : Task} {ts : List Task} {n : OpenNode} {ns : List OpenNode} : t.isNodal →
      Within ts (n :: ns) → Within (t :: ts) (n :: ns)
  | close {mode : Closing} {ts : List Task} {n : OpenNode} {ns : List OpenNode} :
      mode ≠ .sibling → Within ts ns → Within (.close mode :: ts) (n :: ns)
  | unwind {mode : Closing} {ts : List Task} {n : OpenNode} {ns : List OpenNode} :
      mode ≠ .sibling → Within ts ns → Within (.unwind mode :: ts) (n :: ns)

section
variable {env : Environment} {t : Task} {ts rest : List Task} {x x' : State} {n n' : OpenNode}
  {ns ms below : List OpenNode}

theorem Within.congr (h : Within ts (n :: ns)) : Within ts (n' :: ns) := by
  generalize hms : n :: ns = ms at h
  induction h with
  | nil => cases hms
  | nodal ht _ ih =>
    obtain ⟨rfl, rfl⟩ := List.cons.inj hms
    exact .nodal ht (ih rfl)
  | close hm h =>
    obtain ⟨rfl, rfl⟩ := List.cons.inj hms
    exact .close hm h
  | unwind hm h =>
    obtain ⟨rfl, rfl⟩ := List.cons.inj hms
    exact .unwind hm h

theorem Within.of_nodal (h : Within (t :: ts) ms) (ht : t.isNodal) :
    ∃ n ns, ms = n :: ns ∧ Within ts (n :: ns) := by
  cases h with
  | nodal _ h => exact ⟨_, _, rfl, h⟩
  | close hm h => cases ht
  | unwind hm h => cases ht

theorem Within.of_close {mode : Closing} (h : Within (.close mode :: ts) ms) :
    mode ≠ .sibling ∧ ∃ n ns, ms = n :: ns ∧ Within ts ns := by
  cases h with
  | nodal ht h => cases ht
  | close hm h => exact ⟨hm, _, _, rfl, h⟩

theorem Within.of_unwind {mode : Closing} (h : Within (.unwind mode :: ts) ms) :
    mode ≠ .sibling ∧ ∃ n ns, ms = n :: ns ∧ Within ts ns := by
  cases h with
  | nodal ht h => cases ht
  | unwind hm h => exact ⟨hm, _, _, rfl, h⟩

/-- One step keeps to these nodes. -/
theorem Turn.within (h : Turn env t x ts x') (hw : Within (t :: rest) ms)
    (hn : x.nodes = ms ++ below) :
    ∃ ms', Within (ts ++ rest) ms' ∧ x'.nodes = ms' ++ below := by
  cases h with
  | @dispatchTemplate _ _ _ _ _ t position ht =>
    obtain ⟨n, ns, rfl, hr⟩ := hw.of_nodal rfl
    refine ⟨n :: ns, ?_, hn⟩
    cases t.entered? with
    | none => exact .nodal rfl hr
    | some g => exact .nodal rfl (.nodal rfl hr)
  | dispatchNothing | enterGroupAlone | runEnded _ | attributesDone | selfWaits =>
    obtain ⟨n, ns, rfl, hr⟩ := hw.of_nodal rfl
    exact ⟨n :: ns, hr, hn⟩
  | enterGroup passed hb =>
    obtain ⟨n, ns, rfl, hr⟩ := hw.of_nodal rfl
    exact ⟨n :: ns, .nodal rfl hr, hn⟩
  | runOn fs =>
    obtain ⟨n, ns, rfl, hr⟩ := hw.of_nodal rfl
    exact ⟨n :: ns, .nodal rfl hr, hn⟩
  | runAttributes fs g hn' =>
    obtain ⟨n, ns, rfl, hr⟩ := hw.of_nodal rfl
    exact ⟨n :: ns, .nodal rfl (.nodal rfl hr), hn⟩
  | dispatchBuiltIn copied hn' | runChildren fs _ hn' _ | runSiblings fs _ hn' _ =>
    obtain ⟨n, ns, rfl, hr⟩ := hw.of_nodal rfl
    obtain ⟨rfl, rfl⟩ := List.cons.inj (hn'.symm.trans hn)
    exact ⟨_ :: ns, hr.congr, rfl⟩
  | runSelf fs g exclude hn' _ =>
    obtain ⟨n, ns, rfl, hr⟩ := hw.of_nodal rfl
    obtain ⟨rfl, rfl⟩ := List.cons.inj (hn'.symm.trans hn)
    exact ⟨_ :: ns, .nodal rfl (.nodal rfl hr.congr), rfl⟩
  | @attributes _ _ attr place =>
    obtain ⟨n, ns, rfl, hr⟩ := hw.of_nodal rfl
    refine ⟨.fresh (.met x.serial (.attr attr place)) :: n :: ns,
      .nodal rfl (.close (by decide) (.nodal rfl hr)), ?_⟩
    rw [hn]
    rfl
  | selfResumed hn' ha =>
    obtain ⟨n, ns, rfl, hr⟩ := hw.of_nodal rfl
    obtain ⟨rfl, rfl⟩ := List.cons.inj (hn'.symm.trans hn)
    exact ⟨_ :: ns, .nodal rfl hr.congr, rfl⟩
  | closeWaits hn' hwaits =>
    obtain ⟨hm, n, ns, rfl, hr⟩ := hw.of_close
    obtain ⟨rfl, rfl⟩ := List.cons.inj (hn'.symm.trans hn)
    exact ⟨_ :: _ :: ns, .close (by decide) (.close hm hr), rfl⟩
  | closeClear hc =>
    obtain ⟨hm, n, ns, rfl, hr⟩ := hw.of_close
    exact ⟨n :: ns, .unwind hm hr, hn⟩
  | @unwindPopped _ mode m r hn' hout =>
    obtain ⟨hm, n, ns, rfl, hr⟩ := hw.of_unwind
    obtain ⟨rfl, rfl⟩ := List.cons.inj (hn'.symm.trans hn)
    have hnone : m.activations = [] := by
      cases ha : m.activations with
      | nil => rfl
      | cons a as => exact absurd (sibling_of_outlives (hout a as ha)) hm
    exact ⟨ns, hr, handOn_of_nil hnone _⟩
  | unwindResumed hn' ha hout hrole =>
    obtain ⟨hm, n, ns, rfl, hr⟩ := hw.of_unwind
    obtain ⟨rfl, rfl⟩ := List.cons.inj (hn'.symm.trans hn)
    exact ⟨_ :: ns, .nodal rfl (.unwind hm hr), rfl⟩
  | unwindBuiltIn hn' ha hout hrole =>
    obtain ⟨hm, n, ns, rfl, hr⟩ := hw.of_unwind
    obtain ⟨rfl, rfl⟩ := List.cons.inj (hn'.symm.trans hn)
    exact ⟨_ :: ns, .unwind hm hr, rfl⟩
  | _ =>
    cases hw with
    | nodal ht _ => cases ht

/-- When the work is done, only the nodes below are open, and they are as they were. -/
theorem WorksOff.nodes_eq {s s' : State} (h : WorksOff env ts s s') (hw : Within ts ms)
    (hn : s.nodes = ms ++ below) : s'.nodes = below := by
  induction h generalizing ms with
  | nil s =>
    cases hw with
    | nil => exact hn
  | cons hy _ ih =>
    obtain ⟨ms', hw', hn'⟩ := (Turn.of_yields hy).within hw hn
    exact ih hw' hn'

end

/-! ## Being met, being offered, being resumed -/

/-- The event of a child that is met, with its place among its siblings. -/
def OpenNode.child (n : OpenNode) (serial : Nat) (c : Content) : Event :=
  (Event.register n.tally (.met serial c)).2

/-- The node with this child counted. -/
def OpenNode.counting (n : OpenNode) (serial : Nat) (c : Content) : OpenNode :=
  { n with tally := (Event.register n.tally (.met serial c)).1 }

section
variable (env : Environment)

/-- The waiter that was parked last at the current node is resumed: its own node is open again with
all that is parked there, and this work is done before anything else. -/
def Resumed (w : SiblingWait) (s s' : State) : Prop :=
  ∃ n ns ws, s.nodes = n :: ns ∧ n.waits = w :: ws ∧
    WorksOff env [.close .restored]
      { s with nodes := .ofWait w :: { n with waits := ws } :: ns } s' ∧
    s'.nodes = { n with waits := ws } :: ns

/-- Waiters are resumed one after the other, each after it was asked in some way. -/
inductive InTurn (asked : SiblingWait → State → State → Prop) :
    List SiblingWait → State → State → Prop
  | nil (s : State) : InTurn asked [] s s
  | cons {w : SiblingWait} {ws : List SiblingWait} {s s₁ s₂ s' : State} : asked w s s₁ →
      Resumed env w s₁ s₂ → InTurn asked ws s₂ s' → InTurn asked (w :: ws) s s'

/-- A waiter judges a child. -/
def Judges (taken : Bool) (e : Event) (w : SiblingWait) (s s' : State) : Prop :=
  ∃ r, w.request? = some r ∧ (Operation.takes env w r e).Yields s taken s'

/-- A child is opened and processed by a group with some values; an element remains open. -/
def Processed (e : Event) (hasChildren : Bool) (h : Handover) (s s' : State) : Prop :=
  WorksOff env (.dispatch h [] hasChildren :: if e.content.isElement then [] else [.close .sibling])
    (({ s with nodes := .fresh e :: s.nodes }).after (.noted (.enterNode e (s.depth + 1)))) s'

/-- Who decides about a child of the current node, with the waiters that are left: the one that was
parked last, which takes it, or if there is none what its parent requested. -/
inductive Decided (e : Event) (hasChildren : Bool) (n : OpenNode) (ns : List OpenNode) :
    State → State → Prop
  | accepted {w : SiblingWait} {ws : List SiblingWait} {r : SiblingRequest} {s s₁ s' : State} :
      s.nodes = n :: ns → n.waits = w :: ws → w.request? = some r →
      (Operation.takes env w r e).Yields s true s₁ → s₁.nodes = n :: ns →
      Processed env e hasChildren r.handover s₁ s' → Decided e hasChildren n ns s s'
  | requested {h : Handover} {s s' : State} : s.nodes = n :: ns → n.waits = [] →
      n.children = some h → Processed env e hasChildren h s s' → Decided e hasChildren n ns s s'
  | skipped {s : State} : s.nodes = n :: ns → n.waits = [] → n.children = none →
      Decided e hasChildren n ns s
        { s with skipDepth := if e.content.isElement then 1 else s.skipDepth }

/-- A child is offered to the waiters of its parent from the one parked last on: some decline and
are resumed, then it is decided about. -/
def Offered (e : Event) (hasChildren : Bool) (n : OpenNode) (ns : List OpenNode)
    (s s' : State) : Prop :=
  ∃ declined remaining s₁, n.waits = declined ++ remaining ∧
    InTurn env (Judges env false e) declined s s₁ ∧
    Decided env e hasChildren { n with waits := remaining } ns s₁ s'

end

namespace Operation

variable {env : Environment} {e : Event} {hasChildren : Bool} {h : Handover} {s s' : State}
  {ts : List Task} {n : OpenNode} {ns : List OpenNode} {w : SiblingWait} {ws : List SiblingWait}

@[simp] theorem yields_openChild :
    Yields (openChild e h hasChildren) s ts s' ↔
      ts = .dispatch h [] hasChildren :: (if e.content.isElement then [] else [.close .sibling]) ∧
      s' = ({ s with nodes := .fresh e :: s.nodes }).after
        (.noted (.enterNode e (s.depth + 1))) := by
  simp only [openChild, yields_bind, yields_enterNode, yields_pure]
  constructor
  · intro h
    obtain ⟨_, _, rfl, rfl, rfl⟩ := h
    exact ⟨rfl, rfl⟩
  · intro h
    obtain ⟨rfl, rfl⟩ := h
    exact ⟨⟨⟩, _, rfl, rfl, rfl⟩

theorem nodes_of_takes {r : SiblingRequest} {taken : Bool}
    (h : (takes env w r e).Yields s taken s') : s'.nodes = s.nodes :=
  State.nodes_eq (inputSide_eq (fun s₀ => (outward_inputSide env s₀).takes w r e) h)

/-- Where nothing is skipped, a node that is met is counted with its parent and then offered. -/
theorem yields_meet {c : Content} (hs : s.skipDepth = 0)
    (hy : (meet env c hasChildren).Yields s ts s') :
    ∃ n ns, s.nodes = n :: ns ∧ ts = [.offer (n.child s.serial c) hasChildren] ∧
      s' = { s with serial := s.serial + 1, nodes := n.counting s.serial c :: ns } := by
  rw [meet, yields_get_bind] at hy
  simp only [hs, Nat.lt_irrefl, if_false] at hy
  split at hy
  · simp [fatal] at hy
  · rename_i n ns hn
    simp only [yields_bind, yields_newEvent, yields_modifyCurrent, yields_pure] at hy
    obtain ⟨e, _, ⟨rfl, rfl⟩, _, _, ⟨m, ms, hm, rfl⟩, rfl, rfl⟩ := hy
    obtain ⟨rfl, rfl⟩ := List.cons.inj (hn.symm.trans hm)
    exact ⟨n, ns, hn, rfl, rfl⟩

/-- The waiter that was parked last is asked first. -/
theorem yields_offer_waits {r : SiblingRequest} (hn : s.nodes = n :: ns) (hw : n.waits = w :: ws)
    (hr : w.request? = some r) (h : (offer env e hasChildren).Yields s ts s') :
    ∃ taken s₁, (takes env w r e).Yields s taken s₁ ∧ s₁.nodes = n :: ns ∧
      if taken then (openChild e r.handover hasChildren).Yields s₁ ts s'
      else ts = [.close .restored, .offer e hasChildren] ∧
        s' = { s₁ with nodes := .ofWait w :: { n with waits := ws } :: ns } := by
  simp only [offer, yields_bind, yields_current] at h
  obtain ⟨m, _, ⟨⟨ms, hm⟩, rfl⟩, h⟩ := h
  obtain ⟨rfl, rfl⟩ := List.cons.inj (hn.symm.trans hm)
  simp only [hw, hr, yields_bind] at h
  obtain ⟨taken, s₁, ht, h⟩ := h
  have hn₁ : s₁.nodes = n :: ns := (nodes_of_takes ht).trans hn
  refine ⟨taken, s₁, ht, hn₁, ?_⟩
  cases taken with
  | true => exact h
  | false =>
    simp only [Bool.false_eq_true, if_false, yields_bind, yields_releaseWait, yields_pure] at h ⊢
    obtain ⟨_, _, ⟨m, ms, hm, rfl⟩, rfl, rfl⟩ := h
    obtain ⟨rfl, rfl⟩ := List.cons.inj (hn₁.symm.trans hm)
    exact ⟨rfl, rfl⟩

/-- If nobody waits, the request of the parent decides. -/
theorem yields_offer_clear (hn : s.nodes = n :: ns) (hw : n.waits = [])
    (h : (offer env e hasChildren).Yields s ts s') :
    match n.children with
    | some g => (openChild e g hasChildren).Yields s ts s'
    | none => ts = [] ∧
      s' = { s with skipDepth := if e.content.isElement then 1 else s.skipDepth } := by
  simp only [offer, yields_bind, yields_current] at h
  obtain ⟨m, _, ⟨⟨ms, hm⟩, rfl⟩, h⟩ := h
  obtain ⟨rfl, rfl⟩ := List.cons.inj (hn.symm.trans hm)
  simp only [hw] at h
  cases hc : n.children with
  | some g =>
    simp only [hc] at h
    exact h
  | none =>
    simp only [hc, skip, yields_bind, yields_pure] at h
    obtain ⟨_, s₁, hskip, rfl, rfl⟩ := h
    refine ⟨rfl, ?_⟩
    by_cases he : e.content.isElement
    · simpa [he] using hskip
    · simpa [he] using hskip

theorem yields_close_waits {mode : Closing} (hn : s.nodes = n :: ns) (hw : n.waits = w :: ws)
    (h : (close mode).Yields s ts s') :
    ts = [.close .restored, .close mode] ∧
      s' = { s with nodes := .ofWait w :: { n with waits := ws } :: ns } := by
  rw [close, yields_get_bind] at h
  simp only [hn, hw, yields_bind, yields_releaseWait, yields_pure] at h
  obtain ⟨_, _, ⟨m, ms, hm, rfl⟩, rfl, rfl⟩ := h
  obtain ⟨rfl, rfl⟩ := List.cons.inj hm
  exact ⟨rfl, rfl⟩

theorem yields_close_clear {mode : Closing} (hn : s.nodes = n :: ns) (hw : n.waits = [])
    (h : (close mode).Yields s ts s') : ts = [.unwind mode] ∧ s' = s := by
  rw [close, yields_get_bind] at h
  simp only [hn, hw] at h
  exact yields_pure.mp h

end Operation

section
variable {env : Environment} {e : Event} {hasChildren : Bool} {s s' : State} {n : OpenNode}
  {ns : List OpenNode} {w : SiblingWait} {ws : List SiblingWait}

/-- Whoever is resumed leaves the nodes below as they were. -/
theorem resumed_of_worksOff (hn : s.nodes = n :: ns) (hw : n.waits = w :: ws)
    (h : WorksOff env [.close .restored]
      { s with nodes := .ofWait w :: { n with waits := ws } :: ns } s') : Resumed env w s s' := by
  have hwithin : Within [.close .restored] [.ofWait w] := .close (by decide) .nil
  exact ⟨n, ns, ws, hn, hw, h, h.nodes_eq hwithin rfl⟩

theorem Resumed.nodes_eq (h : Resumed env w s s') (hn : s.nodes = n :: ns)
    (hw : n.waits = w :: ws) : s'.nodes = { n with waits := ws } :: ns := by
  obtain ⟨m, ms, us, hm, hu, -, hn'⟩ := h
  obtain ⟨rfl, rfl⟩ := List.cons.inj (hn.symm.trans hm)
  obtain ⟨-, rfl⟩ := List.cons.inj (hw.symm.trans hu)
  exact hn'

/-- Every child that is offered is served by the waiters in turn, and then decided about. -/
theorem offered_of_worksOff (hn : s.nodes = n :: ns) (hask : ∀ w ∈ n.waits, w.request?.isSome)
    (h : WorksOff env [.offer e hasChildren] s s') : Offered env e hasChildren n ns s s' := by
  generalize hwaits : n.waits = waits at hask
  induction waits generalizing n s with
  | nil =>
    obtain ⟨new, s₁, hy, h⟩ := worksOff_cons.mp h
    rw [List.append_nil] at h
    have hdecides := Operation.yields_offer_clear hn hwaits hy
    refine ⟨[], [], s, hwaits, .nil s, ?_⟩
    have hsame : ({ n with waits := [] } : OpenNode) = n := by rw [← hwaits]
    rw [hsame]
    cases hc : n.children with
    | some g =>
      simp only [hc, Operation.yields_openChild] at hdecides
      obtain ⟨rfl, rfl⟩ := hdecides
      exact .requested hn hwaits hc h
    | none =>
      simp only [hc] at hdecides
      obtain ⟨rfl, rfl⟩ := hdecides
      obtain rfl := worksOff_nil.mp h
      exact .skipped hn hwaits hc
  | cons w ws ih =>
    obtain ⟨r, hr⟩ := Option.isSome_iff_exists.mp (hask w List.mem_cons_self)
    obtain ⟨new, s₁, hy, h⟩ := worksOff_cons.mp h
    obtain ⟨taken, s₂, ht, hn₂, hoffer⟩ := Operation.yields_offer_waits hn hwaits hr hy
    cases taken with
    | true =>
      simp only [if_true, Operation.yields_openChild] at hoffer
      obtain ⟨rfl, rfl⟩ := hoffer
      rw [List.append_nil] at h
      have hsame : ({ n with waits := w :: ws } : OpenNode) = n := by rw [← hwaits]
      refine ⟨[], w :: ws, s, hwaits, .nil s, ?_⟩
      rw [hsame]
      exact .accepted hn hwaits hr ht hn₂ h
    | false =>
      simp only [Bool.false_eq_true, if_false] at hoffer
      obtain ⟨rfl, rfl⟩ := hoffer
      obtain ⟨s₃, hclose, hrest⟩ := worksOff_first.mp h
      have hresumed := resumed_of_worksOff hn₂ hwaits hclose
      have hn₃ := hresumed.nodes_eq hn₂ hwaits
      obtain ⟨declined, remaining, s₄, hsplit, hturn, hdecided⟩ :=
        ih hn₃ hrest rfl fun w' hw' => hask w' (List.mem_cons_of_mem _ hw')
      refine ⟨w :: declined, remaining, s₄, ?_, .cons ⟨r, hr, ht⟩ hresumed hturn, hdecided⟩
      rw [hwaits, List.cons_append, ← hsplit]

/-- When a node is closed all that wait there are resumed before it is unwound. -/
theorem resumed_of_close {mode : Closing} {rest : List Task} (hn : s.nodes = n :: ns)
    (h : WorksOff env (.close mode :: rest) s s') :
    ∃ s₁, InTurn env (fun _ s s₁ => s₁ = s) n.waits s s₁ ∧
      s₁.nodes = { n with waits := [] } :: ns ∧ WorksOff env (.unwind mode :: rest) s₁ s' := by
  generalize hwaits : n.waits = waits
  induction waits generalizing n s with
  | nil =>
    obtain ⟨new, s₁, hy, hrest⟩ := worksOff_cons.mp h
    obtain ⟨rfl, rfl⟩ := Operation.yields_close_clear hn hwaits hy
    have hsame : ({ n with waits := [] } : OpenNode) = n := by rw [← hwaits]
    exact ⟨s₁, .nil s₁, by rw [hsame, hn], hrest⟩
  | cons w ws ih =>
    obtain ⟨new, s₁, hy, h⟩ := worksOff_cons.mp h
    obtain ⟨rfl, rfl⟩ := Operation.yields_close_waits hn hwaits hy
    obtain ⟨s₂, hclose, hrest⟩ := worksOff_first.mp h
    have hresumed := resumed_of_worksOff hn hwaits hclose
    have hn₂ := hresumed.nodes_eq hn hwaits
    obtain ⟨s₃, hturn, hn₃, hunwind⟩ := ih hn₂ hrest rfl
    exact ⟨s₃, .cons rfl hresumed hturn, hn₃, hunwind⟩

end

/-! ## The stack of waiters -/

/-- Whoever waits among the closed children of an open node, the one parked last at the head. -/
def State.waiting (s : State) : List SiblingWait := s.nodes.flatMap OpenNode.waits

/-- What a step does to the waiters. -/
inductive WaiterMove (m m' : Moment) : Prop
  | kept : m'.state.waiting = m.state.waiting → WaiterMove m m'
  /-- A node is closed, and all that is parked there waits at its parent. -/
  | left {n p : OpenNode} {ns : List OpenNode} {rest : List Task} :
      m.agenda = .unwind .sibling :: rest → m.state.nodes = n :: p :: ns →
      (⟨n.event, n.activations⟩ : SiblingWait).request?.isSome →
      m'.state.nodes = { p with waits := ⟨n.event, n.activations⟩ :: p.waits } :: ns →
      m'.state.waiting = ⟨n.event, n.activations⟩ :: m.state.waiting → WaiterMove m m'
  /-- A child declined or the current node ends, and the waiter that was parked last is resumed. -/
  | released {w : SiblingWait} {ws : List SiblingWait} {n : OpenNode} {ns : List OpenNode} :
      (∃ e hasChildren rest, m.agenda = .offer e hasChildren :: rest) ∨
        (∃ mode rest, m.agenda = .close mode :: rest) →
      m.state.nodes = n :: ns → n.waits = w :: ws →
      m'.agenda = .close .restored :: m.agenda →
      m'.state.nodes = .ofWait w :: { n with waits := ws } :: ns →
      m.state.waiting = w :: m'.state.waiting → WaiterMove m m'

theorem WaiterMove.stackMove {m m' : Moment} (h : WaiterMove m m') :
    StackMove (fun w => w.request?.isSome) Eq m.state.waiting m'.state.waiting := by
  cases h with
  | kept h => exact .of_eq h
  | left _ _ hr _ h => exact .of_push h hr
  | released _ _ _ _ _ h =>
    rw [h]
    exact .popped _ _

section
variable {env : Environment} {i : Input} {t : Task} {ts rest : List Task} {x x' : State}
  {m m' : Moment}

theorem request_of_outlives {mode : Closing} {a : Activation} {r : List Activation} (e : Event)
    (h : Operation.outlives mode a = true) : (⟨e, a :: r⟩ : SiblingWait).request?.isSome := by
  simp only [Operation.outlives, Bool.and_eq_true] at h
  exact h.2

/-- Only the end of a node and the release of a waiter touch the waiters. -/
theorem Turn.waiter_move (h : Turn env t x ts x') (ho : Orderly true (t :: rest) x.nodes) :
    WaiterMove ⟨i, t :: rest, x⟩ ⟨i, ts ++ rest, x'⟩ := by
  cases h with
  | begin => exact .kept (by simp [State.waiting, OpenNode.fresh])
  | attributes => exact .kept (by simp [State.waiting, OpenNode.fresh])
  | offerOpened g hn => exact .kept (by simp [State.waiting, OpenNode.fresh, hn])
  | meet _ hn | dispatchBuiltIn copied hn | runChildren fs g hn _ | runSiblings fs r hn _
  | runSelf fs g exclude hn _ | selfResumed hn _ | unwindResumed hn _ _ _ | unwindBuiltIn hn _ _ _ =>
    exact .kept (by simp [State.waiting, hn])
  | offerDeclined hn hw =>
    refine .released (.inl ⟨_, _, _, rfl⟩) hn hw rfl rfl ?_
    simp [State.waiting, hn, hw, OpenNode.ofWait]
  | closeWaits hn hw =>
    refine .released (.inr ⟨_, _, rfl⟩) hn hw rfl rfl ?_
    simp [State.waiting, hn, hw, OpenNode.ofWait]
  | @unwindPopped _ mode n ns hn hout =>
    rw [hn] at ho
    obtain ⟨hc, hm, -⟩ := ho.of_unwind
    have hw : n.waits = [] := clear_cons.mp hc
    cases ha : n.activations with
    | nil => exact .kept (by simp [State.waiting, hn, hw, handOn_of_nil ha])
    | cons a r =>
      have hlives := hout a r ha
      obtain rfl := sibling_of_outlives hlives
      -- a node that is closed for its siblings has a parent
      cases ns with
      | nil =>
        have hlength := (hm rfl).1
        simp at hlength
      | cons p ns =>
        have hhanded : handOn n (p :: ns) =
            { p with waits := ⟨n.event, n.activations⟩ :: p.waits } :: ns := by
          simp [handOn, ha]
        refine .left rfl hn ?_ hhanded ?_
        · rw [ha]
          exact request_of_outlives _ hlives
        · simp [State.waiting, hn, hw, hhanded]
  | _ => exact .kept rfl

theorem waiterMove_inputSide {a b : List Task} {s s' : State}
    (h : WaiterMove ⟨i, a, s.inputSide⟩ ⟨i, b, s'.inputSide⟩) : WaiterMove ⟨i, a, s⟩ ⟨i, b, s'⟩ := by
  cases h with
  | kept h => exact .kept h
  | left ha hn hr hn' h => exact .left ha hn hr hn' h
  | released ha hn hw ha' hn' h => exact .released ha hn hw ha' hn' h

theorem waiter_move_of_next (hm : Reached env m) (hn : Next env m m') : WaiterMove m m' := by
  cases hn with
  | task hy =>
    have hturn := Turn.of_yields hy
    exact waiterMove_inputSide (hturn.waiter_move (sound_of_reached hm).orderly)
  | call i hd ha => exact .kept (congrArg (List.flatMap OpenNode.waits) (i.apply_nodes _))

/-- Whoever waits has asked for siblings. -/
theorem request_of_waiting (hm : Reached env m) : ∀ w ∈ m.state.waiting, w.request?.isSome := by
  induction hm with
  | first i _ =>
    intro w hw
    have hnone : (Moment.take i (.initial env.program)).state.waiting = [] :=
      congrArg (List.flatMap OpenNode.waits) (i.apply_nodes _)
    rw [hnone] at hw
    cases hw
  | @next m m' hm hn ih =>
    intro w hw
    have hmove := waiter_move_of_next hm hn
    cases hmove with
    | kept h => exact ih w (h ▸ hw)
    | left _ _ hr _ h =>
      rw [h] at hw
      rcases List.mem_cons.mp hw with rfl | hw
      · exact hr
      · exact ih w hw
    | released _ _ _ _ _ h =>
      apply ih w
      rw [h]
      exact List.mem_cons_of_mem _ hw

end

/-- Looking ahead along the run, an entry of a stack stays on what is below it, or it does so up to
the one step that takes it off. -/
theorem exists_pop {env : Environment} {E : Type} {stack : Moment → List E} {begins : E → Prop}
    (hmove : ∀ m m', Reached env m → Next env m m' → StackMove begins Eq (stack m) (stack m'))
    {m₁ m : Moment} (hm : Reached env m₁) (h : Stretch env (fun _ => True) m₁ m) {e : E}
    {below : List E} (hs : e :: below <:+ stack m₁) :
    Stretch env (fun x => e :: below <:+ stack x) m₁ m ∨
      ∃ m₂ m₃, Stretch env (fun x => e :: below <:+ stack x) m₁ m₂ ∧ Next env m₂ m₃ ∧
        stack m₂ = e :: below ∧ stack m₃ = below ∧ Stretch env (fun _ => True) m₃ m := by
  have kept : ∀ {m' : Moment},
      Stretch env (fun x => ∃ e', e = e' ∧ e' :: below <:+ stack x) m₁ m' →
      Stretch env (fun x => e :: below <:+ stack x) m₁ m' := fun h =>
    h.mono fun _ ⟨_, heq, hsuffix⟩ => heq ▸ hsuffix
  rcases exists_removal stack (fun _ => begins) Eq (fun _ _ _ h h' => h.trans h') hmove hm h
    ⟨e, rfl, hs⟩ with hkept | ⟨m₂, m₃, e', hkept, hn, rfl, h₂, h₃, hlater⟩
  · exact .inl (kept hkept)
  · exact .inr ⟨m₂, m₃, kept hkept, hn, h₂, h₃, hlater⟩

/-- The waiter is about to be resumed with all that is parked at its node, before whatever was
planned. -/
def Releases (w : SiblingWait) (m m' : Moment) : Prop :=
  ∃ n ns ws, m.state.nodes = n :: ns ∧ n.waits = w :: ws ∧
    m'.agenda = .close .restored :: m.agenda ∧
    m'.state.nodes = .ofWait w :: { n with waits := ws } :: ns

theorem WaiterMove.releases {m m' : Moment} {w : SiblingWait} (h : WaiterMove m m')
    (hw : m.state.waiting = w :: m'.state.waiting) : Releases w m m' := by
  have hlength := congrArg List.length hw
  simp only [List.length_cons] at hlength
  cases h with
  | kept hk =>
    rw [hk] at hlength
    omega
  | left _ _ _ _ hl =>
    rw [hl, List.length_cons] at hlength
    omega
  | released _ hn hwaits ha hn' hr =>
    obtain ⟨rfl, -⟩ := List.cons.inj (hw.symm.trans hr)
    exact ⟨_, _, _, hn, hwaits, ha, hn'⟩

/-! ## How waiters are served -/

structure WaitersServed (env : Environment) : Prop where
  /-- A waiter is left by a closing node, with all that is parked there, and taken up again by an
  offer that it declines or by the end of its parent. -/
  moves : ∀ m m', Reached env m → Next env m m' → WaiterMove m m'
  /-- Every child of the current node is offered, if its call is completed. -/
  offered : ∀ (i : Input) (c : Content) (hasChildren : Bool) (rest : List Task) (s s' : State),
    Reached env ⟨i, .meet c hasChildren :: rest, s⟩ → s.skipDepth = 0 →
    WorksOff env (.meet c hasChildren :: rest) s s' →
    ∃ n ns s₁, s.nodes = n :: ns ∧
      Offered env (n.child s.serial c) hasChildren (n.counting s.serial c) ns
        { s with serial := s.serial + 1, nodes := n.counting s.serial c :: ns } s₁ ∧
      WorksOff env rest s₁ s'
  /-- When a node is closed the waiters that are left are resumed before it is unwound, -/
  closed : ∀ (i : Input) (mode : Closing) (rest : List Task) (s s' : State) (n : OpenNode)
    (ns : List OpenNode), Reached env ⟨i, .close mode :: rest, s⟩ → s.nodes = n :: ns →
    WorksOff env (.close mode :: rest) s s' →
    ∃ s₁, InTurn env (fun _ s s₁ => s₁ = s) n.waits s s₁ ∧
      s₁.nodes = { n with waits := [] } :: ns ∧ WorksOff env (.unwind mode :: rest) s₁ s'
  /-- and no activation of a node does anything while somebody waits there. -/
  own : ∀ (i : Input) (t : Task) (rest : List Task) (s : State), Reached env ⟨i, t :: rest, s⟩ →
    (t.isNodal ∨ ∃ mode, t = .unwind mode) → Clear s.nodes
  /-- A waiter stays as it is on the older ones, up to the one step by which it is resumed. -/
  once : ∀ (m₀ m₁ m : Moment) (w : SiblingWait), Reached env m₀ → Next env m₀ m₁ →
    m₁.state.waiting = w :: m₀.state.waiting → Stretch env (fun _ => True) m₁ m →
    Stretch env (fun x => w :: m₀.state.waiting <:+ x.state.waiting) m₁ m ∨
      ∃ m₂ m₃, Stretch env (fun x => w :: m₀.state.waiting <:+ x.state.waiting) m₁ m₂ ∧
        Next env m₂ m₃ ∧ Releases w m₂ m₃ ∧ m₃.state.waiting = m₀.state.waiting ∧
        Stretch env (fun _ => True) m₃ m
  /-- Nobody is left waiting at the end of the document. -/
  ended : ∀ (fuel : Nat) (is : List Input) (s s' : State),
    (State.initial env.program).receiveAll env fuel is = (.completed, s) →
    s.receive env fuel .endDocument = (.completed, s') → s'.waiting = []

theorem waiters_are_served (env : Environment) : WaitersServed env where
  moves m m' hm hn := waiter_move_of_next hm hn
  offered i c hasChildren rest s s' hm hs h := by
    obtain ⟨new, s₀, hy, h⟩ := worksOff_cons.mp h
    obtain ⟨n, ns, hn, rfl, rfl⟩ := Operation.yields_meet hs hy
    obtain ⟨s₁, hoffer, hrest⟩ := worksOff_first.mp h
    have hasked : ∀ w ∈ (n.counting s.serial c).waits, w.request?.isSome := by
      intro w hw
      have hwaiting : w ∈ s.waiting := by
        rw [State.waiting, hn, List.flatMap_cons]
        exact List.mem_append_left _ hw
      exact request_of_waiting hm w hwaiting
    exact ⟨n, ns, s₁, hn, offered_of_worksOff rfl hasked hoffer, hrest⟩
  closed i mode rest s s' n ns _ hn h := resumed_of_close hn h
  own i t rest s hm ht := by
    have ho := (sound_of_reached hm).orderly
    rcases ht with ht | ⟨mode, rfl⟩
    · cases t with
      | dispatch h exclude hasChildren => exact ho.of_dispatch.1
      | enterGroup g => exact ho.of_enterGroup.1
      | run a => exact ho.of_run.1
      | attributes as h => exact ho.of_attributes.1
      | selfDone below => exact ho.of_selfDone.1
      | _ => cases ht
    · exact ho.of_unwind.1
  once m₀ m₁ m w hm hn hw hstretch := by
    have hmove : ∀ m m', Reached env m → Next env m m' →
        StackMove (fun w : SiblingWait => w.request?.isSome) Eq m.state.waiting
          m'.state.waiting := fun m m' hm hn => (waiter_move_of_next hm hn).stackMove
    have hm₁ := hm.next hn
    have htop : w :: m₀.state.waiting <:+ m₁.state.waiting := ⟨[], hw.symm⟩
    rcases exists_pop hmove hm₁ hstretch htop with
      hkept | ⟨m₂, m₃, hkept, hn₂, h₂, h₃, hlater⟩
    · exact .inl hkept
    · have hmoved := waiter_move_of_next (hkept.reached hm₁) hn₂
      exact .inr ⟨m₂, m₃, hkept, hn₂, hmoved.releases (h₃.symm ▸ h₂), h₃, hlater⟩
  ended fuel is s s' hc he := by
    have hb := between_of_receiveAll (.inl rfl) hc
    obtain ⟨m, hm, hi, hd, rfl⟩ := reached_of_receive hb he
    rw [State.waiting, nodes_of_ended hm hi hd]
    rfl

end StreamTransform
