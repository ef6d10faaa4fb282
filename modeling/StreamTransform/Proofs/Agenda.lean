import StreamTransform.Proofs.Bookkeeping

/-!
# What the agenda stands by

Two facts about agendas along a run. The built-in rule never runs: whatever goes
on after a walk over the node itself is the activation that asked for it, below
those that the walk parked. And the output is ended by the last task of the end
of the document, and by no other.
-/

namespace StreamTransform

/-- The activation has bodies to run; the built-in rule has none. -/
def Activation.hasBody (a : Activation) : Bool :=
  match a.role with
  | .builtIn _ => false
  | .template _ | .initialiser _ => true

/-- `Attended ts as`: what the agenda runs has a body, with `as` the activations parked at each
open node. A walk over a node itself finds the activation to go on below all that came later. -/
inductive Attended : List Task → List (List Activation) → Prop
  | nil {as : List (List Activation)} : Attended [] as
  | run {ts : List Task} {as : List (List Activation)} {a : Activation} : a.hasBody →
      Attended ts as → Attended (.run a :: ts) as
  | selfDone {ts : List Task} {as : List (List Activation)} (above : List Activation)
      {a : Activation} {below : List Activation} : a.hasBody → Attended ts (below :: as) →
      Attended (.selfDone below.length :: ts) ((above ++ a :: below) :: as)
  | close {ts : List Task} {as : List (List Activation)} (mode : Closing) : Attended ts as.tail →
      Attended (.close mode :: ts) as
  | unwind {ts : List Task} {as : List (List Activation)} (mode : Closing) : Attended ts as.tail →
      Attended (.unwind mode :: ts) as
  | level {ts : List Task} {as : List (List Activation)} {t : Task} : t.isLevel →
      (∀ below, t ≠ .selfDone below) → Attended ts as → Attended (t :: ts) as

section
variable {t : Task} {ts rest : List Task} {as : List (List Activation)} {a : Activation}
  {below : List Activation}

theorem attended_of_outer (h : Outer ts) : Attended ts as := by
  induction h with
  | nil => exact .nil
  | final => exact .close _ (.level rfl (by simp) .nil)
  | flush closing _ ih => exact .level rfl (by simp) ih
  | meet c hasChildren _ ih => exact .level rfl (by simp) ih
  | checkEnd n =>
    exact .level rfl (by simp) (.level rfl (by simp) (.level rfl (by simp) .nil))
  | _ => exact .level rfl (by simp) .nil

theorem Attended.of_run (h : Attended (.run a :: ts) as) : a.hasBody ∧ Attended ts as := by
  cases h with
  | run ha h => exact ⟨ha, h⟩
  | level ht => cases ht

theorem Attended.of_close {mode : Closing} (h : Attended (.close mode :: ts) as) :
    Attended ts as.tail := by
  cases h with
  | close mode h => exact h
  | level ht => cases ht

theorem Attended.of_unwind {mode : Closing} (h : Attended (.unwind mode :: ts) as) :
    Attended ts as.tail := by
  cases h with
  | unwind mode h => exact h
  | level ht => cases ht

theorem Attended.of_level (h : Attended (t :: ts) as) (ht : t.isLevel)
    (hs : ∀ below, t ≠ .selfDone below) : Attended ts as := by
  cases h with
  | level _ _ h => exact h
  | selfDone => exact absurd rfl (hs _)
  | _ => cases ht

/-- What is parked later does no harm. -/
theorem Attended.push (h : Attended ts (below :: as)) (above : List Activation) :
    Attended ts ((above ++ below) :: as) := by
  generalize hl : below :: as = l at h
  induction h generalizing below with
  | nil => exact .nil
  | run ha _ ih => exact .run ha (ih hl)
  | selfDone above' ha h =>
    obtain ⟨rfl, rfl⟩ := List.cons.inj hl
    rw [← List.append_assoc]
    exact .selfDone _ ha h
  | close mode h =>
    subst hl
    exact .close mode h
  | unwind mode h =>
    subst hl
    exact .unwind mode h
  | level ht hs _ ih => exact .level ht hs (ih hl)

theorem Attended.of_selfDone {n : Nat} (h : Attended (.selfDone n :: ts) as) :
    Attended ts as := by
  cases h with
  | @selfDone _ _ above a _ ha h =>
    have hpushed := h.push (above ++ [a])
    rwa [List.append_assoc, List.singleton_append] at hpushed
  | level _ hs => exact absurd rfl (hs n)

/-- If nothing is parked above it, the one to go on is the one that asked for the walk. -/
theorem Attended.selfResumed (h : Attended (.selfDone below.length :: ts) ((a :: below) :: as)) :
    a.hasBody ∧ Attended ts (below :: as) := by
  generalize hn : below.length = n, hl : (a :: below) :: as = l at h
  cases h with
  | selfDone above ha h =>
    obtain ⟨heq, rfl⟩ := List.cons.inj hl
    cases above with
    | nil =>
      obtain ⟨rfl, rfl⟩ := List.cons.inj heq
      exact ⟨ha, h⟩
    | cons b above =>
      have hlength := congrArg List.length heq
      simp only [List.cons_append, List.length_append, List.length_cons] at hlength
      omega
  | level _ hs => exact absurd rfl (hs n)

end

/-- The activations parked at each open node. -/
def State.parkedAt (s : State) : List (List Activation) := s.nodes.map OpenNode.activations

theorem map_activations_handOn (n : OpenNode) (ns : List OpenNode) :
    (handOn n ns).map OpenNode.activations = ns.map OpenNode.activations := by
  cases ns with
  | nil => rfl
  | cons p r => rw [handOn_cons]; split <;> rfl

section
variable {env : Environment} {t : Task} {ts rest : List Task} {x x' : State}

theorem attended_enterGroups {gs : List GroupId} {as : List (List Activation)}
    (h : Attended ts as) : Attended (gs.map Task.enterGroup ++ ts) as := by
  induction gs with
  | nil => exact h
  | cons g gs ih => exact .level rfl (by simp) ih

theorem Turn.attended (h : Turn env t x ts x') (ho : Orderly true (t :: rest) x.nodes)
    (ha : Attended (t :: rest) x.parkedAt) : Attended (ts ++ rest) x'.parkedAt := by
  cases h with
  | begin =>
    cases ho.of_input rfl
    rw [List.append_nil]
    exact attended_enterGroups (.level rfl (by simp) .nil)
  | conclude _ =>
    cases ho.of_input rfl
    exact attended_of_outer (.flush false .final)
  | flush closing =>
    have hrest := ha.of_level rfl (by simp)
    rcases x.pendingStart with - | p <;> rcases x.heldText env with - | u
    · exact hrest
    · exact .level rfl (by simp) hrest
    · exact .level rfl (by simp) hrest
    · exact .level rfl (by simp) (.level rfl (by simp) hrest)
  | leave _ => exact .close _ (attended_of_outer (by cases ho.of_input rfl; exact .nil))
  | meet _ hn =>
    have hrest := ha.of_level rfl (by simp)
    rw [State.parkedAt, hn] at hrest
    exact .level rfl (by simp) hrest
  | @offerOpened _ e hasChildren n ns g hn =>
    refine .level rfl (by simp) ?_
    split
    · exact attended_of_outer ho.of_offer
    · exact .close _ (attended_of_outer ho.of_offer)
  | offerDeclined hn hw => exact .close _ (.level rfl (by simp) (attended_of_outer ho.of_offer))
  | @dispatchTemplate _ _ _ _ _ t position ht =>
    have hrest := ha.of_level rfl (by simp)
    cases t.entered? with
    | none => exact .run rfl hrest
    | some g => exact .level rfl (by simp) (.run rfl hrest)
  | dispatchBuiltIn copied hn =>
    have hrest := ha.of_level rfl (by simp)
    rw [State.parkedAt, hn] at hrest
    exact hrest.push [_]
  | enterGroup passed hb => exact .run rfl (ha.of_level rfl (by simp))
  | runEnded hf => exact ha.of_run.2
  | runOn fs => exact .run ha.of_run.1 ha.of_run.2
  | runAttributes fs g hn => exact .level rfl (by simp) (.run ha.of_run.1 ha.of_run.2)
  | @runChildren _ a n ns fs _ hn hi | @runSiblings _ a n ns fs _ hn hi =>
    have hrest := ha.of_run.2
    rw [State.parkedAt, hn] at hrest
    exact hrest.push [_]
  | @runSelf _ a n ns fs g exclude hn hi =>
    obtain ⟨hbody, hrest⟩ := ha.of_run
    rw [State.parkedAt, hn] at hrest
    have hself : Activation.hasBody { a with
        phase := .awaitingSelf, suspendedBy := some .self, frames := fs } := hbody
    exact .level rfl (by simp) (.selfDone [] hself hrest)
  | attributes =>
    exact .level rfl (by simp) (.close _ (.level rfl (by simp) (ha.of_level rfl (by simp))))
  | selfResumed hn hr =>
    rw [State.parkedAt, hn, List.map_cons, hr] at ha
    obtain ⟨hbody, hrest⟩ := ha.selfResumed
    exact .run hbody hrest
  | selfWaits => exact ha.of_selfDone
  | closeWaits hn hw =>
    have hrest := ha.of_close
    rw [State.parkedAt, hn] at hrest
    exact .close _ (.close _ hrest)
  | closeClear hc => exact .unwind _ ha.of_close
  | @unwindPopped _ mode n ns hn hout =>
    have hrest := ha.of_unwind
    rw [State.parkedAt, hn] at hrest
    rw [State.parkedAt, map_activations_handOn]
    exact hrest
  | @unwindResumed _ mode n ns a r hn hr hout hrole =>
    have hrest := ha.of_unwind
    rw [State.parkedAt, hn] at hrest
    have hbody : Activation.hasBody { a with phase := .running } := by
      unfold Activation.hasBody
      split
      · rename_i copied hcopied
        exact absurd hcopied (hrole copied)
      · rfl
      · rfl
    exact .run hbody (.unwind _ hrest)
  | unwindBuiltIn hn hr hout hrole =>
    have hrest := ha.of_unwind
    rw [State.parkedAt, hn] at hrest
    exact .unwind _ hrest
  | _ => exact ha.of_level rfl (by simp)

end

/-- What the agenda runs has a body. -/
theorem attended_of_reached {env : Environment} {m : Moment} (h : Reached env m) :
    Attended m.agenda m.state.parkedAt := by
  induction h with
  | first i _ => exact attended_of_outer i.outer_tasks
  | next hm hn ih =>
    cases hn with
    | task hy => exact (Turn.of_yields hy).attended (sound_of_reached hm).orderly ih
    | call i hd ha => exact attended_of_outer i.outer_tasks

/-! ## The end of the output -/

structure Concluding (m : Moment) : Prop where
  running : m.input = .endDocument → m.state.status = .running
  present : m.input = .endDocument → m.agenda ≠ [] →
    .conclude ∈ m.agenda ∨ .endOutput ∈ m.agenda
  only : .endOutput ∈ m.agenda → m.input = .endDocument

section
variable {env : Environment} {t : Task} {ts rest : List Task} {x x' : State}

theorem Turn.endOutput_mem (h : Turn env t x ts x') (hm : .endOutput ∈ ts) : t = .conclude := by
  cases h with
  | conclude => rfl
  | begin => simp at hm
  | flush closing =>
    rcases hp : x.pendingStart with - | p <;> rcases ht : x.heldText env with - | u <;>
      simp [hp, ht] at hm
  | @offerOpened _ e => cases he : e.content.isElement <;> simp [he] at hm
  | @dispatchTemplate _ _ _ _ _ t => cases ht : t.entered? <;> simp [ht] at hm
  | _ => simp at hm

theorem Turn.conclude_tasks (h : Turn env .conclude x ts x') : .endOutput ∈ ts := by
  cases h with
  | conclude => simp

theorem Turn.endOutput_tasks (h : Turn env .endOutput x ts x') : ts = [] := by
  cases h with
  | endOutput => rfl

end

theorem concluding_take {i : Input} {s : State} (ha : i.refusal? s.status = none) :
    Concluding (.take i s) where
  running hi := by
    obtain rfl : i = .endDocument := hi
    cases hs : s.status <;> simp [hs, Input.refusal?] at ha
    exact hs
  present hi _ := by
    obtain rfl : i = .endDocument := hi
    exact .inl (by simp [Moment.take, Input.tasks])
  only hm := by cases i <;> simp [Moment.take, Input.tasks] at hm

theorem concluding_of_reached {env : Environment} {m : Moment} (h : Reached env m) :
    Concluding m := by
  induction h with
  | first i ha => exact concluding_take ha
  | @next m m' hm hn ih =>
    have hs := sound_of_reached hm
    cases hn with
    | call i hd ha => exact concluding_take ha
    | @task i t rest ts s s' hy =>
      have hturn := Turn.of_yields hy
      refine ⟨fun hi => hturn.status_eq.trans (ih.running hi), fun hi hne => ?_, fun hm => ?_⟩
      · rcases ih.present hi (by simp) with hc | he
        · rcases List.mem_cons.mp hc with rfl | hc
          · exact .inr (List.mem_append_left _ hturn.conclude_tasks)
          · exact .inl (List.mem_append_right _ hc)
        · rcases List.mem_cons.mp he with rfl | he
          · cases hs.orderly.of_input rfl
            obtain rfl := hturn.endOutput_tasks
            exact absurd rfl hne
          · exact .inr (List.mem_append_right _ he)
      · rcases List.mem_append.mp hm with hm | hm
        · obtain rfl := hturn.endOutput_mem hm
          have horigin := hs.origin .conclude (by simp) rfl
          cases i <;> simp [Input.tasks] at horigin
          rfl
        · exact ih.only (List.mem_cons_of_mem _ hm)

/-- When the output is ended, every node has been closed. -/
theorem nodes_of_endOutput {env : Environment} {i : Input} {rest : List Task} {s : State}
    (h : Reached env ⟨i, .endOutput :: rest, s⟩) : i = .endDocument ∧ rest = [] ∧ s.nodes = [] := by
  have hs := sound_of_reached h
  obtain rfl : i = .endDocument := (concluding_of_reached h).only (by simp)
  obtain rfl : rest = [] := by
    cases hs.orderly.of_input rfl
    rfl
  refine ⟨rfl, rfl, ?_⟩
  have hopen : s.inputOpen = [] := by
    rcases hs.ended rfl with hc | hnone
    · simp at hc
    · exact hnone
  have hb := hs.balanced
  have hsettled : (⟨.endDocument, [.endOutput], s⟩ : Moment).settled.status = .finished := rfl
  rw [hsettled] at hb
  simp only [State.excess, hopen, agendaBalance_cons, agendaBalance_nil, Task.balance,
    List.length_nil, reduceCtorEq, if_false] at hb
  have hlength : s.nodes.length = 0 := by
    split at hb <;> omega
  exact List.eq_nil_of_length_eq_zero hlength

end StreamTransform
