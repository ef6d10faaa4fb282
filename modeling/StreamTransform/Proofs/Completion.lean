import StreamTransform.Proofs.Operation

/-!
# Work that is completed

Tasks are completed within so many steps if they leave the rest of the agenda as
it was, with some fuel to go on. Steps add up along the agenda, so what a call
needs is read off its tasks one by one.
-/

namespace StreamTransform

/-- From a state the tasks are completed within `k` steps, in a state with the property. -/
def Completes (env : Environment) (k : Nat) (ts : List Task) (s : State) (P : State → Prop) :
    Prop :=
  ∃ j s', j ≤ k ∧ P s' ∧
    ∀ fuel rest, carryOut env (fuel + j) (ts ++ rest) s = carryOut env fuel rest s'

namespace Completes

variable {env : Environment} {k l : Nat} {t : Task} {ts : List Task} {s : State}
  {P Q : State → Prop}

theorem nil (h : P s) : Completes env 0 [] s P := ⟨0, s, Nat.le_refl 0, h, fun _ _ => rfl⟩

/-- The first task succeeds, and its own tasks are completed together with those after it. -/
theorem task (h : (t.perform env).Ensures s (fun new s₁ => Completes env k (new ++ ts) s₁ P)
    fun _ _ => False) : Completes env (k + 1) (t :: ts) s P := by
  unfold Operation.Ensures at h
  split at h
  · rename_i new s₁ hy
    obtain ⟨j, s', hj, hs', hrun⟩ := h
    refine ⟨j + 1, s', Nat.succ_le_succ hj, hs', fun fuel rest => ?_⟩
    have hp : ((t.perform env).run).run s = (.ok new, s₁) := hy
    rw [← Nat.add_assoc, List.cons_append, carryOut, hp]
    simp only
    rw [← List.append_assoc]
    exact hrun fuel rest
  · exact h.elim

theorem append (h : Completes env k ts s P) (ts' : List Task)
    (h' : ∀ s', P s' → Completes env l ts' s' Q) :
    Completes env (l + k) (ts ++ ts') s Q := by
  obtain ⟨j, s₁, hj, hs₁, hrun⟩ := h
  obtain ⟨j', s₂, hj', hs₂, hrun'⟩ := h' s₁ hs₁
  refine ⟨j' + j, s₂, Nat.add_le_add hj' hj, hs₂, fun fuel rest => ?_⟩
  rw [← Nat.add_assoc, List.append_assoc, hrun]
  exact hrun' fuel rest

theorem mono (h : Completes env k ts s P) (hk : k ≤ l) (hp : ∀ s', P s' → Q s') :
    Completes env l ts s Q := by
  obtain ⟨j, s', hj, hs', hrun⟩ := h
  exact ⟨j, s', Nat.le_trans hj hk, hp s' hs', hrun⟩

/-- With enough fuel the agenda becomes empty. -/
theorem carryOut (h : Completes env k ts s P) {fuel : Nat} (hf : k ≤ fuel) :
    ∃ s', StreamTransform.carryOut env fuel ts s = (.completed, s') ∧ P s' := by
  obtain ⟨j, s', hj, hs', hrun⟩ := h
  refine ⟨s', ?_, hs'⟩
  have hrun := hrun (fuel - j) []
  rw [Nat.sub_add_cancel (Nat.le_trans hj hf), List.append_nil] at hrun
  rw [hrun]
  cases fuel - j <;> rfl

/-- A call whose tasks are completed is itself completed. -/
theorem receive {i : Input} (ha : i.refusal? s.status = none)
    (h : Completes env k i.tasks (i.apply s) P) {fuel : Nat} (hf : k ≤ fuel) :
    ∃ s', s.receive env fuel i =
      (.completed, { s' with status := i.statusAfter s' .completed }) ∧ P s' := by
  obtain ⟨s', hrun, hs'⟩ := h.carryOut hf
  refine ⟨s', ?_, hs'⟩
  simp only [State.receive, ha, hrun]

end Completes

/-- Calls after others that were completed. -/
theorem State.receiveAll_append {env : Environment} {fuel : Nat} {is : List Input} {s s' : State}
    (h : s.receiveAll env fuel is = (.completed, s')) (js : List Input) :
    s.receiveAll env fuel (is ++ js) = s'.receiveAll env fuel js := by
  induction is generalizing s with
  | nil =>
    simp only [State.receiveAll, Prod.mk.injEq, true_and] at h
    rw [h, List.nil_append]
  | cons i is ih =>
    rw [List.cons_append, State.receiveAll]
    rw [State.receiveAll] at h
    split at h
    · exact ih h
    · rename_i o s₁ hne _
      simp only [Prod.mk.injEq] at h
      exact absurd h.1 hne

end StreamTransform
