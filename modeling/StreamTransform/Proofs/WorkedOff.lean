import StreamTransform.Proofs.Run

/-!
# Work to its end

`WorksOff` relates the state in which tasks are begun to the one in which none
of them is left, and `TakesIn` does so for inputs whose calls are all completed.
Neither speaks of fuel: there is such a course exactly if some fuel is enough
for it. What is worked off can be divided along the agenda, and the state that
comes of it is determined.
-/

namespace StreamTransform

inductive WorksOff (env : Environment) : List Task → State → State → Prop
  | nil (s : State) : WorksOff env [] s s
  | cons {t : Task} {ts new : List Task} {s s₁ s' : State} : (t.perform env).Yields s new s₁ →
      WorksOff env (new ++ ts) s₁ s' → WorksOff env (t :: ts) s s'

inductive TakesIn (env : Environment) : List Input → State → State → Prop
  | nil (s : State) : TakesIn env [] s s
  | cons {i : Input} {is : List Input} {s s₁ s' : State} : i.refusal? s.status = none →
      WorksOff env i.tasks (i.apply s) s₁ →
      TakesIn env is { s₁ with status := i.statusAfter s₁ .completed } s' →
      TakesIn env (i :: is) s s'

section
variable {env : Environment} {t : Task} {ts us : List Task} {s s' s'' : State} {i : Input}

@[simp] theorem worksOff_nil : WorksOff env [] s s' ↔ s' = s := by
  constructor
  · intro h
    cases h
    rfl
  · intro h
    subst h
    exact .nil s'

theorem worksOff_cons : WorksOff env (t :: ts) s s' ↔
    ∃ new s₁, (t.perform env).Yields s new s₁ ∧ WorksOff env (new ++ ts) s₁ s' := by
  constructor
  · intro h
    cases h with
    | cons hy h => exact ⟨_, _, hy, h⟩
  · intro h
    obtain ⟨new, s₁, hy, h⟩ := h
    exact .cons hy h

/-- Tasks are worked off before those that stand behind them. -/
theorem worksOff_append : WorksOff env (ts ++ us) s s' ↔
    ∃ s₁, WorksOff env ts s s₁ ∧ WorksOff env us s₁ s' := by
  constructor
  · intro h
    generalize hall : ts ++ us = all at h
    induction h generalizing ts with
    | nil s =>
      obtain ⟨rfl, rfl⟩ := List.append_eq_nil_iff.mp hall
      exact ⟨s, .nil s, .nil s⟩
    | @cons t rest new s s₁ s' hy h ih =>
      cases ts with
      | nil =>
        rw [List.nil_append] at hall
        exact ⟨s, .nil s, hall ▸ .cons hy h⟩
      | cons t' ts =>
        obtain ⟨rfl, rfl⟩ := List.cons.inj hall
        obtain ⟨s₂, hts, hus⟩ := ih (List.append_assoc new ts us)
        exact ⟨s₂, .cons hy hts, hus⟩
  · intro h
    obtain ⟨s₁, hts, hus⟩ := h
    induction hts with
    | nil s => exact hus
    | @cons t ts new s s₁ s' hy _ ih =>
      have hmore := ih hus
      rw [List.append_assoc] at hmore
      exact .cons hy hmore

/-- The first task is worked off before the others. -/
theorem worksOff_first : WorksOff env (t :: ts) s s' ↔
    ∃ s₁, WorksOff env [t] s s₁ ∧ WorksOff env ts s₁ s' :=
  @worksOff_append env [t] ts s s'

theorem worksOff_singleton {new : List Task} {s₁ : State} (hy : (t.perform env).Yields s new s₁) :
    WorksOff env [t] s s' ↔ WorksOff env new s₁ s' := by
  constructor
  · intro h
    obtain ⟨new', s₁', hy', h⟩ := worksOff_cons.mp h
    obtain ⟨hnew, rfl⟩ := Prod.mk.inj (hy.symm.trans hy')
    obtain rfl := Except.ok.inj hnew
    rwa [List.append_nil] at h
  · intro h
    exact .cons hy (by rwa [List.append_nil])

theorem WorksOff.deterministic (h : WorksOff env ts s s') (h' : WorksOff env ts s s'') :
    s'' = s' := by
  induction h with
  | nil s => exact worksOff_nil.mp h'
  | cons hy _ ih =>
    obtain ⟨new, s₁, hy', h'⟩ := worksOff_cons.mp h'
    obtain ⟨hnew, rfl⟩ := Prod.mk.inj (hy.symm.trans hy')
    obtain rfl := Except.ok.inj hnew
    exact ih h'

/-! ## Fuel -/

theorem worksOff_of_carryOut {fuel : Nat} (h : carryOut env fuel ts s = (.completed, s')) :
    WorksOff env ts s s' := by
  refine completed_induction h (fun _ => .nil s') ?_
  intro _ _ _ _ _ _ hy ih
  exact .cons hy ih

theorem WorksOff.carryOut (h : WorksOff env ts s s') :
    ∃ fuel, StreamTransform.carryOut env fuel ts s = (.completed, s') := by
  induction h with
  | nil s => exact ⟨0, rfl⟩
  | @cons t ts new s s₁ s' hy _ ih =>
    obtain ⟨fuel, hfuel⟩ := ih
    refine ⟨fuel + 1, ?_⟩
    have hp : ((t.perform env).run).run s = (.ok new, s₁) := hy
    rw [StreamTransform.carryOut, hp]
    exact hfuel

end

/-! ## Inputs -/

section
variable {env : Environment} {is js : List Input} {s s' s'' : State}

theorem takesIn_append : TakesIn env (is ++ js) s s' ↔
    ∃ s₁, TakesIn env is s s₁ ∧ TakesIn env js s₁ s' := by
  constructor
  · intro h
    induction is generalizing s with
    | nil => exact ⟨s, .nil s, h⟩
    | cons i is ih =>
      cases h with
      | cons ha hw h =>
        obtain ⟨s₂, his, hjs⟩ := ih h
        exact ⟨s₂, .cons ha hw his, hjs⟩
  · intro h
    obtain ⟨s₁, his, hjs⟩ := h
    induction his with
    | nil s => exact hjs
    | cons ha hw _ ih => exact .cons ha hw (ih hjs)

theorem TakesIn.deterministic (h : TakesIn env is s s') (h' : TakesIn env is s s'') : s'' = s' := by
  induction h with
  | nil s =>
    cases h'
    rfl
  | cons _ hw _ ih =>
    cases h' with
    | cons _ hw' h' =>
      obtain rfl := hw.deterministic hw'
      exact ih h'

theorem takesIn_of_receiveAll {fuel : Nat} (h : s.receiveAll env fuel is = (.completed, s')) :
    TakesIn env is s s' := by
  induction is generalizing s with
  | nil =>
    simp only [State.receiveAll, Prod.mk.injEq, true_and] at h
    exact h ▸ .nil s
  | cons i is ih =>
    obtain ⟨s₁, hr, h⟩ := completed_receiveAll_iff.mp h
    obtain ⟨ha, s₂, hrun, rfl⟩ := completed_receive_iff.mp hr
    exact .cons ha (worksOff_of_carryOut hrun) (ih h)

/-- With this much fuel, and with more, all calls are completed. -/
theorem TakesIn.receiveAll (h : TakesIn env is s s') :
    ∃ least, ∀ fuel, least ≤ fuel → s.receiveAll env fuel is = (.completed, s') := by
  induction h with
  | nil s => exact ⟨0, fun fuel _ => rfl⟩
  | @cons i is s s₁ s' ha hw _ ih =>
    obtain ⟨enough, hrun⟩ := hw.carryOut
    obtain ⟨least, hrest⟩ := ih
    refine ⟨enough + least, fun fuel hfuel => ?_⟩
    have hmore : carryOut env fuel i.tasks (i.apply s) = (.completed, s₁) := by
      have hstable := carryOut_stable env hrun (by simp) (fuel - enough)
      rwa [Nat.add_sub_cancel' (by omega)] at hstable
    have hreceive : s.receive env fuel i =
        (.completed, { s₁ with status := i.statusAfter s₁ .completed }) := by
      rw [State.receive, ha, hmore]
    rw [State.receiveAll, hreceive]
    exact hrest fuel (by omega)

end

end StreamTransform
