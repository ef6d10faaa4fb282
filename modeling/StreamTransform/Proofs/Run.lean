import StreamTransform.Proofs.Operation

/-!
# Runs

A run goes through moments: an input in process, the tasks that are left for it,
and the state. A task that succeeds leads to the next moment; when no task is
left, another input can be taken in. Every call that is completed is such a
stretch of moments, and a call that fails or runs out of fuel stops at one of
them. Nothing is said here of how much fuel a call needs.
-/

namespace StreamTransform

structure Moment where
  input : Input
  agenda : List Task
  state : State

namespace Moment

/-- The moment at which an input is taken in. -/
def take (i : Input) (s : State) : Moment := ⟨i, i.tasks, i.apply s⟩

/-- The state between two calls, once the agenda is empty. -/
def settled (m : Moment) : State :=
  { m.state with status := m.input.statusAfter m.state .completed }

end Moment

inductive Next (env : Environment) : Moment → Moment → Prop
  | task {i : Input} {t : Task} {rest ts : List Task} {s s' : State} :
      (t.perform env).Yields s ts s' → Next env ⟨i, t :: rest, s⟩ ⟨i, ts ++ rest, s'⟩
  | call {m : Moment} (i : Input) : m.agenda = [] → i.refusal? m.settled.status = none →
      Next env m (.take i m.settled)

/-- The moments of runs from the start, as far as every call before was completed. -/
inductive Reached (env : Environment) : Moment → Prop
  | first (i : Input) : i.refusal? .notStarted = none →
      Reached env (.take i (.initial env.program))
  | next {m m' : Moment} : Reached env m → Next env m m' → Reached env m'

/-- A part of a run all of whose moments have a property. -/
inductive Stretch (env : Environment) (P : Moment → Prop) : Moment → Moment → Prop
  | refl {m : Moment} : P m → Stretch env P m m
  | next {m m' m'' : Moment} : Stretch env P m m' → Next env m' m'' → P m'' → Stretch env P m m''

theorem Stretch.last {env : Environment} {P : Moment → Prop} {m m' : Moment}
    (h : Stretch env P m m') : P m' := by
  cases h with
  | refl h => exact h
  | next _ _ h => exact h

theorem Stretch.mono {env : Environment} {P Q : Moment → Prop} {m m' : Moment}
    (h : Stretch env P m m') (hpq : ∀ m, P m → Q m) : Stretch env Q m m' := by
  induction h with
  | refl h => exact .refl (hpq _ h)
  | next _ hn h ih => exact .next ih hn (hpq _ h)

theorem Stretch.reached {env : Environment} {P : Moment → Prop} {m m' : Moment}
    (h : Stretch env P m m') (hm : Reached env m) : Reached env m' := by
  induction h with
  | refl _ => exact hm
  | next _ hn _ ih => exact ih.next hn

/-! ## Completed work -/

/-- All calls but the start of the document and the setting of a parameter are accepted only while a
document is in process. -/
theorem Input.running_of_accepted {i : Input} {status : Status}
    (hi : i.refusal? .notStarted = some .notStarted) (h : i.refusal? status = none) :
    status = .running := by
  cases i <;> cases status <;> simp [Input.refusal?] at h hi ⊢

section
variable {env : Environment} {i : Input} {is : List Input} {t : Task} {ts : List Task}
  {s s' : State} {fuel : Nat}

theorem completed_nil_iff : carryOut env fuel [] s = (.completed, s') ↔ s' = s := by
  cases fuel <;> simp [carryOut, eq_comm]

theorem completed_cons_iff : carryOut env fuel (t :: ts) s = (.completed, s') ↔
    ∃ k new s₁, fuel = k + 1 ∧ (t.perform env).Yields s new s₁ ∧
      carryOut env k (new ++ ts) s₁ = (.completed, s') := by
  constructor
  · intro h
    cases fuel with
    | zero => simp [carryOut] at h
    | succ k =>
      simp only [carryOut] at h
      split at h
      case h_1 new s₁ hy => exact ⟨k, new, s₁, rfl, hy, h⟩
      case h_2 => simp at h
  · rintro ⟨k, new, s₁, rfl, hy, h⟩
    have hp : ((t.perform env).run).run s = (.ok new, s₁) := hy
    rw [carryOut, hp]
    exact h

/-- Induction on work that is completed, from its end: on the tasks that are left and the fuel. -/
@[elab_as_elim]
theorem completed_induction {motive : Nat → List Task → State → Prop}
    (h : carryOut env fuel ts s = (.completed, s')) (nil : ∀ fuel, motive fuel [] s')
    (cons : ∀ {k : Nat} {t : Task} {ts new : List Task} {s s₁ : State},
      (t.perform env).Yields s new s₁ → motive k (new ++ ts) s₁ → motive (k + 1) (t :: ts) s) :
    motive fuel ts s := by
  induction fuel generalizing ts s with
  | zero =>
    cases ts with
    | nil => exact completed_nil_iff.mp h ▸ nil 0
    | cons t ts =>
      obtain ⟨k, _, _, hk, -⟩ := completed_cons_iff.mp h
      cases hk
  | succ fuel ih =>
    cases ts with
    | nil => exact completed_nil_iff.mp h ▸ nil (fuel + 1)
    | cons t ts =>
      obtain ⟨k, new, s₁, hk, hy, hrest⟩ := completed_cons_iff.mp h
      obtain rfl := Nat.succ.inj hk
      exact cons hy (ih hrest)

theorem completed_receive_iff : s.receive env fuel i = (.completed, s') ↔
    i.refusal? s.status = none ∧ ∃ s₁, carryOut env fuel i.tasks (i.apply s) = (.completed, s₁) ∧
      s' = { s₁ with status := i.statusAfter s₁ .completed } := by
  rw [State.receive]
  cases i.refusal? s.status with
  | some f => simp
  | none =>
    rcases carryOut env fuel i.tasks (i.apply s) with ⟨o, s₁⟩
    constructor
    · rintro h
      obtain ⟨rfl, rfl⟩ := Prod.mk.inj h
      exact ⟨rfl, s₁, rfl, rfl⟩
    · rintro ⟨-, s₂, h, rfl⟩
      obtain ⟨rfl, rfl⟩ := Prod.mk.inj h
      rfl

theorem completed_receiveAll_iff : s.receiveAll env fuel (i :: is) = (.completed, s') ↔
    ∃ s₁, s.receive env fuel i = (.completed, s₁) ∧
      s₁.receiveAll env fuel is = (.completed, s') := by
  rw [State.receiveAll]
  rcases s.receive env fuel i with ⟨o, s₁⟩
  cases o with
  | completed => simp
  | failed f => simp
  | unfinished => simp

end

/-! ## Moments that are reached -/

/-- Moments that include what runs come to that take in certain inputs only. -/
structure Closed (env : Environment) (accepted : Input → Prop) (R : Moment → Prop) : Prop where
  first : ∀ i, accepted i → i.refusal? .notStarted = none → R (.take i (.initial env.program))
  task : ∀ {i t rest ts s s'}, R ⟨i, t :: rest, s⟩ → (t.perform env).Yields s ts s' →
    R ⟨i, ts ++ rest, s'⟩
  call : ∀ {m} i, accepted i → R m → m.agenda = [] → i.refusal? m.settled.status = none →
    R (.take i m.settled)

theorem closed_reached (env : Environment) : Closed env (fun _ => True) (Reached env) where
  first i _ ha := .first i ha
  task hr hy := hr.next (.task hy)
  call i _ hr hd ha := hr.next (.call i hd ha)

section
variable {env : Environment} {accepted : Input → Prop} {R : Moment → Prop} {i : Input}
  {ts : List Task} {s s' : State} {fuel : Nat}

theorem Closed.of_completed (hc : Closed env accepted R) (hr : R ⟨i, ts, s⟩)
    (h : carryOut env fuel ts s = (.completed, s')) : R ⟨i, [], s'⟩ := by
  revert hr
  refine completed_induction h (fun _ hr => hr) ?_
  intro _ _ _ _ _ _ hy ih hr
  exact ih (hc.task hr hy)

theorem Closed.of_failed (hc : Closed env accepted R) {f : Fault} (hr : R ⟨i, ts, s⟩)
    (h : carryOut env fuel ts s = (.failed f, s')) :
    ∃ t rest s₁, R ⟨i, t :: rest, s₁⟩ ∧ (t.perform env).Fails s₁ f s' := by
  induction fuel generalizing ts s with
  | zero => cases ts <;> simp [carryOut] at h
  | succ fuel ih =>
    cases ts with
    | nil => simp [carryOut] at h
    | cons t ts =>
      simp only [carryOut] at h
      split at h
      case h_1 _ _ hp => exact ih (hc.task hr hp) h
      case h_2 f' s₁ hp =>
        simp only [Prod.mk.injEq, Outcome.failed.injEq] at h
        obtain ⟨rfl, rfl⟩ := h
        exact ⟨t, ts, s, hr, hp⟩

theorem Closed.of_unfinished (hc : Closed env accepted R) (hr : R ⟨i, ts, s⟩)
    (h : carryOut env fuel ts s = (.unfinished, s')) : ∃ ts', R ⟨i, ts', s'⟩ := by
  induction fuel generalizing ts s with
  | zero =>
    cases ts with
    | nil => simp [carryOut] at h
    | cons t ts =>
      simp only [carryOut, Prod.mk.injEq, true_and] at h
      exact ⟨t :: ts, h ▸ hr⟩
  | succ fuel ih =>
    cases ts with
    | nil => simp [carryOut] at h
    | cons t ts =>
      simp only [carryOut] at h
      split at h
      case h_1 _ _ hp => exact ih (hc.task hr hp) h
      case h_2 => simp at h

theorem reached_of_completed (hr : Reached env ⟨i, ts, s⟩)
    (h : carryOut env fuel ts s = (.completed, s')) : Reached env ⟨i, [], s'⟩ :=
  (closed_reached env).of_completed hr h

theorem reached_of_failed {f : Fault} (hr : Reached env ⟨i, ts, s⟩)
    (h : carryOut env fuel ts s = (.failed f, s')) :
    ∃ t rest s₁, Reached env ⟨i, t :: rest, s₁⟩ ∧ (t.perform env).Fails s₁ f s' :=
  (closed_reached env).of_failed hr h

end

/-! ## Sequences of calls -/

/-- A state in which another call can be made after others that were completed, all at these
moments. -/
def Rests (env : Environment) (R : Moment → Prop) (s : State) : Prop :=
  s = .initial env.program ∨ ∃ m, R m ∧ m.agenda = [] ∧ s = m.settled

/-- A state in which another call can be made after others that were completed. -/
def Between (env : Environment) (s : State) : Prop :=
  s = .initial env.program ∨ ∃ m, Reached env m ∧ m.agenda = [] ∧ s = m.settled

section
variable {env : Environment} {i : Input} {s s' : State} {fuel : Nat}

/-- An input that is accepted starts a moment of the run. -/
theorem Rests.take {accepted : Input → Prop} {R : Moment → Prop} (h : Rests env R s)
    (hc : Closed env accepted R) (hi : accepted i) (ha : i.refusal? s.status = none) :
    R (.take i s) := by
  rcases h with rfl | ⟨m, hm, hd, rfl⟩
  · exact hc.first i hi ha
  · exact hc.call i hi hm hd ha

theorem Between.reached_take (h : Between env s) (ha : i.refusal? s.status = none) :
    Reached env (.take i s) :=
  Rests.take h (closed_reached env) trivial ha

theorem reached_of_receive (h : Between env s)
    (hc : s.receive env fuel i = (.completed, s')) :
    ∃ m, Reached env m ∧ m.input = i ∧ m.agenda = [] ∧ s' = m.settled := by
  obtain ⟨ha, s₁, hrun, rfl⟩ := completed_receive_iff.mp hc
  exact ⟨_, reached_of_completed (h.reached_take ha) hrun, rfl, rfl, rfl⟩

theorem between_of_receiveAll {is : List Input} (h : Between env s)
    (hc : s.receiveAll env fuel is = (.completed, s')) : Between env s' := by
  induction is generalizing s with
  | nil =>
    simp only [State.receiveAll, Prod.mk.injEq, true_and] at hc
    exact hc ▸ h
  | cons i is ih =>
    obtain ⟨s₁, hr, hc⟩ := completed_receiveAll_iff.mp hc
    obtain ⟨m, hm, -, hd, rfl⟩ := reached_of_receive h hr
    exact ih (.inr ⟨m, hm, hd, rfl⟩) hc

end

/-- The state after calls that are made one after the other, whatever becomes of each. -/
def State.afterCalls (env : Environment) (fuel : Nat) : List Input → State → State
  | [], s => s
  | i :: r, s => afterCalls env fuel r (s.receive env fuel i).2

section
variable {env : Environment} {accepted : Input → Prop} {R : Moment → Prop} {s : State} {fuel : Nat}

/-- A call that is not completed ends the run for good. -/
theorem Closed.rests_or_aborted (hc : Closed env accepted R) (fuel : Nat) {is : List Input}
    (his : ∀ i ∈ is, accepted i) (h : Rests env R s ∨ s.status = .aborted) :
    Rests env R (s.afterCalls env fuel is) ∨ (s.afterCalls env fuel is).status = .aborted := by
  induction is generalizing s with
  | nil => exact h
  | cons i is ih =>
    apply ih fun j hj => his j (List.mem_cons_of_mem _ hj)
    cases ha : i.refusal? s.status with
    | some f => simpa [State.receive, ha] using h
    | none =>
      rcases h with h | h
      · have hr := h.take hc (his i List.mem_cons_self) ha
        rcases hrun : s.receive env fuel i with ⟨o, s₁⟩
        cases o with
        | completed =>
          obtain ⟨-, s₂, hcarried, rfl⟩ := completed_receive_iff.mp hrun
          exact .inl (.inr ⟨_, hc.of_completed hr hcarried, rfl, rfl⟩)
        | failed f =>
          right
          simp only [State.receive, ha, Prod.mk.injEq] at hrun
          rw [← hrun.2, hrun.1]
          rfl
        | unfinished =>
          right
          simp only [State.receive, ha, Prod.mk.injEq] at hrun
          rw [← hrun.2, hrun.1]
          rfl
      · right
        cases i with
        | parameter n v =>
          simpa [State.receive, ha, Input.tasks, carryOut, Input.apply, Input.statusAfter] using h
        | _ => simp [h, Input.refusal?] at ha

theorem between_or_aborted (fuel : Nat) (is : List Input) (h : Between env s ∨ s.status = .aborted) :
    Between env (s.afterCalls env fuel is) ∨
      (s.afterCalls env fuel is).status = .aborted :=
  (closed_reached env).rests_or_aborted fuel (fun _ _ => trivial) h

/-- What the outlet keeps at these moments and in every failing step, it keeps through all calls
with these inputs. -/
theorem Closed.outlet_afterCalls (hc : Closed env accepted R) {P : Output.Outlet → Prop}
    (h₀ : P .initial) (hm : ∀ m, R m → P m.state.outlet)
    (hf : ∀ i t rest s f s', R ⟨i, t :: rest, s⟩ → (t.perform env).Fails s f s' → P s'.outlet)
    {is : List Input} (his : ∀ i ∈ is, accepted i) :
    P ((State.initial env.program).afterCalls env fuel is).outlet := by
  suffices hs : ∀ s, Rests env R s ∨ s.status = .aborted → P s.outlet →
      P (s.afterCalls env fuel is).outlet from hs _ (.inl (.inl rfl)) h₀
  induction is with
  | nil => exact fun s _ h => h
  | cons i is ih =>
    intro s hb hs
    obtain ⟨hi, his⟩ := List.forall_mem_cons.mp his
    have hnext := hc.rests_or_aborted fuel (List.forall_mem_singleton.mpr hi) hb
    refine ih his _ hnext ?_
    cases ha : i.refusal? s.status with
    | some f => simpa [State.receive, ha] using hs
    | none =>
      rcases hrun : carryOut env fuel i.tasks (i.apply s) with ⟨o, after⟩
      simp only [State.receive, ha, hrun]
      rcases hb with hb | hb
      · have hr := hb.take hc hi ha
        cases o with
        | completed => exact hm _ (hc.of_completed hr hrun)
        | failed f =>
          obtain ⟨t, rest, s₁, hr, hfail⟩ := hc.of_failed hr hrun
          exact hf _ _ _ _ _ _ hr hfail
        | unfinished =>
          obtain ⟨ts, hr⟩ := hc.of_unfinished hr hrun
          exact hm _ hr
      · cases i with
        | parameter n v =>
          simp only [Input.tasks, carryOut, Prod.mk.injEq] at hrun
          rw [← hrun.2]
          exact hs
        | _ => simp [hb, Input.refusal?] at ha

/-- What the outlet keeps at every moment and in every failing step, it keeps through all calls. -/
theorem outlet_afterCalls {P : Output.Outlet → Prop} (h₀ : P .initial)
    (hm : ∀ m, Reached env m → P m.state.outlet)
    (hf : ∀ i t rest s f s', Reached env ⟨i, t :: rest, s⟩ → (t.perform env).Fails s f s' →
      P s'.outlet) (is : List Input) :
    P ((State.initial env.program).afterCalls env fuel is).outlet :=
  (closed_reached env).outlet_afterCalls h₀ hm hf fun _ _ => trivial

end

/-! ## Runs that are computed -/

def Outcome.isCompleted : Outcome → Bool
  | completed => true
  | failed _ | unfinished => false

theorem eq_of_isCompleted {r : Outcome × State} (h : r.1.isCompleted = true) :
    r = (.completed, r.2) := by
  obtain ⟨o, s⟩ := r
  cases o <;> first | rfl | cases h

namespace Moment

/-- The moment after the first task of the agenda, if there is one and it succeeds. -/
def step? (env : Environment) (m : Moment) : Option Moment :=
  match m.agenda with
  | [] => none
  | t :: rest =>
    match (t.perform env).outcome m.state with
    | (.ok ts, s) => some ⟨m.input, ts ++ rest, s⟩
    | (.error _, _) => none

/-- The moment at which an input is taken in, if no task is left and the input is accepted. -/
def call? (m : Moment) (i : Input) : Option Moment :=
  match m.agenda, i.refusal? m.settled.status with
  | [], none => some (.take i m.settled)
  | _, _ => none

/-- The moment after so many steps, or the last one before a step that fails. The inputs are taken
in one after the other as soon as no task is left. -/
def advance (env : Environment) : Nat → List Input → Moment → Moment
  | 0, _, m => m
  | n + 1, is, m =>
    match m.step? env, is with
    | some m', is => advance env n is m'
    | none, [] => m
    | none, i :: is =>
      match m.call? i with
      | some m' => advance env n is m'
      | none => m

/-- The cursor of the body that the first task goes on with. -/
def cursor? (m : Moment) : Option NodeId :=
  match m.agenda with
  | .run a :: _ => a.frames.head?.map Frame.cursor
  | _ => none

variable {env : Environment} {m m' : Moment}

theorem next_of_step? (h : m.step? env = some m') : Next env m m' := by
  obtain ⟨i, agenda, s⟩ := m
  cases agenda with
  | nil => cases h
  | cons t rest =>
    simp only [step?] at h
    split at h
    · rename_i ts s' hy
      obtain rfl := Option.some.inj h
      exact .task hy
    · cases h

theorem next_of_call? {i : Input} (h : m.call? i = some m') : Next env m m' := by
  unfold call? at h
  split at h
  · rename_i hd ha
    obtain rfl := Option.some.inj h
    exact .call i hd ha
  · cases h

theorem run_of_cursor? {b : NodeId} (h : m.cursor? = some b) :
    ∃ a rest f fs, m.agenda = .run a :: rest ∧ a.frames = f :: fs ∧ f.cursor = b := by
  unfold cursor? at h
  split at h
  · rename_i a rest hd
    obtain ⟨f, hf, hb⟩ := Option.map_eq_some_iff.mp h
    obtain ⟨fs, hframes⟩ := List.head?_eq_some_iff.mp hf
    exact ⟨a, rest, f, fs, hd, hframes, hb⟩
  · cases h

end Moment

section
variable {env : Environment} {m₀ m : Moment}

/-- What is computed from a moment on is a part of a run. -/
theorem Stretch.advance (n : Nat) (is : List Input) (h : Stretch env (fun _ => True) m₀ m) :
    Stretch env (fun _ => True) m₀ (m.advance env n is) := by
  induction n generalizing is m with
  | zero => exact h
  | succ n ih =>
    unfold Moment.advance
    split
    · rename_i hstep
      exact ih _ (h.next (Moment.next_of_step? hstep) trivial)
    · exact h
    · split
      · rename_i hcall
        exact ih _ (h.next (Moment.next_of_call? hcall) trivial)
      · exact h

theorem Reached.advance (hm : Reached env m) (n : Nat) (is : List Input) :
    Reached env (m.advance env n is) :=
  ((Stretch.refl trivial).advance n is).reached hm

end

end StreamTransform
