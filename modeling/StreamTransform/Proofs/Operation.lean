import StreamTransform.Input

/-!
# Reasoning about operations

An operation yields a value or fails, and leaves a state either way. `Yields`
takes a successful operation apart; `Preserves` and `Ensures` speak of both
outcomes. The `simp` lemmas walk through the text of an operation, so that
what it does is read off once and stated beside it.
-/

namespace StreamTransform

/-- The state with one more happening. -/
def State.after (s : State) (h : Happening) : State :=
  { s with outlet := { s.outlet with record := h :: s.outlet.record } }

/-- The last happening is a report, which the listener answered with the fault. -/
def Record.Answered (r : Record) (f : Fault) : Prop :=
  ∃ d, r.head? = some (.reported d (some f))

namespace Operation

variable {α β : Type} {s s' : State}

/-- What an operation comes to from a state. -/
def outcome (op : Operation α) (s : State) : Except Fault α × State := op.run.run s

/-- The operation succeeds from a state, with this value and this state. -/
def Yields (op : Operation α) (s : State) (a : α) (s' : State) : Prop :=
  op.outcome s = (.ok a, s')

/-- The operation fails from a state, and leaves this one. -/
def Fails (op : Operation α) (s : State) (f : Fault) (s' : State) : Prop :=
  op.outcome s = (.error f, s')

/-- What holds afterwards, of the value or of the fault. -/
def Ensures (op : Operation α) (s : State) (ok : α → State → Prop)
    (failed : Fault → State → Prop) : Prop :=
  match op.outcome s with
  | (.ok a, s') => ok a s'
  | (.error f, s') => failed f s'

/-- A property of the state that holds after a success if it held before, and what a failure comes
to then. -/
def Keeps (P : State → Prop) (Q : Fault → State → Prop) (op : Operation α) : Prop :=
  ∀ s, P s → op.Ensures s (fun _ s' => P s') Q

/-- A property of the state that holds afterwards if it held before, whatever the outcome. -/
abbrev Preserves (P : State → Prop) (op : Operation α) : Prop := Keeps P (fun _ s' => P s') op

/-! ## Success -/

theorem Yields.unique {op : Operation α} {a b : α} {t : State} (h : Yields op s a s')
    (h' : Yields op s b t) : b = a ∧ t = s' := by
  have heq := h.symm.trans h'
  simp only [Prod.mk.injEq, Except.ok.injEq] at heq
  exact ⟨heq.1.symm, heq.2.symm⟩

@[simp] theorem yields_pure {a b : α} : Yields (pure a) s b s' ↔ b = a ∧ s' = s := by
  change ((Except.ok a, s) : Except Fault α × State) = (.ok b, s') ↔ _
  simp [eq_comm]

@[simp] theorem yields_throw {f : Fault} {a : α} :
    Yields (throw f : Operation α) s a s' ↔ False := by
  change ((Except.error f, s) : Except Fault α × State) = (.ok a, s') ↔ _
  simp

@[simp] theorem yields_get {a : State} :
    Yields (get : Operation State) s a s' ↔ a = s ∧ s' = s := by
  change ((Except.ok s, s) : Except Fault State × State) = (.ok a, s') ↔ _
  simp [eq_comm]

@[simp] theorem yields_set {t : State} {u : PUnit} :
    Yields (set t : Operation PUnit) s u s' ↔ s' = t := by
  change ((Except.ok ⟨⟩, t) : Except Fault PUnit × State) = (.ok u, s') ↔ _
  simp [eq_comm]

@[simp] theorem yields_modify {g : State → State} {u : PUnit} :
    Yields (modify g : Operation PUnit) s u s' ↔ s' = g s := by
  change ((Except.ok ⟨⟩, g s) : Except Fault PUnit × State) = (.ok u, s') ↔ _
  simp [eq_comm]

@[simp] theorem yields_modifyGet {g : State → α × State} {a : α} :
    Yields (modifyGet g : Operation α) s a s' ↔ a = (g s).1 ∧ s' = (g s).2 := by
  change ((Except.ok (g s).1, (g s).2) : Except Fault α × State) = (.ok a, s') ↔ _
  simp [eq_comm]

theorem outcome_bind (op : Operation α) (k : α → Operation β) (s : State) :
    (op >>= k).outcome s = match op.outcome s with
      | (.ok a, s₁) => (k a).outcome s₁
      | (.error f, s₁) => (.error f, s₁) := by
  unfold outcome ExceptT.run StateT.run
  simp only [bind, ExceptT.bind, ExceptT.mk, StateT.bind]
  rcases op s with ⟨r, s₁⟩
  cases r <;> rfl

@[simp] theorem yields_bind {op : Operation α} {k : α → Operation β} {b : β} :
    Yields (op >>= k) s b s' ↔ ∃ a s₁, Yields op s a s₁ ∧ Yields (k a) s₁ b s' := by
  unfold Yields
  rw [outcome_bind]
  rcases op.outcome s with ⟨r, s₁⟩
  cases r <;> simp [and_assoc]

theorem yields_get_bind {k : State → Operation β} {b : β} :
    Yields (get >>= k) s b s' ↔ Yields (k s) s b s' := Iff.rfl

theorem yields_modify_bind {g : State → State} {k : PUnit → Operation β} {b : β} :
    Yields (modify g >>= k) s b s' ↔ Yields (k ⟨⟩) (g s) b s' := Iff.rfl

@[simp] theorem yields_map {op : Operation α} {g : α → β} {b : β} :
    Yields (g <$> op) s b s' ↔ ∃ a, Yields op s a s' ∧ b = g a := by
  rw [map_eq_pure_bind, yields_bind]
  constructor
  · rintro ⟨a, s₁, h, hb⟩
    obtain ⟨rfl, rfl⟩ := yields_pure.mp hb
    exact ⟨a, h, rfl⟩
  · rintro ⟨a, h, rfl⟩
    exact ⟨a, s', h, yields_pure.mpr ⟨rfl, rfl⟩⟩

@[simp] theorem yields_discard {op : Operation α} {u : PUnit} :
    Yields (discard op) s u s' ↔ ∃ a, Yields op s a s' := by
  change Yields (Function.const α PUnit.unit <$> op) s u s' ↔ _
  simp

/-! ## Both outcomes -/

section
variable {ok : α → State → Prop} {failed : Fault → State → Prop}

@[simp] theorem ensures_pure {a : α} : Ensures (pure a) s ok failed ↔ ok a s := Iff.rfl

@[simp] theorem ensures_throw {f : Fault} :
    Ensures (throw f : Operation α) s ok failed ↔ failed f s := Iff.rfl

@[simp] theorem ensures_get {ok : State → State → Prop} :
    Ensures (get : Operation State) s ok failed ↔ ok s s := Iff.rfl

@[simp] theorem ensures_set {t : State} {ok : PUnit → State → Prop} :
    Ensures (set t : Operation PUnit) s ok failed ↔ ok ⟨⟩ t := Iff.rfl

@[simp] theorem ensures_modify {g : State → State} {ok : PUnit → State → Prop} :
    Ensures (modify g : Operation PUnit) s ok failed ↔ ok ⟨⟩ (g s) := Iff.rfl

@[simp] theorem ensures_modifyGet {g : State → α × State} :
    Ensures (modifyGet g : Operation α) s ok failed ↔ ok (g s).1 (g s).2 := Iff.rfl

@[simp] theorem ensures_bind {op : Operation α} {k : α → Operation β} {ok : β → State → Prop} :
    Ensures (op >>= k) s ok failed ↔
      Ensures op s (fun a s₁ => Ensures (k a) s₁ ok failed) failed := by
  unfold Ensures
  rw [outcome_bind]
  rcases op.outcome s with ⟨r, s₁⟩
  cases r <;> simp

theorem Ensures.mono {ok' : α → State → Prop} {failed' : Fault → State → Prop}
    {op : Operation α} (h : Ensures op s ok failed) (hok : ∀ a s', ok a s' → ok' a s')
    (hfailed : ∀ f s', failed f s' → failed' f s') : Ensures op s ok' failed' := by
  unfold Ensures at h ⊢
  split at h
  · exact hok _ _ h
  · exact hfailed _ _ h

theorem Ensures.both {ok' : α → State → Prop} {failed' : Fault → State → Prop} {op : Operation α}
    (h : Ensures op s ok failed) (h' : Ensures op s ok' failed') :
    Ensures op s (fun a s' => ok a s' ∧ ok' a s') fun f s' => failed f s' ∧ failed' f s' := by
  unfold Ensures at h h' ⊢
  rcases hr : op.outcome s with ⟨r, s₁⟩
  rw [hr] at h h'
  cases r <;> exact ⟨h, h'⟩

@[simp] theorem ensures_map {op : Operation α} {g : α → β} {ok : β → State → Prop} :
    Ensures (g <$> op) s ok failed ↔ Ensures op s (fun a s' => ok (g a) s') failed := by
  rw [map_eq_pure_bind, ensures_bind]
  simp

@[simp] theorem ensures_discard {op : Operation α} {ok : PUnit → State → Prop} :
    Ensures (discard op) s ok failed ↔ Ensures op s (fun _ s' => ok ⟨⟩ s') failed := by
  change Ensures (Function.const α PUnit.unit <$> op) s ok failed ↔ _
  simp

theorem Ensures.of_yields {op : Operation α} (h : Ensures op s ok failed) {a : α}
    (hy : Yields op s a s') : ok a s' := by
  unfold Ensures at h
  rw [hy] at h
  exact h

theorem Yields.ensures_iff {op : Operation α} {a : α} (hy : Yields op s a s') :
    Ensures op s ok failed ↔ ok a s' := by
  unfold Ensures
  rw [hy]

theorem Ensures.of_fails {op : Operation α} (h : Ensures op s ok failed) {f : Fault}
    (hf : Fails op s f s') : failed f s' := by
  unfold Ensures at h
  rw [hf] at h
  exact h

end

/-! ## Preservation -/

section
variable {P : State → Prop} {Q : Fault → State → Prop}

theorem keeps_pure (a : α) : Keeps P Q (pure a) := fun _ h => h

theorem keeps_throw {f : Fault} (h : ∀ s, P s → Q f s) : Keeps P Q (throw f : Operation α) := h

theorem keeps_get : Keeps P Q (get : Operation State) := fun _ h => h

theorem keeps_modify {g : State → State} (h : ∀ s, P s → P (g s)) :
    Keeps P Q (modify g : Operation PUnit) := h

theorem keeps_modifyGet {g : State → α × State} (h : ∀ s, P s → P (g s).2) :
    Keeps P Q (modifyGet g : Operation α) := h

theorem keeps_bind {op : Operation α} {k : α → Operation β} (h : Keeps P Q op)
    (hk : ∀ a, Keeps P Q (k a)) : Keeps P Q (op >>= k) := fun s hs =>
  ensures_bind.mpr ((h s hs).mono (fun a s' h' => hk a s' h') fun _ _ h' => h')

/-- The state that is read need not be forgotten. -/
theorem keeps_get_bind {k : State → Operation β}
    (hk : ∀ s, P s → (k s).Ensures s (fun _ s' => P s') Q) : Keeps P Q (get >>= k) :=
  fun s hs => ensures_bind.mpr (hk s hs)

theorem keeps_discard {op : Operation α} (h : Keeps P Q op) : Keeps P Q (discard op) :=
  fun s hs => ensures_discard.mpr (h s hs)

theorem keeps_forM {γ : Type} {k : γ → Operation PUnit} (h : ∀ c, Keeps P Q (k c))
    (cs : List γ) : Keeps P Q (cs.forM k) := by
  induction cs with
  | nil => exact keeps_pure _
  | cons c cs ih => exact keeps_bind (h c) fun _ => ih

theorem keeps_foldlM {γ : Type} {k : β → γ → Operation β} (h : ∀ b c, Keeps P Q (k b c))
    (b : β) (cs : List γ) : Keeps P Q (cs.foldlM k b) := by
  induction cs generalizing b with
  | nil => exact keeps_pure _
  | cons c cs ih => exact keeps_bind (h b c) fun b' => ih b'

theorem keeps_mapM {γ : Type} {k : γ → Operation β} (h : ∀ c, Keeps P Q (k c))
    (cs : List γ) : Keeps P Q (cs.mapM k) := by
  induction cs with
  | nil => exact keeps_pure _
  | cons c cs ih =>
    rw [List.mapM_cons]
    exact keeps_bind (h c) fun _ => keeps_bind ih fun _ => keeps_pure _

theorem Keeps.of_yields {op : Operation α} (h : Keeps P Q op) {a : α}
    (hy : Yields op s a s') (hs : P s) : P s' := (h s hs).of_yields hy

theorem Keeps.of_fails {op : Operation α} (h : Keeps P Q op) {f : Fault}
    (hf : Fails op s f s') (hs : P s) : Q f s' := (h s hs).of_fails hf

/-- What is kept is at hand for what is yielded. -/
theorem Keeps.yielding {op : Operation α} {ok : α → State → Prop} (h : Keeps P Q op)
    (hs : P s) (hok : ∀ a s', Yields op s a s' → P s' → ok a s') : op.Ensures s ok Q := by
  have hp := h s hs
  unfold Ensures at hp ⊢
  split at hp
  · rename_i a s' hy
    exact hok a s' hy hp
  · exact hp

/-- What is kept is at hand for what comes next. -/
theorem Keeps.then {op : Operation α} {k : α → Operation β} {ok : β → State → Prop}
    {failed : Fault → State → Prop} (h : Keeps P Q op) (hs : P s)
    (hk : ∀ a s', P s' → (k a).Ensures s' ok failed) (hf : ∀ f s', Q f s' → failed f s') :
    (op >>= k).Ensures s ok failed :=
  ensures_bind.mpr ((h s hs).mono hk hf)

end

/-! ## Notes, reports, output and the current node -/

section
variable {env : Environment} {node : Option NodeId}

/-- The diagnostic of a fault at a node. -/
def diagnosticAt (env : Environment) (severity : Severity) (f : Fault) (node : Option NodeId) :
    Diagnostic := .make severity f (node.bind env.program.locationOf)

/-- The state after a report, with the answer of the listener in the record. -/
def reported (env : Environment) (severity : Severity) (f : Fault) (node : Option NodeId)
    (s : State) : State :=
  s.after (.reported (diagnosticAt env severity f node)
    (env.surroundings.listener s.record (diagnosticAt env severity f node)))

@[simp] theorem ensures_note {n : Note} {ok : Unit → State → Prop} {failed} :
    Ensures (note n) s ok failed ↔ ok () (s.after (.noted n)) := Iff.rfl

theorem ensures_report {severity : Severity} {f : Fault} {ok : Unit → State → Prop} {failed} :
    Ensures (report env severity f node) s ok failed ↔
      match env.surroundings.listener s.record (diagnosticAt env severity f node) with
      | none => ok () (reported env severity f node s)
      | some g => failed g (reported env severity f node s) := by
  simp only [report, happen, ensures_bind, ensures_get, ensures_modify]
  rcases ha : env.surroundings.listener s.record (diagnosticAt env severity f node) with - | g
  · simp only [diagnosticAt] at ha
    simp [ha, reported, diagnosticAt, State.after]
  · simp only [diagnosticAt] at ha
    simp [ha, reported, diagnosticAt, State.after]

theorem ensures_attempt {w : Output.Writing α} {ok : Option α → State → Prop} {failed} :
    Ensures (attempt env node w) s ok failed ↔
      match w.run.run s.outlet with
      | (.ok a, o) => ok (some a) { s with outlet := o }
      | (.error f, o) => Ensures (report env .error f node) { s with outlet := o }
          (fun _ s' => ok none s') failed := by
  simp only [attempt, ensures_bind, ensures_get]
  rcases w.run.run s.outlet with ⟨r, o⟩
  cases r <;> simp

theorem ensures_current {s : State} {n : OpenNode} {ns : List OpenNode} (hn : s.nodes = n :: ns)
    {ok : OpenNode → State → Prop} {failed : Fault → State → Prop} :
    current.Ensures s ok failed ↔ ok n s := by
  rw [current, ensures_bind, ensures_get, hn]
  exact Iff.rfl

theorem ensures_modifyCurrent {s : State} {n : OpenNode} {ns : List OpenNode}
    (hn : s.nodes = n :: ns) {g : OpenNode → OpenNode} {ok : Unit → State → Prop}
    {failed : Fault → State → Prop} :
    (modifyCurrent g).Ensures s ok failed ↔ ok () { s with nodes := g n :: ns } := by
  rw [modifyCurrent, ensures_bind, ensures_get, hn]
  exact Iff.rfl

/-- A report fails only with the answer of the listener, which is then the last happening. -/
theorem answered_report {severity : Severity} {f : Fault} :
    (report env severity f node).Ensures s (fun _ _ => True) fun g s' => s'.record.Answered g := by
  rw [ensures_report]
  split
  · trivial
  · rename_i g hg
    refine ⟨diagnosticAt env severity f node, ?_⟩
    rw [← hg]
    rfl

/-- After a report the state is the same, whether the listener ends the run or not. -/
theorem preserves_report {P : State → Prop} {severity : Severity} {f : Fault}
    (h : ∀ s, P s → P (reported env severity f node s)) :
    Preserves P (report env severity f node) := by
  intro s hs
  rw [ensures_report]
  split <;> exact h s hs

end

end Operation

end StreamTransform
