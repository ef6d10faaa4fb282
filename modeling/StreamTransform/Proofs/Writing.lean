import StreamTransform.Proofs.Calm

/-!
# Reasoning about writing

`Ensures` walks through the text of a write, as for operations on the whole
state. What a failing write comes to is told by `Attempted`: its fault is
reported, and the outlet is the one with the report. A fault is answered for if
the latest happening is the refusal that brought it about.
-/

namespace StreamTransform

/-- The fault with which a sink or a resolver refused. -/
def Happening.refusal? : Happening → Option Fault
  | .sent _ _ refusal | .resolved _ refusal => refusal
  | .reported .. | .noted _ => none

namespace Record

/-- A sink or a resolver has just refused with this fault. -/
def Refused (r : Record) (f : Fault) : Prop := ∃ h, r.head? = some h ∧ h.refusal? = some f

/-- Faults of a kind are reported only when a sink or a resolver refused with them. -/
def OnlyRefused (kind : Fault → Prop) (r : Record) : Prop :=
  ∀ d answer earlier, .reported d answer :: earlier <:+ r → kind d.fault → Refused earlier d.fault

theorem onlyRefused_nil (kind : Fault → Prop) : OnlyRefused kind [] := by
  intro d answer earlier hs
  simp at hs

variable {kind : Fault → Prop} {r : Record} {h : Happening}

theorem OnlyRefused.reported (hr : OnlyRefused kind r) {d : Diagnostic} {answer : Option Fault}
    (hd : kind d.fault → Refused r d.fault) : OnlyRefused kind (.reported d answer :: r) := by
  intro d' answer' earlier hs hk
  rcases List.suffix_cons_iff.mp hs with heq | hs
  · obtain ⟨hsame, rfl⟩ := List.cons.inj heq
    obtain ⟨rfl, -⟩ := Happening.reported.inj hsame
    exact hd hk
  · exact hr d' answer' earlier hs hk

theorem OnlyRefused.cons (hr : OnlyRefused kind r) (hh : ∀ d answer, h ≠ .reported d answer) :
    OnlyRefused kind (h :: r) := by
  intro d answer earlier hs hk
  rcases List.suffix_cons_iff.mp hs with heq | hs
  · exact absurd (List.cons.inj heq).1.symm (hh d answer)
  · exact hr d answer earlier hs hk

end Record

namespace Output

/-- The outlet with one more happening. -/
def Outlet.after (o : Outlet) (h : Happening) : Outlet := { o with record := h :: o.record }

@[simp] theorem Outlet.scopes_after (o : Outlet) (h : Happening) :
    (o.after h).scopes = o.scopes := rfl

@[simp] theorem Outlet.record_after (o : Outlet) (h : Happening) :
    (o.after h).record = h :: o.record := rfl

/-- What is not text a sink for text rejects. -/
theorem TextSink.rejected_of_refusal {context : String} {e : Event} {f : Fault}
    (h : refusal? context e = some f) : ∃ what, f = .rejected what context := by
  unfold refusal? at h
  split at h
  all_goals
    first
    | exact ⟨_, (Option.some.inj h).symm⟩
    | cases h

namespace Writing

variable {α β : Type} {o : Outlet} {ok : α → Outlet → Prop} {failed : Fault → Outlet → Prop}

/-- What holds afterwards, of the value or of the fault. -/
def Ensures (w : Writing α) (o : Outlet) (ok : α → Outlet → Prop)
    (failed : Fault → Outlet → Prop) : Prop :=
  match w.run.run o with
  | (.ok a, o') => ok a o'
  | (.error f, o') => failed f o'

@[simp] theorem ensures_pure {a : α} : Ensures (pure a) o ok failed ↔ ok a o := Iff.rfl

@[simp] theorem ensures_throw {f : Fault} :
    Ensures (throw f : Writing α) o ok failed ↔ failed f o := Iff.rfl

@[simp] theorem ensures_get {ok : Outlet → Outlet → Prop} :
    Ensures (get : Writing Outlet) o ok failed ↔ ok o o := Iff.rfl

@[simp] theorem ensures_set {o' : Outlet} {ok : PUnit → Outlet → Prop} :
    Ensures (set o' : Writing PUnit) o ok failed ↔ ok ⟨⟩ o' := Iff.rfl

@[simp] theorem ensures_modify {g : Outlet → Outlet} {ok : PUnit → Outlet → Prop} :
    Ensures (modify g : Writing PUnit) o ok failed ↔ ok ⟨⟩ (g o) := Iff.rfl

@[simp] theorem ensures_bind {w : Writing α} {k : α → Writing β} {ok : β → Outlet → Prop} :
    Ensures (w >>= k) o ok failed ↔
      Ensures w o (fun a o₁ => Ensures (k a) o₁ ok failed) failed := by
  unfold Ensures ExceptT.run StateT.run
  simp only [bind, ExceptT.bind, ExceptT.mk, StateT.bind]
  rcases w o with ⟨r, o₁⟩
  cases r <;> rfl

theorem Ensures.mono {ok' : α → Outlet → Prop} {failed' : Fault → Outlet → Prop} {w : Writing α}
    (h : Ensures w o ok failed) (hok : ∀ a o', ok a o' → ok' a o')
    (hfailed : ∀ f o', failed f o' → failed' f o') : Ensures w o ok' failed' := by
  unfold Ensures at h ⊢
  split at h
  · exact hok _ _ h
  · exact hfailed _ _ h

/-! ## The parts of a write -/

section
variable {s : Surroundings} {ok : Unit → Outlet → Prop}

theorem ensures_send {d : Destination} {e : Event} :
    Ensures (send s d e) o ok failed ↔
      match s.sink d o.record e with
      | some f => failed f (o.after (.sent d e (some f)))
      | none => ok () (o.after (.sent d e none)) := by
  simp only [send, ensures_bind, ensures_get, ensures_set]
  rcases s.sink d o.record e with - | f <;> rfl

theorem ensures_top {ok : Scope → Outlet → Prop} :
    Ensures top o ok failed ↔
      match o.scopes with
      | t :: _ => ok t o
      | [] => failed .noSink o := by
  simp only [top, ensures_bind, ensures_get]
  rcases o.scopes with - | ⟨t, r⟩ <;> rfl

@[simp] theorem ensures_setTop {t : Scope} :
    Ensures (setTop t) o ok failed ↔ ok () { o with scopes := t :: o.scopes.tail } := Iff.rfl

/-- A sink that takes everything takes what is delivered. -/
theorem ensures_deliver_sink {d : Destination} (ha : ∀ r e, s.sink d r e = none) {t : Scope}
    {r : List Scope} (ht : o.scopes = t :: r) (hd : t.target = .sink d) {e : Event} :
    Ensures (deliver s e) o ok failed ↔ ok () (o.after (.sent d e none)) := by
  unfold deliver
  rw [ensures_bind, ensures_top, ht]
  simp only [hd, ensures_send, ha]

theorem ensures_checkClosed {t : Scope} :
    Ensures (checkClosed t) o ok failed ↔
      match t.opened with
      | n :: _ => failed (.outputUnclosed n) o
      | [] => ok () o := by
  unfold checkClosed
  rcases t.opened with - | ⟨n, ns⟩ <;> rfl

@[simp] theorem ensures_push {target : Target} {owner : Nat} :
    Ensures (push target owner) o ok failed ↔
      ok () { o with scopes := .fresh target (some owner) :: o.scopes } := Iff.rfl

theorem ensures_resolve {href : String} {ok : Destination → Outlet → Prop} :
    Ensures (resolve s href) o ok failed ↔
      match s.resolver with
      | none => failed (.noResolver href) o
      | some ask =>
        match ask o.record href with
        | some f => failed f (o.after (.resolved href (some f)))
        | none => ok (.document o.record.documents.length) (o.after (.resolved href none)) := by
  unfold resolve
  rcases s.resolver with - | ask
  · rfl
  · simp only [ensures_bind, ensures_get, ensures_set]
    rcases ask o.record href with - | f <;> rfl

theorem ensures_popOwned {owner : Nat} {ok : Scope → Outlet → Prop} {t : Scope} {r : List Scope}
    (ht : o.scopes = t :: r) (howner : t.owner = some owner) :
    Ensures (popOwned owner) o ok failed ↔ ok t { o with scopes := r } := by
  simp only [popOwned, ensures_bind, ensures_get, ht, if_pos howner, ensures_modify]
  rfl

end

/-! ## Faults that are reported -/

/-- What holds after a write whose fault, if it fails, is reported. -/
def Attempted (w : Writing α) (o : Outlet) (after : Option α → Outlet → Prop) : Prop :=
  w.Ensures o (fun a o' => after (some a) o')
    fun f o' => ∀ d answer, d.fault = f → after none (o'.after (.reported d answer))

theorem Attempted.mono {w : Writing α} {after after' : Option α → Outlet → Prop}
    (h : w.Attempted o after) (ha : ∀ r o', after r o' → after' r o') : w.Attempted o after' :=
  Ensures.mono h (fun _ _ h => ha _ _ h) fun _ _ h d answer hd => ha _ _ (h d answer hd)

/-- The outlet is left with a property, whatever becomes of a write, and a fault of the kind comes
from a refusal. -/
def Leaves (kind : Fault → Prop) (P : Outlet → Prop) (w : Writing α) (o : Outlet) : Prop :=
  w.Ensures o (fun _ => P) fun f o' => P o' ∧ (kind f → o'.record.Refused f)

section
variable {kind : Fault → Prop} {P Q : Outlet → Prop} {w : Writing α}

theorem Leaves.attempted (h : w.Leaves kind P o)
    (hreported : ∀ o' d answer, P o' → (kind d.fault → o'.record.Refused d.fault) →
      P (o'.after (.reported d answer))) : w.Attempted o fun _ => P :=
  Ensures.mono h (fun _ _ hs => hs) fun _ _ hs d answer hd =>
    hreported _ d answer hs.1 (by rw [hd]; exact hs.2)

theorem Leaves.bind {k : α → Writing β} (h : w.Leaves kind P o)
    (hk : ∀ a o', P o' → (k a).Leaves kind P o') : (w >>= k).Leaves kind P o :=
  ensures_bind.mpr (Ensures.mono h (fun a o' hs => hk a o' hs) fun _ _ hs => hs)

end

end Writing

end Output

namespace Operation

open Output

variable {α : Type} {env : Environment} {node : Option NodeId} {s : State}

theorem ensures_attempt_of {w : Writing α} {after : Option α → Outlet → Prop}
    (h : w.Attempted s.outlet after) :
    (attempt env node w).Ensures s (fun r s' => after r s'.outlet ∧ s'.inputSide = s.inputSide)
      (fun _ s' => after none s'.outlet) := by
  rw [ensures_attempt]
  unfold Writing.Attempted Writing.Ensures at h
  split
  · rename_i a o hw
    rw [hw] at h
    exact ⟨h, rfl⟩
  · rename_i f o hw
    rw [hw] at h
    have hreport := h (diagnosticAt env .error f node)
      (env.surroundings.listener o.record (diagnosticAt env .error f node)) rfl
    rw [ensures_report]
    split
    · exact ⟨hreport, rfl⟩
    · exact hreport

end Operation

end StreamTransform
