import StreamTransform.Proofs.Agenda
import StreamTransform.Proofs.Steady
import StreamTransform.Proofs.Writing

/-!
# Faults that are never produced

Some faults tell of bookkeeping gone wrong. No write comes to one of them, and
nothing reports one but the few operations that rely on the bookkeeping. So if
these find what they rely on, no report and no failing call shows such a fault,
unless a sink, the resolver or the listener made it up.
-/

namespace StreamTransform

open Output

variable {kind : Fault → Prop} {env : Environment}

/-- Neither the text of a program nor a write brings about a fault of the kind. -/
def Fault.Inner (kind : Fault → Prop) : Prop :=
  ∀ f, kind f → f.isRoutine = false ∧ f.isStructural = false

theorem Fault.Inner.not_routine (hk : Fault.Inner kind) {f : Fault} (h : f.isRoutine) : ¬ kind f :=
  fun hf => by simp [(hk f hf).1] at h

theorem Fault.Inner.not_structural (hk : Fault.Inner kind) {f : Fault} (h : f.isStructural) :
    ¬ kind f := fun hf => by simp [(hk f hf).2] at h

/-! ## Writes -/

/-- What a write brings about. -/
def Happening.isWritten : Happening → Bool
  | .sent .. | .resolved .. => true
  | .reported .. | .noted _ => false

/-- A property of the record that bears what writes bring about. -/
def Record.BearsWrites (P : Record → Prop) : Prop := ∀ r h, h.isWritten → P r → P (h :: r)

theorem Record.bearsWrites_onlyRefused : BearsWrites (OnlyRefused kind) := by
  intro r h hh hr
  refine hr.cons ?_
  rintro d answer rfl
  cases hh

namespace Output.Writing

/-- A write that comes to no fault of the kind by itself, and keeps a property of the record. -/
def Spares (kind : Fault → Prop) (P : Record → Prop) {α : Type} (w : Writing α) : Prop :=
  ∀ o : Outlet, P o.record → w.Leaves kind (fun o => P o.record) o

variable {P : Record → Prop} {α β : Type} {s : Surroundings}

theorem spares_pure (a : α) : Spares kind P (pure a) := fun _ ho => ho

theorem spares_get : Spares kind P (get : Writing Outlet) := fun _ ho => ho

theorem spares_throw {f : Fault} (hf : ¬ kind f) : Spares kind P (throw f : Writing α) :=
  fun _ ho => ⟨ho, fun hk => absurd hk hf⟩

theorem spares_modify {g : Outlet → Outlet} (hg : ∀ o, (g o).record = o.record) :
    Spares kind P (modify g : Writing PUnit) := fun o ho => by
  change P (g o).record
  rwa [hg o]

theorem spares_bind {w : Writing α} {k : α → Writing β} (h : Spares kind P w)
    (hk : ∀ a, Spares kind P (k a)) : Spares kind P (w >>= k) := fun o ho =>
  (h o ho).bind fun a => hk a

theorem spares_setTop (t : Scope) : Spares kind P (setTop t) := spares_modify fun _ => rfl

theorem spares_push (target : Target) (owner : Nat) : Spares kind P (push target owner) :=
  spares_modify fun _ => rfl

variable (hP : Record.BearsWrites P)

include hP in
theorem spares_send (d : Destination) (e : Output.Event) : Spares kind P (send s d e) := by
  intro o ho
  unfold Leaves
  rw [ensures_send]
  split
  · exact ⟨hP _ _ rfl ho, fun _ => ⟨_, rfl, rfl⟩⟩
  · exact hP _ _ rfl ho

variable (hk : Fault.Inner kind)
include hk

theorem spares_top : Spares kind P top := by
  refine spares_bind spares_get fun o => ?_
  split
  · exact spares_pure _
  · exact spares_throw (hk.not_routine rfl)

include hP in
theorem spares_deliver (e : Output.Event) : Spares kind P (deliver s e) := by
  refine spares_bind (spares_top hk) fun t => ?_
  split
  · exact spares_send hP _ e
  · split
    · rename_i f hf
      obtain ⟨what, rfl⟩ := TextSink.rejected_of_refusal hf
      exact spares_throw (hk.not_routine rfl)
    · exact spares_setTop _

include hP in
theorem spares_flush : Spares kind P (flush s) := by
  refine spares_bind (spares_top hk) fun t => ?_
  split
  · exact spares_bind (spares_setTop _) fun _ => spares_deliver hP hk _
  · exact spares_pure _

theorem spares_checkClosed (t : Scope) : Spares kind P (checkClosed t) := by
  unfold checkClosed
  split
  · exact spares_throw (hk.not_structural rfl)
  · exact spares_pure _

include hP in
theorem spares_emit (e : Output.Event) : Spares kind P (emit s e) := by
  refine spares_bind (spares_flush hP hk) fun _ => spares_bind (spares_top hk) fun t => ?_
  split
  · exact spares_setTop _
  · split
    · split
      · exact spares_bind (spares_setTop _) fun _ => spares_deliver hP hk _
      · exact spares_throw (hk.not_structural rfl)
    · exact spares_throw (hk.not_structural rfl)
  · exact spares_bind (spares_checkClosed hk t) fun _ => spares_deliver hP hk _
  · exact spares_deliver hP hk _

theorem spares_addAttribute (a : Attribute) : Spares kind P (addAttribute a) := by
  refine spares_bind (spares_top hk) fun t => ?_
  split
  · exact spares_setTop _
  · exact spares_throw (hk.not_routine rfl)

theorem spares_popOwned (owner : Nat) : Spares kind P (popOwned owner) := by
  refine spares_bind spares_get fun o => ?_
  split
  · split
    · exact spares_bind (spares_modify fun _ => rfl) fun _ => spares_pure _
    · exact spares_throw (hk.not_structural rfl)
  · exact spares_throw (hk.not_structural rfl)

theorem spares_openCapture (owner : Nat) (context : String) :
    Spares kind P (openCapture owner context) := by
  refine spares_bind spares_get fun o => ?_
  split
  · exact spares_bind (spares_throw (hk.not_routine rfl)) fun _ => spares_push _ _
  · exact spares_push _ _

theorem spares_closeCapture (owner : Nat) : Spares kind P (closeCapture owner) := by
  refine spares_bind (spares_popOwned hk owner) fun t => ?_
  split
  · exact spares_pure _
  · exact spares_throw (hk.not_structural rfl)

include hP in
theorem spares_resolve (href : String) : Spares kind P (resolve s href) := by
  intro o ho
  unfold Leaves
  rw [ensures_resolve]
  split
  · exact ⟨ho, fun hf => absurd hf (hk.not_routine rfl)⟩
  · split
    · exact ⟨hP _ _ rfl ho, fun _ => ⟨_, rfl, rfl⟩⟩
    · exact hP _ _ rfl ho

include hP in
theorem spares_openDocument (owner : Nat) (href : String) :
    Spares kind P (openDocument s owner href) := by
  have opened : ∀ d, Spares kind P (do
      send s d .startDocument
      push (.sink d) owner : Writing Unit) := fun d =>
    spares_bind (spares_send hP _ _) fun _ => spares_push _ _
  refine spares_bind (spares_resolve hP hk href) fun d => spares_bind spares_get fun o => ?_
  split
  · exact spares_bind (spares_throw (hk.not_routine rfl)) fun _ => opened d
  · exact opened d

include hP in
theorem spares_closeDocument (owner : Nat) : Spares kind P (closeDocument s owner) := by
  refine spares_bind (spares_popOwned hk owner) fun t => ?_
  have finished : ∀ d, Spares kind P (do
      checkClosed t
      send s d .endDocument : Writing Unit) := fun d =>
    spares_bind (spares_checkClosed hk t) fun _ => spares_send hP _ _
  split
  · exact spares_checkClosed hk t
  · split
    · exact spares_bind (spares_send hP _ _) fun _ => finished _
    · exact finished _

include hP in
theorem spares_of_isWrite {w : Writing α} (hw : Operation.IsWrite env w) : Spares kind P w := by
  cases hw with
  | emit e => exact spares_emit hP hk e
  | addAttribute a => exact spares_addAttribute hk a
  | openCapture owner context => exact spares_openCapture hk owner context
  | closeCapture owner => exact spares_closeCapture hk owner
  | openDocument owner href => exact spares_openDocument hP hk owner href
  | closeDocument owner => exact spares_closeDocument hP hk owner

end Output.Writing

/-! ## Operations -/

/-- What a failure comes to: a fault of the kind is an answer of the listener. -/
def Excused (kind : Fault → Prop) (f : Fault) (s : State) : Prop :=
  s.record.OnlyRefused kind ∧ (kind f → s.record.Answered f)

namespace Operation

/-- What bears writes bears the attempt to write, if it bears the report of the failure. -/
theorem keeps_attempt_of_bears {P : Record → Prop} {Q : Fault → State → Prop} {α : Type}
    {node : Option NodeId} {w : Writing α} (hP : Record.BearsWrites P) (hw : IsWrite env w)
    (hr : ∀ f, Keeps (fun s => P s.record) Q (report env .error f node)) :
    Keeps (fun s => P s.record) Q (attempt env node w) := by
  intro s hs
  have hkind : Fault.Inner fun _ => False := fun _ h => h.elim
  have hleft := Writing.spares_of_isWrite hP hkind hw s.outlet hs
  unfold Writing.Leaves Writing.Ensures at hleft
  rw [ensures_attempt]
  split
  · rename_i a o ho
    rw [ho] at hleft
    exact hleft
  · rename_i f o ho
    rw [ho] at hleft
    exact hr f _ hleft.1

theorem ensures_report_excused {s : State} {severity : Severity} {f : Fault} {node : Option NodeId}
    (hs : s.record.OnlyRefused kind) (hf : kind f → s.record.Refused f) :
    (report env severity f node).Ensures s (fun _ s' => s'.record.OnlyRefused kind)
      (Excused kind) := by
  have hr : (reported env severity f node s).record.OnlyRefused kind := hs.reported hf
  have told : (report env severity f node).Ensures s (fun _ s' => s'.record.OnlyRefused kind)
      fun _ s' => s'.record.OnlyRefused kind := by
    rw [ensures_report]
    split <;> exact hr
  exact (told.both answered_report).mono (fun _ _ h => h.1) fun _ _ h => ⟨h.1, fun _ => h.2⟩

theorem keeps_report_excused {inv : State → Prop} (hinv : ∀ s o, inv s → inv { s with outlet := o })
    {severity : Severity} {f : Fault} {node : Option NodeId} (hf : ¬ kind f) :
    Keeps (fun s => inv s ∧ s.record.OnlyRefused kind) (Excused kind)
      (report env severity f node) := by
  rintro s ⟨hi, hs⟩
  have hkept : (report env severity f node).Ensures s (fun _ => inv) fun _ => inv :=
    preserves_report (fun s hi => hinv s _ hi) s hi
  exact (hkept.both (ensures_report_excused hs fun hf' => absurd hf' hf)).mono
    (fun _ _ h => h) fun _ _ h => h.2

/-- A property that looks at neither the output nor the record, beside the reports so far, bears
what processing comes to. -/
theorem outward_excused (hk : Fault.Inner kind) {inv : State → Prop}
    (hinv : ∀ s o, inv s → inv { s with outlet := o }) :
    Outward env (fun s => inv s ∧ s.record.OnlyRefused kind) (Excused kind) where
  noted n := keeps_modify fun s hs => ⟨hinv s _ hs.1, hs.2.cons (by simp)⟩
  reported severity f node hf :=
    keeps_report_excused hinv (hk.not_routine (Fault.isRoutine_of_isOrdinary hf))
  raised f s hf hs :=
    ⟨hs.2, fun hf' => absurd hf' (hk.not_routine (Fault.isRoutine_of_isOrdinary hf))⟩
  attempted node w hw := by
    rintro s ⟨hi, hs⟩
    have hspares := Writing.spares_of_isWrite Record.bearsWrites_onlyRefused hk hw s.outlet hs
    unfold Writing.Leaves Writing.Ensures at hspares
    rw [ensures_attempt]
    split
    · rename_i a o ho
      rw [ho] at hspares
      exact ⟨hinv s o hi, hspares⟩
    · rename_i f o ho
      rw [ho] at hspares
      have hkept : (report env .error f node).Ensures { s with outlet := o } (fun _ => inv)
          fun _ => inv := preserves_report (fun s hi => hinv s _ hi) _ (hinv s o hi)
      exact (hkept.both (ensures_report_excused hspares.1 hspares.2)).mono
        (fun _ _ h => h) fun _ _ h => h.2

/-- The node of the activation that executes is found. -/
theorem keeps_eventAt {P : State → Prop} {Q : Fault → State → Prop} {depth : Nat}
    (h : ∀ s, P s → s.nodes ≠ [] ∧ depth = s.depth) : Keeps P Q (eventAt depth) := by
  intro s hs
  obtain ⟨hn, rfl⟩ := h s hs
  cases hd : s.depth with
  | zero => exact absurd (List.eq_nil_of_length_eq_zero hd) hn
  | succ d =>
    have hlt : d < s.path.length := by
      have hlength : s.path.length = s.depth := by simp [State.path, State.depth]
      omega
    simp only [eventAt, ensures_bind, ensures_get, List.getElem?_eq_getElem hlt]
    exact hs

/-- While a node is open no operation misses one. -/
theorem steady_excused :
    Steady env (fun s => s.nodes ≠ [] ∧ s.record.OnlyRefused kind) (Excused kind) where
  turned hs ho _ hn := ⟨hn hs.1, by rw [State.record, ho]; exact hs.2⟩
  stray hs hn _ := absurd hn hs.1
  strayReported hs hn _ := absurd hn hs.1

end Operation

open Operation in
/-- A task with a node open comes to no fault of the kind if its instruction does not. -/
theorem Task.ensures_excused (hk : Fault.Inner kind) {t : Task} {s : State}
    (hs : s.record.OnlyRefused kind) (hn : s.nodes = [] → t = .begin ∨ t = .endOutput)
    (hx : ∀ a f fs n, t = .run a → a.frames = f :: fs → env.program.code[f.cursor]? = some n →
      (execute env a f n).Ensures s (fun _ s' => s'.nodes ≠ [] ∧ s'.record.OnlyRefused kind)
        (Excused kind)) :
    (t.perform env).Ensures s (fun _ s' => s'.record.OnlyRefused kind) (Excused kind) := by
  have hout : Outward env (fun s => True ∧ s.record.OnlyRefused kind) (Excused kind) :=
    outward_excused hk fun _ _ _ => trivial
  have houtward : Outward env (fun s => s.nodes ≠ [] ∧ s.record.OnlyRefused kind) (Excused kind) :=
    outward_excused hk fun _ _ hi => hi
  have hsteady : Steady env (fun s => s.nodes ≠ [] ∧ s.record.OnlyRefused kind) (Excused kind) :=
    steady_excused
  have kept : t ≠ .begin → t ≠ .endOutput →
      Keeps (fun s => s.nodes ≠ [] ∧ s.record.OnlyRefused kind) (Excused kind) (t.perform env) →
      (t.perform env).Ensures s (fun _ s' => s'.record.OnlyRefused kind) (Excused kind) := by
    intro hb he hkeeps
    have hnodes : s.nodes ≠ [] := fun hnil => (hn hnil).elim hb he
    exact (hkeeps s ⟨hnodes, hs⟩).mono (fun _ _ h => h.2) fun _ _ h => h
  cases t with
  | begin =>
    have hbegin := hout.toCalm.begin (hout.toVocal.emit _ _) fun hs ho _ => ⟨trivial, by rw [State.record, ho]; exact hs.2⟩
    exact (hbegin s ⟨trivial, hs⟩).mono (fun _ _ h => h.2) fun _ _ h => h
  | endOutput =>
    have hend := keeps_bind (hout.toVocal.voices.endOutput hout.toCalm) fun _ => keeps_pure ([] : List Task)
    exact (hend s ⟨trivial, hs⟩).mono (fun _ _ h => h.2) fun _ _ h => h
  | dispatch g exclude hasChildren =>
    exact kept (by simp) (by simp) (hsteady.dispatch houtward.toCalm houtward g exclude hasChildren)
  | run a =>
    have hnodes : s.nodes ≠ [] := fun hnil => by simpa using hn hnil
    have hcalled : ∀ a id passed, Keeps (fun s => s.nodes ≠ [] ∧ s.record.OnlyRefused kind)
        (Excused kind) (enterProcedure env a id passed) :=
      keeps_enterProcedure (fun _ => keeps_report_excused (fun _ _ => id) (hk.not_routine rfl))
        fun _ _ hs => ⟨hs.2, fun hf => absurd hf (hk.not_routine rfl)⟩
    exact (hsteady.advance houtward.toCalm ⟨hnodes, hs⟩ a (fun _ _ _ _ hs => hs) hcalled
      fun f fs n ha hc => hx a f fs n rfl ha hc).mono (fun _ _ h => h.2) fun _ _ h => h
  | unwind mode =>
    have popped : (popNode mode).Ensures s (fun _ s' => True ∧ s'.record.OnlyRefused kind)
        (Excused kind) :=
      ensures_popNode (P := fun s => True ∧ s.record.OnlyRefused kind) hout.toCalm
        (fun hs ho _ => ⟨trivial, by rw [State.record, ho]; exact hs.2⟩)
        (fun hnil => by simpa using hn hnil) ⟨trivial, hs⟩
    have hnodes : s.nodes ≠ [] := fun hnil => by simpa using hn hnil
    exact ensures_unwind hsteady houtward.toVocal.voices ⟨hnodes, hs⟩
      (popped.mono (fun _ _ h => h.2) fun _ _ h => h) fun _ _ h => h.2
  | _ =>
    exact kept (by simp) (by simp) (Task.keeps_perform houtward.toCalm hsteady _ rfl
      fun _ _ _ hs => hs)

/-! ## Calls -/

/-- No report and no failing call shows a fault of the kind, unless a sink or the resolver refused
with it or the listener answered with it. -/
structure NeverProduced (env : Environment) (kind : Fault → Prop) : Prop where
  reported : ∀ fuel is,
    ((State.initial env.program).afterCalls env fuel is).record.OnlyRefused kind
  returned : ∀ fuel is i f s,
    ((State.initial env.program).afterCalls env fuel is).receive env fuel i = (.failed f, s) →
    kind f → s.record.Answered f

theorem Input.refusal?_isRoutine {status : Status} {i : Input} {f : Fault}
    (h : i.refusal? status = some f) : f.isRoutine := by
  cases i <;> cases status <;> simp [Input.refusal?] at h <;> subst h <;> rfl

/-- It is enough that no task comes to such a fault at any moment. -/
theorem neverProduced_of_tasks (hk : Fault.Inner kind)
    (h : ∀ i t rest s, Reached env ⟨i, t :: rest, s⟩ → s.record.OnlyRefused kind →
      (t.perform env).Ensures s (fun _ s' => s'.record.OnlyRefused kind) (Excused kind)) :
    NeverProduced env kind := by
  have hm : ∀ m, Reached env m → m.state.record.OnlyRefused kind := by
    intro m hr
    induction hr with
    | first i _ => cases i <;> exact Record.onlyRefused_nil _
    | next hr hn ih =>
      cases hn with
      | task hy => exact (h _ _ _ _ hr ih).of_yields hy
      | call i _ _ => cases i <;> exact ih
  have hfails : ∀ i t rest s f s', Reached env ⟨i, t :: rest, s⟩ → (t.perform env).Fails s f s' →
      Excused kind f s' := fun i t rest s f s' hr hf => (h i t rest s hr (hm _ hr)).of_fails hf
  constructor
  · intro fuel is
    exact outlet_afterCalls (P := fun o => o.record.OnlyRefused kind)
      (Record.onlyRefused_nil _) hm
      (fun i t rest s f s' hr hf => (hfails i t rest s f s' hr hf).1) is
  · intro fuel is i f s hc hf
    unfold State.receive at hc
    split at hc
    · rename_i g hg
      obtain ⟨hg', -⟩ := Prod.mk.inj hc
      obtain rfl := Outcome.failed.inj hg'
      exact absurd hf (hk.not_routine (Input.refusal?_isRoutine hg))
    · rename_i ha
      rcases hrun : carryOut env fuel i.tasks
        (i.apply ((State.initial env.program).afterCalls env fuel is)) with ⟨o, after⟩
      rw [hrun] at hc
      obtain ⟨rfl, rfl⟩ := Prod.mk.inj hc
      rcases between_or_aborted fuel is (.inl (.inl rfl)) with hb | haborted
      · obtain ⟨t, rest, s₁, hr, hfail⟩ := reached_of_failed (hb.reached_take ha) hrun
        exact (hfails _ _ _ _ _ _ hr hfail).2 hf
      · cases i with
        | parameter n v => simp [Input.tasks, carryOut] at hrun
        | _ => simp [haborted, Input.refusal?] at ha

end StreamTransform
