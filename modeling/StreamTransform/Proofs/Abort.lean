import StreamTransform.Proofs.Faults

/-!
# Ends brought about by the listener

Answering a report with a fault, the listener ends the run. The call in
progress then fails with that fault, and nothing happens any more: neither in
that call nor in a later one. All this holds from every state.
-/

namespace StreamTransform

/-- The fault with which the listener answered a report to end the run. -/
def Happening.ending? : Happening → Option Fault
  | .reported _ answer => answer
  | .sent .. | .resolved .. | .noted _ => none

namespace Record

/-- What happened since, with no answer that ends the run. -/
inductive Continues (earlier : Record) : Record → Prop
  | refl : Continues earlier earlier
  | cons {r : Record} {h : Happening} : h.ending? = none → Continues earlier r →
      Continues earlier (h :: r)

/-- How the record may stand when a fault ends the work: an answer that ends the run comes last,
and it is the fault. -/
inductive EndedBy (f : Fault) (earlier : Record) : Record → Prop
  | raised {r : Record} : Continues earlier r → EndedBy f earlier r
  | answered {r : Record} {d : Diagnostic} : Continues earlier r →
      EndedBy f earlier (.reported d (some f) :: r)

variable {earlier r : Record} {f : Fault}

theorem Continues.trans {r' : Record} (h : Continues earlier r) (h' : Continues r r') :
    Continues earlier r' := by
  induction h' with
  | refl => exact h
  | cons hnone _ ih => exact .cons hnone ih

theorem Continues.endedBy {r' : Record} (h : Continues earlier r) (h' : EndedBy f r r') :
    EndedBy f earlier r' := by
  cases h' with
  | raised hc => exact .raised (h.trans hc)
  | answered hc => exact .answered (h.trans hc)

theorem bearsWrites_continues : BearsWrites (Continues earlier) := by
  intro r h hh hr
  refine .cons ?_ hr
  cases h with
  | reported | noted => cases hh
  | sent | resolved => rfl

theorem Continues.exists_new (h : Continues earlier r) :
    ∃ new, r = new ++ earlier ∧ ∀ happening ∈ new, happening.ending? = none := by
  induction h with
  | refl => exact ⟨[], rfl, by simp⟩
  | @cons r h hnone _ ih =>
    obtain ⟨new, rfl, hnew⟩ := ih
    exact ⟨h :: new, rfl, List.forall_mem_cons.mpr ⟨hnone, hnew⟩⟩

/-- An answer that ends the run can only be the last that has happened since. -/
theorem EndedBy.exists_new (h : EndedBy f earlier r) :
    ∃ new, r = new ++ earlier ∧ ∀ later happening before g, new = later ++ happening :: before →
      happening.ending? = some g → g = f ∧ later = [] := by
  have silent : ∀ {new : Record}, (∀ happening ∈ new, happening.ending? = none) →
      ∀ {later happening before g}, new = later ++ happening :: before →
        happening.ending? = some g → False := by
    rintro new hnew later happening before g rfl hg
    simp [hnew happening (by simp)] at hg
  cases h with
  | raised hc =>
    obtain ⟨new, rfl, hnew⟩ := hc.exists_new
    exact ⟨new, rfl, fun _ _ _ _ hsplit hg => (silent hnew hsplit hg).elim⟩
  | @answered r d hc =>
    obtain ⟨new, rfl, hnew⟩ := hc.exists_new
    refine ⟨.reported d (some f) :: new, rfl, fun later happening before g hsplit hg => ?_⟩
    cases later with
    | nil =>
      obtain ⟨rfl, -⟩ := List.cons.inj hsplit
      exact ⟨(Option.some.inj hg).symm, rfl⟩
    | cons l later => exact (silent hnew (List.cons.inj hsplit).2 hg).elim

end Record

open Record

variable {env : Environment} {earlier : Record}

/-! ## Operations -/

namespace Operation

/-- The run goes on: whatever happened since, no answer ended it. -/
abbrev Onward (earlier : Record) (s : State) : Prop := Continues earlier s.record

/-- The run ends with a fault, which is the last happening if it is an answer. -/
abbrev Ends (earlier : Record) (f : Fault) (s : State) : Prop := EndedBy f earlier s.record

/-- Every report bears it, whatever the fault. -/
theorem keeps_report_onward (severity : Severity) (f : Fault) (node : Option NodeId) :
    Keeps (Onward earlier) (Ends earlier) (report env severity f node) := by
  intro s hs
  rw [ensures_report]
  split
  · rename_i ha
    refine .cons ?_ hs
    exact ha
  · rename_i g ha
    simp only [reported, State.after, ha]
    exact .answered hs

theorem outward_onward (env : Environment) (earlier : Record) :
    Outward env (Onward earlier) (Ends earlier) where
  noted _ := keeps_modify fun _ hs => .cons rfl hs
  reported severity f node _ := keeps_report_onward severity f node
  raised _ _ _ hs := .raised hs
  attempted node _ hw :=
    keeps_attempt_of_bears bearsWrites_continues hw fun f => keeps_report_onward .error f node

theorem steady_onward (env : Environment) (earlier : Record) :
    Steady env (Onward earlier) (Ends earlier) where
  turned hs ho _ _ := by rwa [Onward, State.record, ho]
  stray hs _ _ := .raised hs
  strayReported hs _ _ := (keeps_report_onward _ _ _ _ hs).mono (fun _ _ h => .raised h)
    fun _ _ h => h

theorem keeps_eventAt_onward (depth : Nat) :
    Keeps (Onward earlier) (Ends earlier) (eventAt depth) := by
  refine keeps_bind keeps_get fun s => ?_
  split
  · exact keeps_throw fun _ hs => .raised hs
  · split
    · exact keeps_pure _
    · exact keeps_throw fun _ hs => .raised hs

/-- Variables are kept elsewhere, and one without a frame is only reported. -/
theorem serves_onward (env : Environment) (earlier : Record) (a : Activation) (c : Container) :
    Serves env (Onward earlier) (Ends earlier) a c where
  located := keeps_eventAt_onward _
  declared _ _ f name v := keeps_declareVariable (fun _ _ _ _ hs => hs) f name v
    fun _ _ hs _ _ => keeps_report_onward _ _ _ _ hs
  assigned f name v := (outward_onward env earlier).assignVariable f (fun _ _ _ _ hs => hs) name v

end Operation

open Operation

/-- A task goes on with the record, and what ends it is the last that happens. -/
theorem Task.keeps_onward (env : Environment) (earlier : Record) (t : Task) :
    Keeps (Onward earlier) (Ends earlier) (t.perform env) := by
  have hout := outward_onward env earlier
  have hsteady := steady_onward env earlier
  intro s hs
  refine Task.ensures_perform hout hsteady (fun hs ho => by rwa [Onward, State.record, ho]) hs
    (.raised hs) fun a _ => ?_
  refine hsteady.advance hout.toCalm hs a (fun _ _ _ _ hs => hs)
    (keeps_enterProcedure (fun _ => keeps_report_onward _ _ _) fun _ _ hs => .raised hs)
    fun f fs n _ _ => ?_
  exact hout.execute a f n (fun c _ => serves_onward env earlier a c) s hs

/-! ## Calls -/

/-- How the record may stand after a call. -/
def Outcome.Leaves (earlier : Record) (s : State) : Outcome → Prop
  | .failed f => EndedBy f earlier s.record
  | .completed | .unfinished => Continues earlier s.record

/-- One task after the other goes on with the record, up to the one that fails. -/
theorem leaves_of_carryOut {fuel : Nat} {ts : List Task} {s s' : State} {o : Outcome}
    {earlier : Record} (hs : Continues earlier s.record) (h : carryOut env fuel ts s = (o, s')) :
    o.Leaves earlier s' := by
  induction fuel generalizing ts s with
  | zero =>
    cases ts <;> simp only [carryOut, Prod.mk.injEq] at h <;> obtain ⟨rfl, rfl⟩ := h <;> exact hs
  | succ fuel ih =>
    cases ts with
    | nil =>
      simp only [carryOut, Prod.mk.injEq] at h
      obtain ⟨rfl, rfl⟩ := h
      exact hs
    | cons t rest =>
      have hstep := Task.keeps_onward env earlier t
      simp only [carryOut] at h
      split at h
      case h_1 _ _ hy => exact ih (hstep.of_yields hy hs) h
      case h_2 f s₁ hf =>
        simp only [Prod.mk.injEq] at h
        obtain ⟨rfl, rfl⟩ := h
        exact hstep.of_fails hf hs

variable {fuel : Nat} {i : Input} {s s' : State} {o : Outcome}

theorem leaves_of_receive (h : s.receive env fuel i = (o, s')) : o.Leaves s.record s' := by
  unfold State.receive at h
  split at h
  · obtain ⟨rfl, rfl⟩ := Prod.mk.inj h
    exact .raised .refl
  · rcases hrun : carryOut env fuel i.tasks (i.apply s) with ⟨o₁, after⟩
    rw [hrun] at h
    obtain ⟨rfl, rfl⟩ := Prod.mk.inj h
    have hstart : Continues s.record (i.apply s).record := by cases i <;> exact .refl
    have hleft := leaves_of_carryOut hstart hrun
    cases o₁ <;> exact hleft

/-- The faults with which a call is refused before or after the document. -/
def Fault.isRefusal : Fault → Bool
  | .alreadyStarted | .notStarted | .alreadyEnded => true
  | _ => false

theorem Input.status_of_refusal {status : Status} {f : Fault} (h : i.refusal? status = some f)
    (hf : f.isRefusal = false) : status = .aborted := by
  cases i <;> cases status <;> simp [Input.refusal?] at h <;> subst h <;> first | rfl | cases hf

/-- A call that fails in any other way leaves the run aborted. -/
theorem aborted_of_failed {f : Fault} (h : s.receive env fuel i = (.failed f, s'))
    (hf : i.refusal? s.status = none ∨ f.isRefusal = false) : s'.status = .aborted := by
  unfold State.receive at h
  cases ha : i.refusal? s.status with
  | none =>
    rw [ha] at h
    obtain ⟨ho, rfl⟩ := Prod.mk.inj h
    simp [ho, Input.statusAfter]
  | some g =>
    rw [ha] at h
    obtain ⟨hg, rfl⟩ := Prod.mk.inj h
    obtain rfl := Outcome.failed.inj hg
    exact Input.status_of_refusal ha (hf.resolve_left (by simp [ha]))

/-- The call that sets a parameter, which has no result. -/
def Input.isParameter : Input → Bool
  | .parameter .. => true
  | _ => false

/-- In an aborted run every event is refused. -/
theorem refused_of_aborted (hs : s.status = .aborted) (env : Environment) (fuel : Nat)
    (hp : i.isParameter = false) : ∃ f, s.receive env fuel i = (.failed f, s) := by
  have hrefused : ∃ f, i.refusal? .aborted = some f := by
    cases i with
    | parameter n v => cases hp
    | _ => exact ⟨_, rfl⟩
  obtain ⟨f, hf⟩ := hrefused
  exact ⟨f, by rw [State.receive, hs, hf]⟩

theorem receive_of_aborted (hs : s.status = .aborted) (env : Environment) (fuel : Nat) (i : Input) :
    (s.receive env fuel i).2.status = .aborted ∧ (s.receive env fuel i).2.record = s.record := by
  cases hi : i.isParameter with
  | false =>
    obtain ⟨f, hf⟩ := refused_of_aborted hs env fuel hi
    rw [hf]
    exact ⟨hs, rfl⟩
  | true =>
    obtain ⟨n, v, rfl⟩ : ∃ n v, i = .parameter n v := by
      cases i with
      | parameter n v => exact ⟨n, v, rfl⟩
      | _ => cases hi
    have hset : s.receive env fuel (.parameter n v) =
        (.completed, { s with parameters := s.parameters.insert n v }) := by
      cases fuel <;> rfl
    rw [hset]
    exact ⟨hs, rfl⟩

theorem afterCalls_of_aborted (hs : s.status = .aborted) (env : Environment) (fuel : Nat)
    (is : List Input) :
    (s.afterCalls env fuel is).status = .aborted ∧
      (s.afterCalls env fuel is).record = s.record := by
  induction is generalizing s with
  | nil => exact ⟨hs, rfl⟩
  | cons i is ih =>
    obtain ⟨hstatus, hrecord⟩ := receive_of_aborted hs env fuel i
    obtain ⟨hstatus', hrecord'⟩ := ih hstatus
    exact ⟨hstatus', hrecord'.trans hrecord⟩

/-- An answer that ended the run is the last happening, and the run is aborted. -/
def EndsLast (s : State) : Prop :=
  Continues [] s.record ∨ s.status = .aborted ∧ ∃ f, EndedBy f [] s.record

theorem endsLast_receive (hs : EndsLast s) (env : Environment) (fuel : Nat) (i : Input) :
    EndsLast (s.receive env fuel i).2 := by
  rcases hs with hc | ⟨ha, f, hf⟩
  · rcases hr : s.receive env fuel i with ⟨o, s'⟩
    have hleft := leaves_of_receive hr
    cases o with
    | completed => exact .inl (hc.trans hleft)
    | unfinished => exact .inl (hc.trans hleft)
    | failed f =>
      cases ha : i.refusal? s.status with
      | none => exact .inr ⟨aborted_of_failed hr (.inl ha), f, hc.endedBy hleft⟩
      | some g =>
        rw [State.receive, ha] at hr
        exact .inl ((Prod.mk.inj hr).2 ▸ hc)
  · obtain ⟨hstatus, hrecord⟩ := receive_of_aborted ha env fuel i
    exact .inr ⟨hstatus, f, hrecord ▸ hf⟩

theorem endsLast_afterCalls (hs : EndsLast s) (env : Environment) (fuel : Nat) (is : List Input) :
    EndsLast (s.afterCalls env fuel is) := by
  induction is generalizing s with
  | nil => exact hs
  | cons i is ih => exact ih (endsLast_receive hs env fuel i)

/-- The listener ends the run at once, and no call that fails while it processes is followed by
anything. -/
structure AbortIsFinal (env : Environment) : Prop where
  /-- In the call with an answer that ends the run it is the last that happens, and the call fails
  with exactly that fault. -/
  immediate : ∀ (fuel : Nat) (i : Input) (s : State) (o : Outcome) (s' : State),
    s.receive env fuel i = (o, s') → ∃ new : Record, s'.record = new ++ s.record ∧
      ∀ (later : Record) (h : Happening) (before : Record) (f : Fault),
        new = later ++ h :: before → h.ending? = some f → o = .failed f ∧ later = []
  /-- In the calls after a failure nothing happens, and each but one that only sets a parameter
  fails. -/
  permanent : ∀ (fuel : Nat) (i : Input) (s : State) (f : Fault) (s' : State),
    s.receive env fuel i = (.failed f, s') →
    i.refusal? s.status = none ∨ f.isRefusal = false →
    ∀ (fuel' : Nat) (is : List Input), (s'.afterCalls env fuel' is).record = s'.record ∧
      ∀ (fuel'' : Nat) (j : Input), j.isParameter = false → ∃ g,
        (s'.afterCalls env fuel' is).receive env fuel'' j = (.failed g, s'.afterCalls env fuel' is)
  /-- In a whole sequence of calls nothing happens after such an answer. -/
  last : ∀ (fuel : Nat) (is : List Input) (later : Record) (h : Happening) (before : Record)
    (f : Fault), ((State.initial env.program).afterCalls env fuel is).record = later ++ h :: before →
    h.ending? = some f → later = []

/-- An abort is immediate and permanent, whatever state a call finds. -/
theorem abort_is_final (env : Environment) : AbortIsFinal env where
  immediate fuel i s o s' h := by
    have hleft := leaves_of_receive h
    have quiet : Continues s.record s'.record → ∃ new, s'.record = new ++ s.record ∧
        ∀ later h before f, new = later ++ h :: before → h.ending? = some f →
          o = .failed f ∧ later = [] := by
      intro hc
      obtain ⟨new, hnew, hnone⟩ := hc.exists_new
      refine ⟨new, hnew, fun later h before f hsplit hf => ?_⟩
      simp [hnone h (by simp [hsplit])] at hf
    cases o with
    | completed => exact quiet hleft
    | unfinished => exact quiet hleft
    | failed f =>
      obtain ⟨new, hnew, hlast⟩ := EndedBy.exists_new hleft
      refine ⟨new, hnew, fun later h before g hsplit hg => ?_⟩
      obtain ⟨rfl, hlater⟩ := hlast later h before g hsplit hg
      exact ⟨rfl, hlater⟩
  permanent fuel i s f s' h hf fuel' is := by
    have haborted := aborted_of_failed h hf
    obtain ⟨hstatus, hrecord⟩ := afterCalls_of_aborted haborted env fuel' is
    exact ⟨hrecord, fun fuel'' j hj => refused_of_aborted hstatus env fuel'' hj⟩
  last fuel is later h before f hsplit hf := by
    have hends : EndsLast ((State.initial env.program).afterCalls env fuel is) :=
      endsLast_afterCalls (.inl .refl) env fuel is
    have hended : ∃ g, EndedBy g [] ((State.initial env.program).afterCalls env fuel is).record :=
      hends.elim (fun hc => ⟨f, .raised hc⟩) fun ha => ha.2
    obtain ⟨g, hg⟩ := hended
    obtain ⟨new, hnew, hlast⟩ := hg.exists_new
    rw [List.append_nil] at hnew
    exact (hlast later h before f (hnew.symm.trans hsplit) hf).2

end StreamTransform
