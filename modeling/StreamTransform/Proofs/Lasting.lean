import StreamTransform.Proofs.Run
import StreamTransform.Proofs.Bookkeeping
import StreamTransform.Proofs.Steady
import StreamTransform.Proofs.Writing

/-!
# Properties of the outlet that last

Whatever a program does and whatever it is called with, its outlet only ever gets notes, reports
and writes, and the mark of the start of a document is written only to scopes that nothing was
written to. So a property of the outlet that bears these holds after all calls.
-/

namespace StreamTransform

open Output Operation

/-- A write in the middle of a document. -/
inductive IsInner (env : Environment) : {α : Type} → Writing α → Prop
  | emit {e : Output.Event} : e ≠ .startDocument → IsInner env (Writing.emit env.surroundings e)
  | addAttribute (a : Attribute) : IsInner env (Writing.addAttribute a)
  | openCapture (owner : Nat) (context : String) : IsInner env (Writing.openCapture owner context)
  | closeCapture (owner : Nat) : IsInner env (Writing.closeCapture owner)
  | openDocument (owner : Nat) (href : String) :
      IsInner env (Writing.openDocument env.surroundings owner href)
  | closeDocument (owner : Nat) : IsInner env (Writing.closeDocument env.surroundings owner)

/-- A property that the outlet has at first, and that bears what comes to it. A fault of a write
is reported before anything else happens. -/
structure Lasting (env : Environment) (P : Outlet → Prop) : Prop where
  initial : P .initial
  noted : ∀ o n, P o → P (o.after (.noted n))
  reported : ∀ o d answer, P o → P (o.after (.reported d answer))
  written : ∀ {α : Type} {w : Writing α}, IsInner env w → ∀ o, P o → w.Attempted o fun _ => P
  started : ∀ o, o.scopes = Outlet.initial.scopes → P o →
    (Writing.emit env.surroundings .startDocument).Attempted o fun _ => P

/-! ## Steps -/

namespace Lasting

variable {env : Environment} {P : Outlet → Prop}

theorem calm (h : Lasting env P) :
    Calm env (fun s => P s.outlet) fun _ s => P s.outlet where
  noted n := keeps_modify fun s hs => h.noted s.outlet n hs
  reported _ _ _ _ := preserves_report fun s hs => h.reported s.outlet _ _ hs
  raised _ _ _ hs := hs

theorem keeps_attempt (h : Lasting env P) {α : Type} (node : Option NodeId) {w : Writing α}
    (hw : IsInner env w) :
    Keeps (fun s => P s.outlet) (fun _ s => P s.outlet) (attempt env node w) := fun s hs =>
  (ensures_attempt_of (h.written hw s.outlet hs)).mono (fun _ _ h => h.1) fun _ _ h => h

theorem voices (h : Lasting env P) :
    Voices env (fun _ _ => True) (fun s => P s.outlet) fun _ s => P s.outlet where
  toMuted := h.calm.toMuted
  emit e node he := by
    have hinner : e ≠ .startDocument := by
      rintro rfl
      exact he
    exact keeps_bind (h.calm.noted _) fun _ => keeps_discard (h.keeps_attempt node (.emit hinner))
  addAttribute a node := keeps_discard (h.keeps_attempt node (.addAttribute a))
  openCapture owner context node := h.keeps_attempt node (.openCapture owner context)
  closeCapture owner node := h.keeps_attempt node (.closeCapture owner)
  openDocument owner href node := h.keeps_attempt node (.openDocument owner href)
  closeDocument owner node := h.keeps_attempt node (.closeDocument owner)

theorem steady (h : Lasting env P) :
    Steady env (fun s => P s.outlet) fun _ s => P s.outlet where
  turned hs ho _ _ := ho ▸ hs
  stray hs _ _ := hs
  strayReported hs _ _ := preserves_report (fun s hs => h.reported s.outlet _ _ hs) _ hs

theorem entered (h : Lasting env P) (a : Activation) (id : ProcedureId) (passed : Bindings) :
    Keeps (fun s => P s.outlet) (fun _ s => P s.outlet) (enterProcedure env a id passed) :=
  keeps_enterProcedure (fun _ => preserves_report fun s hs => h.reported s.outlet _ _ hs)
    (fun _ _ hs => hs) a id passed

theorem execute (h : Lasting env P) (a : Activation) (f : Frame) (n : Node) :
    Keeps (fun s => P s.outlet) (fun _ s => P s.outlet) (execute env a f n) :=
  h.voices.execute a f n
    (fun _ _ =>
      { located := preserves_eventAt _
        declared := fun _ _ f name v => keeps_declareVariable (fun _ _ _ _ hs => hs) f name v
          fun s _ hs _ _ => preserves_report (fun s hs => h.reported s.outlet _ _ hs) s hs
        assigned := fun f name v => h.calm.assignVariable f (fun _ _ _ _ hs => hs) name v })
    fun _ _ => ⟨fun _ _ _ _ _ => trivial, fun _ _ _ _ _ _ _ _ => trivial⟩

/-- The start of the document finds the scopes as they were at first. -/
theorem begin (h : Lasting env P) {s : State} (hs : P s.outlet)
    (hscopes : s.outlet.scopes = Outlet.initial.scopes) :
    (begin env).Ensures s (fun _ s' => P s'.outlet) fun _ s' => P s'.outlet := by
  have opened : Keeps (fun s => P s.outlet) (fun _ s => P s.outlet) (do
      let root ← newEvent .root
      enterNode (.fresh root)
      pure ((List.range env.program.groups.size).map Task.enterGroup
        ++ [.dispatch ⟨Program.rootGroup, []⟩ [] true])) :=
    keeps_bind (h.steady.newEvent _) fun _ => keeps_bind (h.steady.enterNode h.calm _) fun _ =>
      keeps_pure _
  rw [Operation.begin, ensures_bind, ensures_note, ensures_bind, emit, ensures_bind, ensures_note,
    ensures_discard]
  let s₁ := (s.after (.noted .startDocument)).after (.noted (.emit .startDocument))
  have hstarted := h.started s₁.outlet hscopes (h.noted _ _ (h.noted _ _ hs))
  exact (ensures_attempt_of hstarted).mono (fun _ s' hs' => opened s' hs'.1) fun _ _ h => h

theorem perform (h : Lasting env P) {t : Task} {s : State} (hs : P s.outlet)
    (hbegin : t = .begin → s.outlet.scopes = Outlet.initial.scopes) :
    (t.perform env).Ensures s (fun _ s' => P s'.outlet) fun _ s' => P s'.outlet := by
  have turned : ∀ {x x' : State}, P x.outlet → x'.outlet = x.outlet → x'.frames = x.frames →
      P x'.outlet := fun hx ho _ => ho ▸ hx
  cases t with
  | begin => exact h.begin hs (hbegin rfl)
  | endOutput =>
    exact keeps_bind (h.voices.endOutput h.calm) (fun _ => keeps_pure _) s hs
  | dispatch g exclude hasChildren =>
    refine keeps_bind (h.calm.selectTemplate _ _ _) (fun found => ?_) s hs
    cases found with
    | some f => exact h.steady.startTemplate h.calm f _ _
    | none =>
      exact keeps_bind (fun x hx => h.steady.ensures_builtIn h.voices g hasChildren hx
        fun _ _ _ _ _ _ => trivial) fun _ => keeps_pure _
  | run a =>
    exact h.steady.advance h.calm hs a (fun _ _ _ _ hs => hs) h.entered fun f _ n _ _ =>
      h.execute a f n s hs
  | unwind mode =>
    have hpopped : (popNode mode).Ensures s _ _ :=
      ensures_popNode h.calm turned (fun _ => hs) hs
    exact ensures_unwind h.steady h.voices hs hpopped fun _ _ h => h
  | _ => exact Task.keeps_perform h.calm h.steady _ rfl (fun _ _ _ hs => hs) s hs

end Lasting

/-! ## Runs -/

section
variable {env : Environment} {P : Outlet → Prop} {m : Moment}

/-- Nothing was written before the document starts. -/
theorem outlet_unstarted (hm : Reached env m)
    (h : m.state.status = .notStarted ∨ .begin ∈ m.agenda) : m.state.outlet = .initial := by
  induction hm with
  | first i _ => cases i <;> rfl
  | @next m m' hm hn ih =>
    have hsound := sound_of_reached hm
    cases hn with
    | @task i t rest ts s s' hy =>
      have hturn := Turn.of_yields hy
      rcases h with hs | hb
      · have hrunning : s.status = .running := hsound.started (List.cons_ne_nil t rest)
        have hstatus : s'.status = s.status := hturn.status_eq
        rw [hstatus, hrunning] at hs
        cases hs
      · exact absurd hb (hsound.begin_notMem hturn)
    | call i hd ha =>
      have hsettled : m.settled.status = .notStarted := by
        cases i with
        | startDocument => cases hs : m.settled.status <;> simp_all [Input.refusal?]
        | parameter n v => simpa [Moment.take, Input.tasks, Input.apply] using h
        | _ => cases hs : m.settled.status <;>
            simp_all [Input.refusal?, Moment.take, Input.tasks, Input.apply]
      obtain ⟨j, ts, s⟩ := m
      have hstatus : s.status = .notStarted := by
        cases j <;> first | exact hsettled | simp [Moment.settled, Input.statusAfter] at hsettled
      have hold := ih (.inl hstatus)
      cases i <;> exact hold

/-- At every moment the outlet has the property. -/
theorem Lasting.of_reached (h : Lasting env P) (hm : Reached env m) : P m.state.outlet := by
  induction hm with
  | first i _ => cases i <;> exact h.initial
  | next hm hn ih =>
    cases hn with
    | task hy =>
      refine (h.perform ih fun hb => ?_).of_yields hy
      subst hb
      rw [outlet_unstarted hm (.inr List.mem_cons_self)]
    | call i _ _ => cases i <;> exact ih

/-- Whatever becomes of the calls, the outlet has the property after them. -/
theorem Lasting.afterCalls (h : Lasting env P) (fuel : Nat) (is : List Input) :
    P ((State.initial env.program).afterCalls env fuel is).outlet := by
  refine outlet_afterCalls h.initial (fun m hm => h.of_reached hm) ?_ is
  intro i t rest s f s' hm hf
  refine (h.perform (h.of_reached hm) fun hb => ?_).of_fails hf
  subst hb
  rw [outlet_unstarted hm (.inr List.mem_cons_self)]

end

end StreamTransform
