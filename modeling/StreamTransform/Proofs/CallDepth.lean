import StreamTransform.Proofs.Conduct

/-!
# How deep calls nest

An activation has its own body and those of the procedures that it has called and
not returned from. The calls under way are counted by its deeds: a call adds one,
the end of a body takes one away, and nothing else counts, neither loops nor what
happens while it is suspended. The limit is compared with all bodies, the own one
among them: with a limit of `n + 1` calls nest up to `n` deep, and with a limit of
0 none is possible, as with a limit of 1.
-/

namespace StreamTransform

/-- The calls under way after a deed. The end of its own body takes none away. -/
def Deed.nesting (d : Deed) (k : Nat) : Nat :=
  match d.flow with
  | .call .. => k + 1
  | .done => k - 1
  | .on _ | .walk .. => k

/-- The procedures that an activation has called by its deeds and not returned from. -/
def callsUnderWay (ds : List Deed) : Nat := ds.foldl (fun k d => d.nesting k) 0

/-- `Performs env below m₁ ds m`: from one moment to the other, the deeds of the activation on top
of others are `ds`. All else that happens is done by activations on top of it, or by none. -/
inductive Performs (env : Environment) (below : List Entry) (m₁ : Moment) :
    List Deed → Moment → Prop
  | start : Performs env below m₁ [] m₁
  | own {ds : List Deed} {d : Deed} {path : List Event} {m m' : Moment} :
      Performs env below m₁ ds m → d.Occurs env m m' → m.live = ⟨d.activation, path⟩ :: below →
      Performs env below m₁ (ds ++ [d]) m'
  | other {ds : List Deed} {e : Entry} {m m' : Moment} : Performs env below m₁ ds m →
      Next env m m' → e :: below <:+ m.live →
      (∀ d : Deed, d.Occurs env m m' → ∀ path, m.live ≠ ⟨d.activation, path⟩ :: below) →
      Performs env below m₁ ds m'

/-- The deed is what the moment comes to next, or would come to if it is a call. -/
structure Deed.IsNext (env : Environment) (d : Deed) (m : Moment) : Prop where
  runs : ∃ rest, m.agenda = .run d.activation :: rest
  before : d.before = m.state
  innermost : ∃ fs, d.activation.frames = d.frame :: fs
  happens : d.Happens env

/-- The deed is a call that comes next, with so many calls of its activation under way. -/
structure Deed.CallsAt (env : Environment) (d : Deed) (k : Nat) (m : Moment) : Prop where
  calls : d.calls
  next : d.IsNext env m
  counted : ∃ m₁ e₁ ds below path, Reached env m₁ ∧ m₁.live = e₁ :: below ∧
    e₁.activation.IsFresh env.program ∧ Performs env below m₁ ds m ∧
    m.live = ⟨d.activation, path⟩ :: below ∧ callsUnderWay ds = k

theorem callsUnderWay_concat (ds : List Deed) (d : Deed) :
    callsUnderWay (ds ++ [d]) = d.nesting (callsUnderWay ds) := by
  simp [callsUnderWay, List.foldl_append]

/-! ## Calls -/

/-- If control goes to a procedure, the instruction calls one, and it is one of the program. -/
def Flow.IsCallOf (p : Program) (n : Node) : Flow → Prop
  | .call _ id _ =>
    (∃ name d, n.instruction = .act (.call name d)) ∧ (p.procedures[id]?).isSome
  | .on _ | .walk .. | .done => True

namespace Operation

variable {env : Environment} {a : Activation} {f : Frame} {n : Node}

theorem isCallOf_callProcedure {name : String} {d : Delegation}
    (hn : n.instruction = .act (.call name d)) :
    Gives (Flow.IsCallOf env.program n) (callProcedure env a f name d) := by
  refine gives_bind fun g => ?_
  split
  · exact gives_pure trivial
  · split
    · exact gives_bind fun _ => gives_pure trivial
    · rename_i procedure hfound
      have hnamed : env.program.isProcedureNamed name procedure := List.find?_some hfound
      refine gives_bind fun _ => gives_pure ⟨⟨name, d, hn⟩, ?_⟩
      cases hq : env.program.procedures[procedure]? with
      | none => simp [Program.isProcedureNamed, hq] at hnamed
      | some q => rfl

theorem isCallOf_requestWalk (w : Walk) (d : Delegation) :
    Gives (Flow.IsCallOf env.program n) (requestWalk env a f w d) := by
  unfold requestWalk
  split
  · exact gives_bind fun _ => gives_pure trivial
  · split
    · exact gives_bind fun _ => gives_pure trivial
    · refine gives_bind fun g => ?_
      split
      · exact gives_pure trivial
      · exact gives_bind fun _ => gives_pure trivial

theorem isCallOf_execute (n : Node) :
    Gives (Flow.IsCallOf env.program n) (execute env a f n) :=
  gives_execute (fun _ => trivial) n trivial fun action hn =>
    gives_act (fun _ => trivial) action isCallOf_requestWalk fun name d hcall =>
      isCallOf_callProcedure (hn.trans (by rw [hcall]))

end Operation

theorem Deed.Happens.isCallOf {env : Environment} {d : Deed} (h : d.Happens env) :
    d.flow.IsCallOf env.program d.node := Operation.isCallOf_execute d.node _ _ _ h.yields

/-! ## Counting -/

section
variable {env : Environment} {m₁ m m' : Moment} {e e₁ : Entry} {below : List Entry}
  {ds : List Deed} {d : Deed}

/-- A deed changes the number of bodies as it changes that of calls. -/
theorem Deed.Happens.length_framesAfter (h : d.Happens env) {fs : List Frame} {k : Nat}
    (hk : fs.length = k) :
    (d.framesAfter env.program fs).length = d.nesting k + 1 ∨
      d.framesAfter env.program fs = [] ∧ d.nesting k = 0 := by
  unfold framesAfter nesting
  cases hf : d.flow with
  | done =>
    cases fs with
    | nil => exact .inr ⟨rfl, by simp [← hk]⟩
    | cons f fs => exact .inl (by simp [← hk])
  | on f | walk f r => exact .inl (by simp [hk])
  | call f id passed =>
    have hcall := h.isCallOf
    rw [hf] at hcall
    obtain ⟨q, hq⟩ := Option.isSome_iff_exists.mp hcall.2
    exact .inl (by simp [hq, hk])

theorem Performs.reached (h : Performs env below m₁ ds m) (hm : Reached env m₁) :
    Reached env m := by
  induction h with
  | start => exact hm
  | own _ ho _ ih => exact ih.next ho.next
  | other _ hn _ _ ih => exact ih.next hn

/-- An activation under way was started as it is at first, and has done its deeds since. -/
theorem exists_performs (hw : env.program.WellNested) (hm : Reached env m)
    (he : e :: below <:+ m.live) :
    ∃ m₁ e₁ ds, Reached env m₁ ∧ m₁.live = e₁ :: below ∧ e₁.activation.IsFresh env.program ∧
      Performs env below m₁ ds m := by
  induction hm generalizing e with
  | first i _ => simp [live_take_initial] at he
  | @next m m' hm hn ih =>
    rcases (entry_move hw hm hn).origin he with ⟨e₀, he₀⟩ | ⟨hlive, hfresh⟩
    · obtain ⟨m₁, e₁, ds, hm₁, hlive₁, hfresh, hp⟩ := ih he₀
      by_cases hown : ∃ d : Deed, d.Occurs env m m' ∧ ∃ path, m.live = ⟨d.activation, path⟩ :: below
      · obtain ⟨d, ho, path, hd⟩ := hown
        exact ⟨m₁, e₁, _, hm₁, hlive₁, hfresh, hp.own ho hd⟩
      · exact ⟨m₁, e₁, ds, hm₁, hlive₁, hfresh,
          hp.other hn he₀ fun d ho path hd => hown ⟨d, ho, path, hd⟩⟩
    · exact ⟨m', e, [], hm.next hn, hlive, hfresh, .start⟩

/-- Besides its own body, while this is not ended, an activation has those of the calls under
way. -/
def Activation.Nests (a : Activation) (k : Nat) : Prop :=
  a.frames.length = k + 1 ∨ a.frames = [] ∧ k = 0

theorem Activation.Nests.length_eq {a : Activation} {f : Frame} {fs : List Frame} {k : Nat}
    (h : a.Nests k) (hf : a.frames = f :: fs) : fs.length = k := by
  rcases h with hlength | ⟨hnone, -⟩
  · rw [hf, List.length_cons] at hlength
    exact Nat.succ.inj hlength
  · rw [hf] at hnone
    cases hnone

theorem Performs.nests (hw : env.program.WellNested) (hm : Reached env m₁)
    (hlive : m₁.live = e₁ :: below) (hfresh : e₁.activation.IsFresh env.program)
    (h : Performs env below m₁ ds m) :
    (∃ e, e :: below <:+ m.live ∧ e.activation.Nests (callsUnderWay ds)) ∨ m.live = below := by
  induction h with
  | start =>
    refine .inl ⟨e₁, hlive ▸ List.suffix_refl _, ?_⟩
    rcases hfresh with hnone | ⟨g, b, passed, -, hone⟩
    · exact .inr ⟨hnone, rfl⟩
    · exact .inl (by rw [hone]; rfl)
  | @own ds d path m m' hp ho hd ih =>
    rcases ih with ⟨e, he, hnests⟩ | hends
    · rw [hd] at he
      obtain rfl := head_eq_of_suffix he
      obtain ⟨path', l, a', fs, hlive', hframes, hafter, hframes', -⟩ := ho.live (hp.reached hm)
      obtain ⟨-, rfl⟩ := List.cons.inj (hd.symm.trans hlive')
      refine .inl ⟨⟨a', path'⟩, hafter ▸ List.suffix_refl _, ?_⟩
      rw [Activation.Nests, hframes', callsUnderWay_concat]
      exact ho.happens.length_framesAfter (hnests.length_eq hframes)
    · rw [hd] at hends
      exact absurd hends (ne_of_suffix (List.suffix_refl _))
  | @other ds e₀ m m' hp hn he₀ hothers ih =>
    rcases ih with ⟨e, he, hnests⟩ | hends
    · rcases (entry_move hw (hp.reached hm) hn).keeps he hothers with ⟨e', he', hframes⟩ | hends
      · exact .inl ⟨e', he', by rwa [Activation.Nests, hframes]⟩
      · exact .inr hends
    · exact absurd hends (ne_of_suffix he₀)

/-! ## The limit -/

/-- The deed that comes next has a number of calls under way. -/
theorem Deed.IsNext.callsAt (hw : env.program.WellNested) (hm : Reached env m)
    (h : d.IsNext env m) (hc : d.calls) :
    ∃ k, d.CallsAt env k m := by
  obtain ⟨rest, hd⟩ := h.runs
  have hlive : m.live = ⟨d.activation, m.state.nodes.map OpenNode.event⟩ ::
      live rest m.state.nodes := by rw [Moment.live, hd, live_run]
  have htop : ⟨d.activation, m.state.nodes.map OpenNode.event⟩ :: live rest m.state.nodes <:+
      m.live := ⟨[], hlive.symm⟩
  obtain ⟨m₁, e₁, ds, hm₁, hlive₁, hfresh, hp⟩ := exists_performs hw hm htop
  exact ⟨_, hc, h, m₁, e₁, ds, _, _, hm₁, hlive₁, hfresh, hp, hlive, rfl⟩

theorem Deed.CallsAt.length_frames (hw : env.program.WellNested) {k : Nat}
    (h : d.CallsAt env k m) : d.activation.frames.length = k + 1 := by
  obtain ⟨m₁, e₁, ds, below, path, hm₁, hlive₁, hfresh, hp, hlive, rfl⟩ := h.counted
  obtain ⟨fs, hframes⟩ := h.next.innermost
  rcases hp.nests hw hm₁ hlive₁ hfresh with ⟨e, he, hnests⟩ | hends
  · rw [hlive] at he
    obtain rfl := head_eq_of_suffix he
    rw [hframes, List.length_cons, hnests.length_eq hframes]
  · rw [hlive] at hends
    exact absurd hends (ne_of_suffix (List.suffix_refl _))

/-- A call is compared with the limit before the procedure is entered. -/
theorem Deed.IsNext.ensures_call (h : d.IsNext env m) (hc : d.calls)
    {ok : List Task → State → Prop} {failed : Fault → State → Prop} :
    (Operation.advance env d.activation).Ensures m.state ok failed ↔
      if env.configuration.recursionLimit ≤ d.activation.frames.length then
        (Operation.fatal env (.recursionLimit env.configuration.recursionLimit) :
          Operation (List Task)).Ensures d.after ok failed
      else
        ok [.run { d.activation with
          frames := d.framesAfter env.program d.activation.frames.tail }] d.after := by
  obtain ⟨fs, hframes⟩ := h.innermost
  have hyields := h.happens.yields
  rw [h.before] at hyields
  unfold Operation.advance
  simp only [hframes, h.happens.node, List.tail_cons]
  rw [Operation.ensures_bind, hyields.ensures_iff]
  cases hf : d.flow with
  | call g id passed =>
    have hcall := h.happens.isCallOf
    rw [hf] at hcall
    obtain ⟨q, hq⟩ := Option.isSome_iff_exists.mp hcall.2
    simp only [Operation.enterProcedure, List.length_cons, hq, Deed.framesAfter, hf]
    split <;> rfl
  | on | walk | done => simp [Deed.calls, hf] at hc

/-- Below the limit the procedure is entered. -/
theorem Deed.CallsAt.entered (hw : env.program.WellNested) {k : Nat} (h : d.CallsAt env k m)
    (hk : k + 1 < env.configuration.recursionLimit) :
    ∃ m', d.Occurs env m m' ∧ m'.state = d.after := by
  obtain ⟨rest, hd⟩ := h.next.runs
  obtain ⟨i, agenda, s⟩ := m
  obtain rfl : agenda = .run d.activation :: rest := hd
  have hbelow : ¬ env.configuration.recursionLimit ≤ d.activation.frames.length := by
    rw [h.length_frames hw]
    omega
  have hentered : (Operation.advance env d.activation).Ensures s (fun _ s' => s' = d.after)
      fun _ _ => False := (h.next.ensures_call h.calls).mpr (by rw [if_neg hbelow])
  unfold Operation.Ensures at hentered
  split at hentered
  · rename_i ts s' hy
    exact ⟨⟨i, ts ++ rest, s'⟩,
      ⟨h.next.runs, h.next.innermost, h.next.happens, h.next.before, .task hy⟩, hentered⟩
  · exact hentered.elim

/-- From the limit on the call fails, and all that happens is its report. -/
theorem Deed.CallsAt.refused (hw : env.program.WellNested) {k : Nat} (h : d.CallsAt env k m)
    (hk : env.configuration.recursionLimit ≤ k + 1) :
    (Operation.advance env d.activation).Ensures m.state (fun _ _ => False) fun _ s' =>
      s' = Operation.reported env .fatal (.recursionLimit env.configuration.recursionLimit) none
        d.after := by
  have hbeyond : env.configuration.recursionLimit ≤ d.activation.frames.length := by
    rwa [h.length_frames hw]
  refine (h.next.ensures_call h.calls).mpr ?_
  rw [if_pos hbeyond, Operation.fatal, Operation.ensures_bind, Operation.ensures_report]
  split <;> rfl

end

/-! ## Reports of the limit -/

/-- A fatal report that calls are nested too deep. -/
def Happening.isExcess : Happening → Bool
  | .reported d _ => d.severity == .fatal && d.fault.isExcess
  | .sent .. | .resolved .. | .noted _ => false

/-- Such a report is made of a call only that comes next, and with calls under way up to the
limit. -/
def Record.ReportsCalls (env : Environment) (r : Record) : Prop :=
  ∀ later h earlier, r = later ++ h :: earlier → h.isExcess →
    ∃ m d k answer, Reached env m ∧ Deed.CallsAt env d k m ∧
      env.configuration.recursionLimit ≤ k + 1 ∧ earlier = d.after.record ∧
      h = .reported (Operation.diagnosticAt env .fatal
        (.recursionLimit env.configuration.recursionLimit) none) answer

section
variable {env : Environment} {r : Record} {h : Happening}

theorem Record.ReportsCalls.cons (hr : r.ReportsCalls env) (hh : h.isExcess = false) :
    ReportsCalls env (h :: r) := by
  intro later h' earlier heq he
  cases later with
  | nil =>
    obtain ⟨rfl, -⟩ := List.cons.inj heq
    rw [hh] at he
    cases he
  | cons l later => exact hr later h' earlier (List.cons.inj heq).2 he

theorem Record.ReportsCalls.refused {m : Moment} {d : Deed} {k : Nat}
    (hr : d.after.record.ReportsCalls env) (hm : Reached env m) (hd : d.CallsAt env k m)
    (hk : env.configuration.recursionLimit ≤ k + 1) :
    (Operation.reported env .fatal (.recursionLimit env.configuration.recursionLimit) none
      d.after).record.ReportsCalls env := by
  intro later h earlier heq he
  cases later with
  | nil =>
    obtain ⟨rfl, rfl⟩ := List.cons.inj heq
    exact ⟨m, d, k, _, hm, hd, hk, rfl, rfl⟩
  | cons l later => exact hr later h earlier (List.cons.inj heq).2 he

namespace Operation

theorem preserves_report_calls {severity : Severity} {f : Fault} {node : Option NodeId}
    (h : severity = .error ∨ f.isExcess = false) :
    Preserves (fun s => s.record.ReportsCalls env) (report env severity f node) := by
  refine preserves_report fun s hs => hs.cons ?_
  rcases h with rfl | hf
  · rfl
  · simp [Happening.isExcess, diagnosticAt, Diagnostic.make, hf]

theorem outward_calls (env : Environment) :
    Outward env (fun s => s.record.ReportsCalls env) fun _ s => s.record.ReportsCalls env where
  noted _ := keeps_modify fun _ hs => hs.cons rfl
  reported _ _ _ hf := preserves_report_calls (.inr (Fault.isExcess_of_isOrdinary hf))
  raised _ _ _ hs := hs
  attempted _ _ hw := by
    have hbears : Record.BearsWrites (Record.ReportsCalls env) := by
      intro r h hh hr
      cases h with
      | reported | noted => cases hh
      | sent | resolved => exact hr.cons rfl
    exact keeps_attempt_of_bears hbears hw fun _ => preserves_report_calls (.inl rfl)

theorem steady_calls (env : Environment) :
    Steady env (fun s => s.record.ReportsCalls env) fun _ s => s.record.ReportsCalls env where
  turned hs ho _ _ := by rwa [State.record, ho]
  stray hs _ _ := hs
  strayReported hs _ hf := preserves_report_calls (.inr (Fault.isExcess_of_isPositional hf)) _ hs

theorem execute_calls (env : Environment) (a : Activation) (f : Frame) (n : Node) :
    Preserves (fun s => s.record.ReportsCalls env) (execute env a f n) := by
  have h := outward_calls env
  refine h.execute a f n fun c _ => ⟨preserves_eventAt _, fun home _ f name v => ?_,
    fun f name v => h.assignVariable f (fun _ _ _ _ hs => hs) name v⟩
  exact keeps_declareVariable (fun _ _ _ _ hs => hs) f name v fun s _ hs _ _ =>
    preserves_report_calls (.inr rfl) s hs

/-- An activation that runs reports no excess but that of its own call. -/
theorem ensures_advance_calls (hw : env.program.WellNested) {i : Input} {a : Activation}
    {rest : List Task} {s : State} (hm : Reached env ⟨i, .run a :: rest, s⟩)
    (hs : s.record.ReportsCalls env) :
    (advance env a).Ensures s (fun _ s' => s'.record.ReportsCalls env)
      fun _ s' => s'.record.ReportsCalls env := by
  by_cases hcall : ∃ d : Deed, d.activation = a ∧ d.IsNext env ⟨i, .run a :: rest, s⟩ ∧ d.calls
  · obtain ⟨d, rfl, hnext, hc⟩ := hcall
    obtain ⟨k, hk⟩ := hnext.callsAt hw hm hc
    have hafter : d.after.record.ReportsCalls env :=
      (execute_calls env _ _ _).of_yields hnext.happens.yields (hnext.before ▸ hs)
    refine (hnext.ensures_call hc).mpr ?_
    split
    · rename_i hlimit
      rw [hk.length_frames hw] at hlimit
      have hrefused := hafter.refused hm hk hlimit
      rw [fatal, ensures_bind, ensures_report]
      split <;> exact hrefused
    · exact hafter
  · unfold advance
    cases hframes : a.frames with
    | nil =>
      exact keeps_bind ((outward_calls env).toCalm.conclude a fun _ _ _ hs => hs)
        (fun _ => keeps_pure _) s hs
    | cons f fs =>
      cases hcode : env.program.code[f.cursor]? with
      | none =>
        simp only [hcode]
        exact hs
      | some n =>
        simp only [hcode]
        refine ensures_bind.mpr ((execute_calls env a f n).yielding hs fun flow s' hflow hs' => ?_)
        cases flow with
        | on g => exact hs'
        | done => exact hs'
        | call g id passed =>
          exact absurd ⟨⟨a, f, n, s, _, s'⟩, rfl, ⟨⟨rest, rfl⟩, rfl, ⟨fs, hframes⟩, ⟨hcode, hflow⟩⟩,
            rfl⟩ hcall
        | walk g r => exact (steady_calls env).suspend _ r s' hs'

end Operation

open Operation

theorem ensures_perform_calls (hw : env.program.WellNested) {i : Input} {t : Task}
    {rest : List Task} {s : State} (hm : Reached env ⟨i, t :: rest, s⟩)
    (hs : s.record.ReportsCalls env) :
    (t.perform env).Ensures s (fun _ s' => s'.record.ReportsCalls env)
      fun _ s' => s'.record.ReportsCalls env := by
  refine Task.ensures_perform (outward_calls env) (steady_calls env)
    (fun hs ho => by rwa [State.record, ho]) hs hs fun a ht => ?_
  subst ht
  exact ensures_advance_calls hw hm hs

theorem reportsCalls_nil (env : Environment) : Record.ReportsCalls env [] := by
  intro later h earlier heq
  simp at heq

theorem reportsCalls_of_reached (hw : env.program.WellNested) {m : Moment} (hm : Reached env m) :
    m.state.record.ReportsCalls env := by
  induction hm with
  | first i _ => cases i <;> exact reportsCalls_nil env
  | next hm hn ih =>
    cases hn with
    | task hy => exact (ensures_perform_calls hw hm ih).of_yields hy
    | call i _ _ => cases i <;> exact ih

theorem reportsCalls_afterCalls (hw : env.program.WellNested) (fuel : Nat) (is : List Input) :
    ((State.initial env.program).afterCalls env fuel is).record.ReportsCalls env :=
  outlet_afterCalls (P := fun o => o.record.ReportsCalls env) (reportsCalls_nil env)
    (fun _ hm => reportsCalls_of_reached hw hm)
    (fun _ _ _ _ _ _ hm hf =>
      (ensures_perform_calls hw hm (reportsCalls_of_reached hw hm)).of_fails hf) is

end

/-! ## Runs -/

/-- How calls are limited: with a limit of `n + 1` they nest up to `n` deep. -/
structure LimitsCalls (env : Environment) : Prop where
  /-- Only the instruction that calls calls, and what it calls is a procedure of the program. -/
  asks : ∀ d : Deed, d.Happens env → d.flow.IsCallOf env.program d.node
  /-- Whatever is under way was started with its own body at most, and has done its deeds since. -/
  started : ∀ m (e : Entry) below, Reached env m → e :: below <:+ m.live → ∃ m₁ e₁ ds,
    Reached env m₁ ∧ m₁.live = e₁ :: below ∧ e₁.activation.IsFresh env.program ∧
    Performs env below m₁ ds m
  /-- Whatever an activation does, and whatever happens while it is suspended, it has the bodies of
  the calls under way and its own, until this ends. -/
  counted : ∀ m₁ (e₁ : Entry) ds m (e : Entry) below, Reached env m₁ → m₁.live = e₁ :: below →
    e₁.activation.IsFresh env.program → Performs env below m₁ ds m → e :: below <:+ m.live →
    e.activation.Nests (callsUnderWay ds)
  /-- Every call that comes next has a number of calls under way. -/
  attempts : ∀ m (d : Deed), Reached env m → d.IsNext env m → d.calls → ∃ k, d.CallsAt env k m
  /-- It is entered, with nothing reported, if its nesting stays below the limit. -/
  entered : ∀ m (d : Deed) k, Reached env m → d.CallsAt env k m →
    k + 1 < env.configuration.recursionLimit → ∃ m', d.Occurs env m m' ∧ m'.state = d.after
  /-- Otherwise it fails, and all that happens is the report of the limit. -/
  refused : ∀ m (d : Deed) k, Reached env m → d.CallsAt env k m →
    env.configuration.recursionLimit ≤ k + 1 →
    ((Task.run d.activation).perform env).Ensures m.state (fun _ _ => False) fun _ s' =>
      s' = Operation.reported env .fatal (.recursionLimit env.configuration.recursionLimit) none
        d.after
  /-- The limit is reported of such calls only. -/
  reported : ∀ fuel is,
    ((State.initial env.program).afterCalls env fuel is).record.ReportsCalls env

/-- Calls are limited by the bodies in execution, of which the activation's own is one. -/
theorem limits_calls {ds : List Script.Declaration} {env : Environment}
    (h : Script.build ds = .ok env.program) : LimitsCalls env := by
  have hw : env.program.WellNested := Script.wellNested_of_build h
  constructor
  case asks => exact fun d hd => hd.isCallOf
  case started => exact fun m e below hm he => exists_performs hw hm he
  case counted =>
    intro m₁ e₁ ds m e below hm₁ hlive hfresh hp he
    rcases hp.nests hw hm₁ hlive hfresh with ⟨e', he', hnests⟩ | hends
    · obtain rfl := head_eq_of_suffix (List.suffix_of_suffix_length_le he he' (Nat.le_refl _))
      exact hnests
    · exact absurd hends (ne_of_suffix he)
  case attempts => exact fun m d hm hd hc => hd.callsAt hw hm hc
  case entered => exact fun m d k _ hd hk => hd.entered hw hk
  case refused => exact fun m d k _ hd hk => hd.refused hw hk
  case reported => exact fun fuel is => reportsCalls_afterCalls hw fuel is

/-- A body that calls a procedure. -/
def callingBody : Body := ⟨.unknown, [.act .unknown (.call "p" ⟨none, []⟩)], .unknown⟩

/-- A template for the root that calls a procedure, which calls itself. -/
def callingProgram : Program where
  code := (callingBody.code 0 ++ callingBody.code 3).toArray
  templates := #[⟨⟨true, []⟩, "/", 0, .group, false, 0, .unknown, 0⟩]
  procedures := #[⟨"p", 0, .group, .unknown, 3⟩]
  groups := #[{ (default : Group) with
    templates := [0], procedures := [0], candidates := [0], ancestry := [Program.rootGroup] }]
  globals := []

theorem build_calling : Script.build [.template "/" { priority := some 0 } [.call "p" {}],
    .procedure "p" .group [.call "p" {}]] = .ok callingProgram :=
  (Script.build_eq _).trans (by with_unfolding_all rfl)

/-- The limit lets calls nest one deep. -/
def calling : Environment := ⟨callingProgram, { recursionLimit := 2 }, .plain fun _ => none⟩

/-- After the deeds of its body up to the call, an activation has a procedure under way. -/
theorem limits_calls_calling : LimitsCalls calling ∧ ∃ m₁ ds m e, Reached calling m₁ ∧
    Performs calling [] m₁ ds m ∧ m.live = [e] ∧ e.activation.frames.length = 2 ∧
    callsUnderWay ds = 1 := by
  have hlimits : LimitsCalls calling := limits_calls build_calling
  have h₀ : Reached calling _ := .first .startDocument rfl
  have h₁ := h₀.next (.task rfl)
  have h₂ := h₁.next (.task rfl)
  have h₃ := h₂.next (.task rfl)
  have h₄ := h₃.next (.task rfl)
  have h₅ := h₄.next (.task rfl)
  obtain ⟨m₁, e₁, ds, hm₁, hlive₁, hfresh, hp⟩ :=
    hlimits.started _ _ [] h₅ (List.suffix_refl [_])
  have hnests := hlimits.counted m₁ e₁ ds _ _ [] hm₁ hlive₁ hfresh hp (List.suffix_refl [_])
  rcases hnests with hlength | ⟨hnone, -⟩
  · exact ⟨hlimits, m₁, ds, _, _, hm₁, hp, rfl, rfl, (Nat.succ.inj hlength).symm⟩
  · cases hnone

/-- With a limit of 1 the first call in a body is one too many. -/
example :
    let env := { calling with configuration := { recursionLimit := 1 } }
    let r := ((State.initial env.program).receiveAll env 40 [.startDocument]).2.record
    r.diagnostics.map (fun d => (d.severity, d.fault.isExcess)) = [(.fatal, true)] := by
  decide +kernel

end StreamTransform
