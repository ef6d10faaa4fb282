import StreamTransform.Proofs.Parking

/-!
# An activation waits once

The walk that suspends an activation is its only one: a second one is refused, so
an activation that goes on after its walk is never parked again and runs to its
end. The end of a node therefore comes to an end itself: the activations parked
there go on one after the other and none of them comes back.
-/

namespace StreamTransform

/-! ## The end of a node -/

/-- The agenda ends the node at a depth, of whose activations these are left. -/
structure Unwinding (p : Program) (mode : Closing) (rest : List Task) (depth : Nat)
    (all : List Activation) (running : Bool) (ts : List Task) (as : List (List Activation)) :
    Prop where
  runs : running = true
  tasks : ts = .unwind mode :: rest
  left : ∃ l below, as = l :: below ∧ below.length = depth ∧ l <:+ all

/-- Above a depth there are nodes, one of them with no others parked than these. -/
def LeftOf (depth : Nat) (all : List Activation) (as : List (List Activation)) : Prop :=
  ∃ above l below, as = above ++ l :: below ∧ below.length = depth ∧ l <:+ all

section
variable {p : Program} {mode : Closing} {rest ts : List Task} {depth : Nat}
  {all l : List Activation} {as : List (List Activation)} {running : Bool}

theorem grounded_unwinding (p : Program) (mode : Closing) (rest : List Task) (depth : Nat)
    (all : List Activation) : Grounded p (Unwinding p mode rest depth all) where
  weaken h := by cases h.runs
  push h _ := by cases h.runs

theorem LeftOf.cons (h : LeftOf depth all as) : LeftOf depth all (l :: as) := by
  obtain ⟨above, l', below, rfl, hdepth, hl⟩ := h
  exact ⟨l :: above, l', below, rfl, hdepth, hl⟩

theorem LeftOf.of_tail (h : LeftOf depth all as.tail) : LeftOf depth all as := by
  cases as with
  | nil => exact h
  | cons l as => exact h.cons

/-- What runs until the node goes on to end runs above it. -/
theorem Suits.leftOf (h : Suits p (Unwinding p mode rest depth all) running ts as) :
    LeftOf depth all (if running then as else as.tail) := by
  induction h with
  | base hb =>
    obtain ⟨l, below, rfl, hdepth, hl⟩ := hb.left
    rw [hb.runs]
    exact ⟨[], l, below, rfl, hdepth, hl⟩
  | run a _ _ _ _ _ ih =>
    split at ih
    · exact ih
    · exact ih.of_tail
  | dispatch _ _ _ _ _ _ ih => exact LeftOf.of_tail ih
  | enterGroup _ _ _ ih => exact ih
  | attributes _ _ _ _ ih => exact ih
  | selfDone above _ _ _ ih =>
    split
    · exact LeftOf.cons ih
    · exact ih
  | close mode _ _ ih | unwind mode _ _ ih =>
    split
    · exact LeftOf.of_tail ih
    · exact ih

end

section
variable {env : Environment} {m m' m₁ : Moment} {mode : Closing} {t : Task} {ts rest us : List Task}
  {n : OpenNode} {ns : List OpenNode} {x x' : State} {depth : Nat} {all : List Activation}

/-- An activation that goes on at the end of its node is no longer parked there. -/
theorem Turn.suits_of_unwinding (h : Turn env t x ts x')
    (hb : Unwinding env.program mode rest depth all true (t :: us) x.parkedAt)
    (hp : ∀ l ∈ x.parkedAt, Parkable env.program l) (hlast : .unwind mode :: rest <:+ ts ++ us) :
    Suits env.program (Unwinding env.program mode rest depth all) true (ts ++ us) x'.parkedAt := by
  obtain ⟨rfl, rfl⟩ := List.cons.inj hb.tasks
  obtain ⟨l, below, hl, hdepth, hleft⟩ := hb.left
  rw [hl] at hp
  have hparkable := (List.forall_mem_cons.mp hp).1
  cases h with
  | unwindPopped =>
    have hlength := hlast.length_le
    simp only [List.nil_append, List.length_cons] at hlength
    omega
  | @unwindResumed _ _ n ns a r hn ha hout hrole =>
    rw [State.parkedAt, hn, List.map_cons, ha] at hl
    obtain ⟨rfl, rfl⟩ := List.cons.inj hl
    exact hparkable.suits_resumed hrole
      (.base ⟨rfl, rfl, r, _, rfl, hdepth, (List.suffix_cons a r).trans hleft⟩)
  | @unwindBuiltIn _ _ n ns a r copied hn ha hout hrole =>
    rw [State.parkedAt, hn, List.map_cons, ha] at hl
    obtain ⟨rfl, rfl⟩ := List.cons.inj hl
    exact .base ⟨rfl, rfl, r, _, rfl, hdepth, (List.suffix_cons a r).trans hleft⟩

/-- While a node is ended, its activations go on one after the other and none is parked there. -/
theorem suits_of_unwinding (hm : Reached env m₁) (hd : m₁.agenda = .unwind mode :: rest)
    (hn : m₁.state.nodes = n :: ns)
    (h : Stretch env (fun x => .unwind mode :: rest <:+ x.agenda) m₁ m) :
    Suits env.program (Unwinding env.program mode rest ns.length n.activations) true m.agenda
      m.state.parkedAt := by
  induction h with
  | refl _ =>
    refine .base ⟨rfl, hd, n.activations, ns.map OpenNode.activations, ?_, by simp, List.suffix_refl _⟩
    rw [State.parkedAt, hn, List.map_cons]
  | @next m m' hstretch hnext hlast ih =>
    have hmoored := moored_of_reached (hstretch.reached hm)
    cases hnext with
    | call i hd' ha =>
      rw [hd'] at ih
      cases ih with
      | base hb => cases hb.tasks
    | task hy =>
      have hturn := Turn.of_yields hy
      have hsuits := hturn.suits (grounded_unwinding env.program mode rest ns.length n.activations)
        ih hmoored.waiters fun hb =>
          hturn.suits_of_unwinding hb hmoored.suits.parkable_of_idle hlast
      exact hsuits

end

/-! ## The life of an activation -/

/-- An activation goes on where it stands. If it is parked, a walk has suspended it; then it is
suspended for good, and runs to its end once it runs again. -/
structure Entry.Progresses (e e' : Entry) : Prop where
  changes : e.Changes e'
  parked : e.activation.phase = .running → e'.activation.phase ≠ .running →
    e'.activation.suspendedBy.isSome
  spent : e.activation.suspendedBy.isSome → e'.activation.suspendedBy.isSome
  back : e.activation.suspendedBy.isSome → e.activation.phase = .running →
    e'.activation.phase = .running

/-- The walk that an action asks for. -/
def Action.walk? : Action → Option Walk
  | .process w _ => some w
  | .processSiblings .. => some .siblings
  | .call .. | .startElement _ | .endElement _ | .text _ | .valueOf .. => none

/-- The activation that runs makes a request that is to suspend it. -/
def Moment.Requests (env : Environment) (m : Moment) : Prop :=
  ∃ a rest f fs n g r s, m.agenda = .run a :: rest ∧ a.frames = f :: fs ∧
    env.program.code[f.cursor]? = some n ∧
    (Operation.execute env a f n).Yields m.state (.walk g r) s ∧ r.walk.suspends

theorem Entry.Progresses.refl (e : Entry) : e.Progresses e :=
  ⟨⟨rfl, .refl _⟩, fun h h' => absurd h h', id, fun _ h => h⟩

theorem Entry.Progresses.trans {e e' e'' : Entry} (h : e.Progresses e') (h' : e'.Progresses e'') :
    e.Progresses e'' where
  changes := ⟨h'.changes.1.trans h.changes.1, h.changes.2.trans h'.changes.2⟩
  parked hr hp := by
    by_cases hr' : e'.activation.phase = .running
    · exact h'.parked hr' hp
    · exact h'.spent (h.parked hr hr')
  spent hs := h'.spent (h.spent hs)
  back hs hr := h'.back (h.spent hs) (h.back hs hr)

theorem Activation.Advances.progresses {a a' : Activation} (h : a.Advances a') (path : List Event) :
    Entry.Progresses ⟨a, path⟩ ⟨a', path⟩ := by
  cases h with
  | on fs => exact ⟨⟨rfl, ⟨rfl, rfl, rfl, rfl, rfl⟩⟩, fun h h' => absurd h h', id, fun _ h => h⟩
  | parked fs phase w hfirst hphase =>
    have hnone : ¬ a.suspendedBy.isSome := by simp [hfirst]
    exact ⟨⟨rfl, ⟨rfl, rfl, rfl, rfl, rfl⟩⟩, fun _ _ => rfl, fun _ => rfl,
      fun hs => absurd hs hnone⟩

theorem LiveMove.progresses {env : Environment} {ns : List OpenNode} {t : Task} {ts : List Task}
    {l l' : List Entry} (h : LiveMove env ns t ts l l') :
    StackMove (Entry.Begins ns) Entry.Progresses l l' := by
  cases h with
  | kept => exact .kept _
  | template position l ht => exact .pushed _ _ ⟨rfl, rfl, rfl⟩
  | builtIn copied l hd => exact .pushed _ _ ⟨rfl, hd, rfl⟩
  | initialiser passed l hb => exact .pushed _ _ ⟨rfl, rfl, rfl⟩
  | advanced l ha => exact .changed _ _ _ (ha.progresses _)
  | ended l ha => exact .popped _ _
  | resumed l =>
    exact .changed _ _ _ ⟨⟨rfl, ⟨rfl, rfl, rfl, rfl, rfl⟩⟩, fun _ h => absurd rfl h, id,
      fun _ _ => rfl⟩
  | finished l hr => exact .popped _ _

section
variable {env : Environment} {m m' m₀ m₁ : Moment} {a : Activation} {e e' : Entry}
  {below : List Entry} {rest : List Task}

theorem progress_of_next (hm : Reached env m) (hn : Next env m m') :
    StackMove (Entry.Begins m'.state.nodes) Entry.Progresses m.live m'.live := by
  cases hn with
  | task hy => exact ((Turn.of_yields hy).live_move (sound_of_reached hm).orderly).progresses
  | call i hd ha => exact .of_eq (live_call i hd)

/-- As long as its place is taken, it is taken by the same activation. -/
theorem progresses_of_stretch (hm : Reached env m₁) (htop : e :: below <:+ m₁.live)
    (h : Stretch env (fun x => ∃ e', e' :: below <:+ x.live) m₁ m) :
    ∃ e', e.Progresses e' ∧ e' :: below <:+ m.live := by
  induction h with
  | refl _ => exact ⟨e, .refl e, htop⟩
  | @next m m' hstretch hn hlast ih =>
    obtain ⟨e', he, hs⟩ := ih
    have hmoved := progress_of_next (hstretch.reached hm) hn
    generalize m.live = l, m'.live = l' at hmoved hs hlast
    cases hmoved with
    | kept => exact ⟨e', he, hs⟩
    | pushed e₁ => exact ⟨e', he, hs.trans (List.suffix_cons e₁ l)⟩
    | changed e₁ e₂ r hc =>
      rcases cases_of_suffix_cons hs with ⟨rfl, rfl⟩ | hbelow
      · exact ⟨e₂, he.trans hc, List.suffix_refl _⟩
      · exact ⟨e', he, hbelow.trans (List.suffix_cons e₂ r)⟩
    | popped e₁ =>
      rcases cases_of_suffix_cons hs with ⟨rfl, rfl⟩ | hbelow
      · obtain ⟨e'', hs'⟩ := hlast
        have hlength := hs'.length_le
        simp only [List.length_cons] at hlength
        omega
      · exact ⟨e', he, hbelow⟩

/-- A request comes from an activation that no walk has suspended, -/
theorem unsuspended_of_requests (hr : m.Requests env) (hl : m.live = e :: below) :
    e.activation.suspendedBy = none := by
  obtain ⟨a, rest, f, fs, n, g, r, s₁, hd, -, -, hflow, hsuspends⟩ := hr
  rw [Moment.live, hd, live_run] at hl
  obtain ⟨rfl, -⟩ := List.cons.inj hl
  exact (Operation.permitted_execute n _ _ _ hflow).2 hsuspends

/-- and parks it. -/
theorem parked_of_requests (hm : Reached env m) (hr : m.Requests env) (hn : Next env m m')
    (hl : m.live = e :: below) : ∃ e', m'.live = e' :: below ∧
      e'.activation.phase ≠ .running ∧ e'.activation.suspendedBy.isSome := by
  obtain ⟨a, rest, f, fs, n, g, r, s₁, hd, hframes, hcode, hflow, hsuspends⟩ := hr
  have hinitialiser := (Operation.permitted_execute n _ _ _ hflow).1
  have ho := (sound_of_reached hm).orderly
  rw [Moment.live, hd, live_run] at hl
  rw [hd] at ho
  obtain ⟨-, rfl⟩ := List.cons.inj hl
  obtain ⟨hc, ho⟩ := ho.of_run
  cases hn with
  | call i hd' => simp [hd'] at hd
  | @task i t rest' ts s s' hy =>
    obtain ⟨rfl, rfl⟩ := List.cons.inj hd
    have hy : (Operation.advance env a).Yields s ts s' := hy
    unfold Operation.advance at hy
    simp only [hframes, hcode] at hy
    obtain ⟨flow, s₂, hflow', hy⟩ := Operation.yields_bind.mp hy
    obtain ⟨rfl, rfl⟩ := hflow.unique hflow'
    have hnodes : s₂.nodes = s.nodes := State.nodes_eq
      (Operation.inputSide_eq (fun s₀ => Operation.inputSide_execute env s₀ a f n) hflow)
    rw [hinitialiser] at ho
    rw [← hnodes] at hc ho
    obtain ⟨phase, hphase, hlive⟩ := Operation.live_suspend hc ho hy
    refine ⟨_, hlive.trans (by rw [hnodes]), hphase hsuspends, ?_⟩
    simp [hsuspends]

/-- An activation that goes off the stack has no body left, but for the built-in rule. -/
theorem LiveMove.frames_of_pop {ns : List OpenNode} {t : Task} {ts : List Task} {l l' : List Entry}
    (h : LiveMove env ns t ts l l') (hl : l = e :: l')
    (hr : ∀ copied, e.activation.role ≠ .builtIn copied) : e.activation.frames = [] := by
  have hlength := congrArg List.length hl
  cases h with
  | ended l ha =>
    obtain ⟨rfl, -⟩ := List.cons.inj hl
    exact ha
  | finished l hrole =>
    obtain ⟨rfl, -⟩ := List.cons.inj hl
    exact absurd hrole (hr _)
  | _ =>
    simp only [List.length_cons] at hlength
    omega

theorem frames_of_pop (hm : Reached env m) (hn : Next env m m') (hl : m.live = e :: below)
    (hl' : m'.live = below) (hr : ∀ copied, e.activation.role ≠ .builtIn copied) :
    e.activation.frames = [] := by
  subst hl'
  cases hn with
  | call i hd ha => simp [live_call i hd] at hl
  | task hy =>
    exact ((Turn.of_yields hy).live_move (sound_of_reached hm).orderly).frames_of_pop hl hr

/-- What is parked between two calls does not run. -/
theorem phase_ne_of_settled (hm : Reached env m) (hd : m.agenda = []) (he : e ∈ m.live) :
    e.activation.phase ≠ .running := by
  have hmoored := moored_of_reached hm
  rw [Moment.live, hd, live_nil] at he
  have hparked : e.activation ∈ m.state.nodes.flatMap OpenNode.parked := by
    rw [← map_activation_parkedEntries]
    exact List.mem_map_of_mem he
  obtain ⟨n, hn, hparked⟩ := List.mem_flatMap.mp hparked
  rcases List.mem_append.mp hparked with hw | ha
  · obtain ⟨w, hw, ha⟩ := List.mem_flatMap.mp hw
    exact Parkable.phase_ne (.inr (hmoored.waiters n hn w hw)) _ ha
  · exact (hmoored.parkable n hn).phase_ne _ ha

end

/-- A second walk is refused with a report, and nothing but the record changes. -/
theorem ensures_advance_refused {env : Environment} {a : Activation} {f : Frame} {fs : List Frame}
    {n : Node} {action : Action} {w previous : Walk} (s : State) (ha : a.frames = f :: fs)
    (hn : env.program.code[f.cursor]? = some n) (hi : n.instruction = .act action)
    (hw : action.walk? = some w) (hsuspends : w.suspends) (hp : a.suspendedBy = some previous)
    (hrole : a.isInitialiser = false) :
    ((Task.run a).perform env).Ensures s
      (fun ts s' => ts = [.run { a with frames := f.next :: fs }] ∧
        s' = Operation.reported env .error (.secondWalk w previous) (some f.cursor) s)
      fun _ s' => s' = Operation.reported env .error (.secondWalk w previous) (some f.cursor) s := by
  have hexecute : Operation.execute env a f n = (do
      Operation.reportHere env f (.secondWalk w previous)
      pure (.on f.next)) := by
    have hrequest : ∀ d, Operation.requestWalk env a f w d = (do
        Operation.reportHere env f (.secondWalk w previous)
        pure (.on f.next)) := by
      intro d
      simp [Operation.requestWalk, hrole, hsuspends, hp]
    simp only [Operation.execute, hi]
    cases action with
    | process w' d =>
      obtain rfl := Option.some.inj hw
      exact hrequest d
    | processSiblings d whilst till =>
      obtain rfl := Option.some.inj hw
      exact hrequest d
    | _ => cases hw
  change (Operation.advance env a).Ensures s _ _
  simp only [Operation.advance, ha, hn, hexecute, Operation.ensures_bind, Operation.reportHere,
    Operation.ensures_report]
  split <;> simp

/-- What the end of a node does to its activations. -/
theorem Turn.unwind_cases {env : Environment} {mode : Closing} {ts rest : List Task} {x x' : State}
    {n : OpenNode} {ns : List OpenNode} (h : Turn env (.unwind mode) x ts x')
    (hn : x.nodes = n :: ns) :
    (∃ a as n', n.activations = a :: as ∧ .unwind mode :: rest <:+ ts ++ rest ∧
      x'.nodes = n' :: ns ∧ n'.activations = as) ∨
    ts ++ rest = rest ∧ x'.nodes.length = ns.length ∧
      (n.activations = [] ∨
        mode = .sibling ∧ ∃ a as r, n.activations = a :: as ∧ a.phase = .awaitingSiblings r) := by
  cases h with
  | unwindPopped hm hout =>
    obtain ⟨rfl, rfl⟩ := List.cons.inj (hn.symm.trans hm)
    refine .inr ⟨rfl, length_handOn n ns, ?_⟩
    cases ha : n.activations with
    | nil => exact .inl rfl
    | cons a as =>
      have houtlives := hout a as ha
      refine .inr ⟨sibling_of_outlives houtlives, a, as, ?_⟩
      unfold Operation.outlives Activation.siblingRequest? at houtlives
      split at houtlives
      · rename_i r hr
        exact ⟨r, rfl, hr⟩
      all_goals simp at houtlives
  | unwindResumed hm ha hout hrole =>
    obtain ⟨rfl, rfl⟩ := List.cons.inj (hn.symm.trans hm)
    exact .inl ⟨_, _, _, ha, List.suffix_cons _ _, rfl, rfl⟩
  | unwindBuiltIn hm ha hout hrole =>
    obtain ⟨rfl, rfl⟩ := List.cons.inj (hn.symm.trans hm)
    exact .inl ⟨_, _, _, ha, List.suffix_refl _, rfl, rfl⟩

/-- What holds of requests, and of what is parked, at the moments of runs. -/
structure SuspendsOnce (env : Environment) : Prop where
  /-- A request parks its activation, which makes no further one as long as it is under way. -/
  once : ∀ (m₀ m₁ m : Moment) (e : Entry) (below : List Entry), Reached env m₀ →
    m₀.Requests env → m₀.live = e :: below → Next env m₀ m₁ →
    (∃ e₁, m₁.live = e₁ :: below ∧ e₁.activation.phase ≠ .running) ∧
    (Stretch env (fun x => ∃ e', e' :: below <:+ x.live) m₁ m →
      (∃ e', m.live = e' :: below) → ¬ m.Requests env)
  /-- A second walk is reported and passed over. The record apart the state is the same, whether the
  listener ends the run or not. -/
  refused : ∀ (s : State) (a : Activation) (f : Frame) (fs : List Frame) (n : Node)
    (action : Action) (w previous : Walk), a.frames = f :: fs →
    env.program.code[f.cursor]? = some n → n.instruction = .act action → action.walk? = some w →
    w.suspends → a.suspendedBy = some previous → a.isInitialiser = false →
    ((Task.run a).perform env).Ensures s
      (fun ts s' => ts = [.run { a with frames := f.next :: fs }] ∧
        s' = Operation.reported env .error (.secondWalk w previous) (some f.cursor) s)
      fun _ s' => s' = Operation.reported env .error (.secondWalk w previous) (some f.cursor) s
  /-- An activation that goes on after its walk runs until no body is left, before the call ends. -/
  completed : ∀ (m₁ m : Moment) (a : Activation) (rest : List Task), Reached env m₁ →
    m₁.agenda = .run a :: rest → a.suspendedBy.isSome → Stretch env (fun _ => True) m₁ m →
    m.agenda = [] →
    ∃ m₂ m₃ e₂, Stretch env (fun x => ∃ e', e'.activation.phase = .running ∧
        SameStart a e'.activation ∧ e' :: live rest m₁.state.nodes <:+ x.live) m₁ m₂ ∧
      Next env m₂ m₃ ∧ m₂.live = e₂ :: live rest m₁.state.nodes ∧ e₂.activation.frames = [] ∧
      m₃.live = live rest m₁.state.nodes ∧ Stretch env (fun _ => True) m₃ m
  /-- Between two calls, what is parked at an open node awaits a walk over the node itself, but for
  the innermost activation, which awaits children or siblings. -/
  settled : ∀ (fuel : Nat) (is : List Input) (s : State),
    (State.initial env.program).receiveAll env fuel is = (.completed, s) →
    ∀ n ∈ s.nodes, ∀ a as, n.activations = a :: as →
      a.AwaitsOthers ∧ ∀ b ∈ as, b.phase = .awaitingSelf
  /-- No template is active twice at one node, whether it is parked there or runs. -/
  distinct : ∀ m : Moment, Reached env m →
    (∀ n ∈ m.state.nodes, (n.activations.filterMap Activation.template?).Nodup) ∧
    ∀ a rest n ns, m.agenda = .run a :: rest → m.state.nodes = n :: ns →
      (a.template?.toList ++ n.activations.filterMap Activation.template?).Nodup
  /-- So at most one activation more than there are templates is parked at a node. -/
  bounded : ∀ m : Moment, Reached env m → ∀ n ∈ m.state.nodes,
    n.activations.length ≤ env.program.templates.size + 1
  /-- At the end of a node its activations go on, or it is taken off the stack: with none left, or if
  siblings follow with the innermost one waiting for them. -/
  ended : ∀ (m m' : Moment) (mode : Closing) (rest : List Task) (n : OpenNode)
    (ns : List OpenNode), m.agenda = .unwind mode :: rest → m.state.nodes = n :: ns →
    Next env m m' →
    (∃ a as n', n.activations = a :: as ∧ .unwind mode :: rest <:+ m'.agenda ∧
      m'.state.nodes = n' :: ns ∧ n'.activations = as) ∨
    m'.agenda = rest ∧ m'.state.nodes.length = ns.length ∧
      (n.activations = [] ∨
        mode = .sibling ∧ ∃ a as r, n.activations = a :: as ∧ a.phase = .awaitingSiblings r)
  /-- Until then nothing is parked there. -/
  shrinks : ∀ (m₁ m : Moment) (mode : Closing) (rest : List Task) (n : OpenNode)
    (ns : List OpenNode), Reached env m₁ → m₁.agenda = .unwind mode :: rest →
    m₁.state.nodes = n :: ns → Stretch env (fun x => .unwind mode :: rest <:+ x.agenda) m₁ m →
    LeftOf ns.length n.activations m.state.parkedAt

/-- An activation is suspended once at most, and no template is active twice at one node. -/
theorem suspends_once (env : Environment) : SuspendsOnce env where
  once m₀ m₁ m e below hm hr hl hn := by
    obtain ⟨e₁, hl₁, hp₁, hs₁⟩ := parked_of_requests hm hr hn hl
    refine ⟨⟨e₁, hl₁, hp₁⟩, fun hstretch ⟨e', hl'⟩ hr' => ?_⟩
    have htop : e₁ :: below <:+ m₁.live := hl₁.symm ▸ List.suffix_refl _
    obtain ⟨e₂, he₂, hs₂⟩ := progresses_of_stretch (hm.next hn) htop hstretch
    rw [hl'] at hs₂
    obtain ⟨rfl, -⟩ := List.cons.inj (hs₂.eq_of_length rfl)
    have hspent := he₂.spent hs₁
    rw [unsuspended_of_requests hr' hl'] at hspent
    cases hspent
  refused s a f fs n action w previous ha hn hi hw hsuspends hp hrole :=
    ensures_advance_refused s ha hn hi hw hsuspends hp hrole
  completed m₁ m a rest hm hd hs hstretch hend := by
    obtain ⟨l, r, -, hphase, hrole, -⟩ := (moored_of_reached hm).of_run hd
    let e : Entry := ⟨a, m₁.state.nodes.map OpenNode.event⟩
    have hlive : m₁.live = e :: live rest m₁.state.nodes := by rw [Moment.live, hd, live_run]
    have htop : ∃ e', e.Progresses e' ∧ e' :: live rest m₁.state.nodes <:+ m₁.live :=
      ⟨e, .refl e, hlive.symm ▸ List.suffix_refl _⟩
    rcases exists_removal Moment.live (fun m => Entry.Begins m.state.nodes) Entry.Progresses
        (fun _ _ _ => .trans) (fun _ _ => progress_of_next) hm hstretch htop with
      hkept | ⟨m₂, m₃, e₂, hkept, hn, he₂, hl₂, hl₃, hlater⟩
    · obtain ⟨e', he', hlast⟩ := hkept.last
      exact absurd (he'.back hs hphase)
        (phase_ne_of_settled (hkept.reached hm) hend (hlast.subset List.mem_cons_self))
    · have hrole₂ : ∀ copied, e₂.activation.role ≠ .builtIn copied := fun copied h =>
        hrole copied (he₂.changes.2.role.symm.trans h)
      refine ⟨m₂, m₃, e₂, hkept.mono ?_, hn, hl₂, frames_of_pop (hkept.reached hm) hn hl₂ hl₃ hrole₂,
        hl₃, hlater⟩
      rintro x ⟨e', he', hx⟩
      exact ⟨e', he'.back hs hphase, he'.changes.2, hx⟩
  settled fuel is s hc n hn a as ha := by
    rcases between_of_receiveAll (.inl rfl) hc with rfl | ⟨m, hm, hd, rfl⟩
    · cases hn
    · have hrest := (moored_of_reached hm).atRest hd n hn
      rw [ha] at hrest
      cases hrest with
      | cons hothers _ _ hself => exact ⟨hothers, hself.phase_eq⟩
  distinct m hm := by
    have hmoored := moored_of_reached hm
    refine ⟨fun n hn => (hmoored.parkable n hn).distinct, fun a rest n ns hd hn => ?_⟩
    obtain ⟨l, r, hl, -, -, hj, hself⟩ := hmoored.of_run hd
    rw [State.parkedAt, hn] at hl
    obtain ⟨rfl, -⟩ := List.cons.inj hl
    exact hj.distinct hself.distinct
  bounded m hm n hn := ((moored_of_reached hm).parkable n hn).length_le
  ended m m' mode rest n ns hd hnodes hn := by
    cases hn with
    | call i hd' => simp [hd'] at hd
    | @task i t rest' ts s s' hy =>
      obtain ⟨rfl, rfl⟩ := List.cons.inj hd
      exact (Turn.of_yields hy).unwind_cases hnodes
  shrinks m₁ m mode rest n ns hm hd hn hstretch :=
    (suits_of_unwinding hm hd hn hstretch).leftOf

end StreamTransform
