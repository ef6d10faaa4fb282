import StreamTransform.Proofs.Preparation
import StreamTransform.Proofs.Spine

/-!
# Recursion gets frames of its own

Every group has one frame for the whole document, and above it one for each
activation under way that entered the group. Such an activation takes its frame
away when it ends, wherever it was parked in between. What lies below its frame
is out of reach until then, so the frame that becomes current again is the one
that was current when the template was chosen.
-/

namespace StreamTransform

/-- The group that an activation in the role enters. -/
def Role.entered? (p : Program) : Role → Option GroupId
  | .template id => p.templates[id]?.bind Template.entered?
  | .builtIn _ | .initialiser _ => none

/-- How many of the activations have a frame of the group of their own. -/
def entrants (g : GroupId) (es : List Entry) : Nat :=
  es.countP fun e => e.activation.entered == some g

@[simp] theorem entrants_cons (g : GroupId) (e : Entry) (es : List Entry) :
    entrants g (e :: es) = entrants g es + if e.activation.entered == some g then 1 else 0 :=
  List.countP_cons

@[simp] theorem entrants_append (g : GroupId) (es fs : List Entry) :
    entrants g (es ++ fs) = entrants g es + entrants g fs := List.countP_append

theorem entrants_parkedEntries (g : GroupId) (s : State) :
    entrants g (parkedEntries s.nodes) = s.parked.countP fun a => a.entered == some g := by
  rw [State.parked, ← map_activation_parkedEntries, List.countP_map]
  rfl

/-! ## One step -/

section
variable {env : Environment} {ns : List OpenNode} {t : Task} {ts rest : List Task}
  {l l' : List Entry} {x x' : State} {g : GroupId}

/-- The role of an activation tells what it enters. -/
theorem LiveMove.entered (h : LiveMove env ns t ts l l')
    (hl : ∀ e ∈ l, e.activation.entered = e.activation.role.entered? env.program) :
    ∀ e ∈ l', e.activation.entered = e.activation.role.entered? env.program := by
  cases h with
  | kept => exact hl
  | template position l ht =>
    refine List.forall_mem_cons.mpr ⟨?_, hl⟩
    simp [Template.activation, Activation.start, Role.entered?, ht]
  | builtIn => exact List.forall_mem_cons.mpr ⟨rfl, hl⟩
  | initialiser => exact List.forall_mem_cons.mpr ⟨rfl, hl⟩
  | advanced l ha =>
    obtain ⟨he, hl⟩ := List.forall_mem_cons.mp hl
    have hs := ha.sameStart
    exact List.forall_mem_cons.mpr ⟨hs.entered.trans (he.trans (by rw [hs.role])), hl⟩
  | ended => exact (List.forall_mem_cons.mp hl).2
  | resumed =>
    obtain ⟨he, hl⟩ := List.forall_mem_cons.mp hl
    exact List.forall_mem_cons.mpr ⟨he, hl⟩
  | finished => exact (List.forall_mem_cons.mp hl).2

/-- Only a template that starts, and an activation that ends, change how many have entered. -/
theorem LiveMove.entrants_eq (h : LiveMove env ns t ts l l')
    (hl : ∀ e ∈ l, e.activation.entered = e.activation.role.entered? env.program)
    (hd : ∀ g exclude hasChildren, t = .dispatch g exclude hasChildren → ts = [])
    (hr : ∀ a, t = .run a → a.frames ≠ []) : entrants g l' = entrants g l := by
  cases h with
  | kept => rfl
  | template position l ht => simpa using hd _ _ _ rfl
  | builtIn => simp [Activation.descending, Activation.start]
  | initialiser => simp [Activation.start]
  | advanced l ha => simp [ha.sameStart.entered]
  | ended l ha => exact absurd ha (hr _ rfl)
  | resumed => simp
  | @finished _ a path copied _ l hrole =>
    have he := (List.forall_mem_cons.mp hl).1
    simp only [hrole, Role.entered?] at he
    simp [he]

/-- A template that starts is among those that have entered as soon as its group is to be
entered. -/
theorem Turn.entrants_eq (h : Turn env t x ts x') (ho : Orderly true (t :: rest) x.nodes)
    (hl : ∀ e ∈ live (t :: rest) x.nodes,
      e.activation.entered = e.activation.role.entered? env.program)
    (hb : t ≠ .begin) (hr : ∀ a, t = .run a → a.frames ≠ []) :
    entrants g (live (ts ++ rest) x'.nodes) =
      entrants g (live (t :: rest) x.nodes) + openings g ts := by
  by_cases hd : ∃ g exclude hasChildren, t = .dispatch g exclude hasChildren
  · obtain ⟨k, exclude, hasChildren, rfl⟩ := hd
    have hmove := h.live_move ho
    cases h with
    | @dispatchTemplate _ _ _ _ id t position ht =>
      have hentered : (t.activation id x.depth position hasChildren k.passed).entered =
          t.entered? := rfl
      cases he : t.entered? <;> simp [hentered, he, Task.opens]
    | dispatchNothing => exact hmove.entrants_eq hl (fun _ _ _ _ => rfl) (by simp)
    | dispatchBuiltIn => exact hmove.entrants_eq hl (fun _ _ _ _ => rfl) (by simp)
  · have hnone := fun k exclude hasChildren hk => hd ⟨k, exclude, hasChildren, hk⟩
    rw [h.openings_eq_zero hb hnone, Nat.add_zero]
    exact (h.live_move ho).entrants_eq hl (fun k e c hk => absurd hk (hnone k e c)) hr

end

/-! ## Counting frames -/

/-- The frames of each group, those that the agenda is about to open included, are one for the
document and one for each activation under way that entered the group. -/
structure Counted (p : Program) (m : Moment) : Prop where
  length : m.state.frames.length = p.groups.size
  counted : ∀ g < p.groups.size, m.state.frames.depth g + openings g m.agenda =
    (if m.state.status = .notStarted then 0 else 1) + entrants g m.live

section
variable {env : Environment} {i : Input} {m m' : Moment} {t : Task} {ts rest : List Task}
  {s s' : State} {g : GroupId}

theorem entered_of_live (h : Reached env m) :
    ∀ e ∈ m.live, e.activation.entered = e.activation.role.entered? env.program := by
  induction h with
  | first i _ =>
    rw [live_take_initial]
    exact List.forall_mem_nil _
  | next hm hn ih =>
    cases hn with
    | task hy => exact ((Turn.of_yields hy).live_move (sound_of_reached hm).orderly).entered ih
    | call i hd _ =>
      rw [live_call i hd]
      exact ih

/-- An activation of a template that recursion enters has entered its group. -/
theorem entered_of_template {e : Entry} {id : TemplateId} {t : Template} (h : Reached env m)
    (he : e ∈ m.live) (hrole : e.activation.role = .template id)
    (ht : env.program.templates[id]? = some t) (hentry : t.recursionEntry) :
    e.activation.entered = some t.group := by
  rw [entered_of_live h e he, hrole]
  simp [Role.entered?, ht, Template.entered?, hentry]

theorem counted_begin (hm : Reached env ⟨i, .begin :: rest, s⟩)
    (hc : Counted env.program ⟨i, .begin :: rest, s⟩)
    (hy : (Task.begin.perform env).Yields s ts s') : Counted env.program ⟨i, ts ++ rest, s'⟩ := by
  have hsound := sound_of_reached hm
  have hturn := Turn.of_yields hy
  have hstatus : s.status = .running := hsound.started (by simp)
  have hframes : s'.frames = s.frames := by
    have hmove := framesMove_of_yields hy
    generalize s.frames = fs, s'.frames = fs' at hmove
    cases hmove
    rfl
  refine ⟨by rw [hframes]; exact hc.length, fun g hg => ?_⟩
  have hlive : entrants g (live (ts ++ rest) s'.nodes) =
      entrants g (live (.begin :: rest) s.nodes) :=
    (hturn.live_move hsound.orderly).entrants_eq (entered_of_live hm) (by simp) (by simp)
  have hopenings : openings g ts = 1 := by
    generalize s.inputSide = x, s'.inputSide = x' at hturn
    cases hturn with
    | begin =>
      change openings g (starting (List.range env.program.groups.size)) = 1
      rw [openings_starting, List.count_range, if_pos hg]
  have hcount := hc.counted g hg
  have hstatus' : s'.status = .running := hturn.status_eq.trans hstatus
  simp only [Moment.live, hstatus, hstatus', hframes, hlive, openings_append, openings_cons,
    hopenings, Task.opens, if_true, reduceCtorEq, if_false] at hcount ⊢
  omega

/-- An activation that ends is no longer under way. -/
theorem entrants_of_ended {a : Activation} (g : GroupId) (rest : List Task)
    (hy : ((Task.run a).perform env).Yields s ts s') (ha : a.frames = []) :
    ts = [] ∧ entrants g (live (.run a :: rest) s.nodes) =
      entrants g (live rest s'.nodes) + if a.entered == some g then 1 else 0 := by
  obtain ⟨rfl, hconclude⟩ := (Operation.yields_advance_nil ha).mp hy
  have hnodes := State.nodes_eq (Operation.inputSide_conclude hconclude)
  exact ⟨rfl, by rw [live_run, entrants_cons, hnodes]⟩

/-- An activation that entered its group only runs when no group is to be entered. -/
theorem openings_of_entered {a : Activation} {k : GroupId} (hp : env.program.Homed)
    (hm : Reached env ⟨i, .run a :: rest, s⟩) (he : a.entered = some k) (g : GroupId) :
    openings g rest = 0 := by
  rcases openings_of_run hp hm with hnone | ⟨_, hdeclares, -⟩
  · exact hnone g
  · simp [hdeclares.entered] at he

theorem counted_task (hp : env.program.Homed) (hm : Reached env ⟨i, t :: rest, s⟩)
    (hc : Counted env.program ⟨i, t :: rest, s⟩) (hb : t ≠ .begin)
    (hy : (t.perform env).Yields s ts s') : Counted env.program ⟨i, ts ++ rest, s'⟩ := by
  have hsound := sound_of_reached hm
  have hturn := Turn.of_yields hy
  have hstatus : s.status = .running := hsound.started (by simp)
  have hstatus' : s'.status = .running := hturn.status_eq.trans hstatus
  have hmove := framesMove_of_yields hy
  refine ⟨hmove.length_eq.trans hc.length, fun g hg => ?_⟩
  have hsize : g < s.frames.length := by rwa [hc.length]
  have hlive : (∀ a, t = .run a → a.frames ≠ []) → entrants g (live (ts ++ rest) s'.nodes) =
      entrants g (live (t :: rest) s.nodes) + openings g ts :=
    hturn.entrants_eq hsound.orderly (entered_of_live hm) hb
  have hcount := hc.counted g hg
  simp only [Moment.live, hstatus, hstatus', openings_append, openings_cons, reduceCtorEq,
    if_false] at hcount ⊢
  generalize hfs : s.frames = fs, hfs' : s'.frames = fs' at hmove
  rw [hfs] at hcount hsize
  cases hmove with
  | kept _ hspared =>
    have hopens : t.opens g = false := by
      cases t <;> first | rfl | exact absurd rfl hb | cases hspared
    have hentrants := hlive fun a ha => by subst ha; cases hspared
    simp only [hopens, Bool.false_eq_true, if_false] at hcount
    omega
  | entered k _ =>
    have hopenings := hturn.openings_eq_zero hb (by simp) g
    have hentrants := hlive (by simp)
    rw [GroupFrames.depth_push hsize]
    simp only [Task.opens, beq_iff_eq] at hcount
    omega
  | rebound ha hr =>
    have hopenings := hturn.openings_eq_zero hb (by simp) g
    have hentrants := hlive fun a' ha' => Task.run.inj ha' ▸ ha
    rw [hr.depth]
    simp only [Task.opens, Bool.false_eq_true, if_false] at hcount
    omega
  | @left a k _ ha he =>
    obtain ⟨rfl, hentrants⟩ := entrants_of_ended g rest hy ha
    simp only [he, beq_iff_eq, Option.some.injEq] at hentrants
    simp only [Task.opens, Bool.false_eq_true, if_false] at hcount
    have hopenings := openings_of_entered hp hm he g
    rw [GroupFrames.depth_pop]
    simp only [openings_nil, List.nil_append]
    split at hentrants
    · rename_i hk
      rw [if_pos hk]
      omega
    · rename_i hk
      rw [if_neg hk]
      omega
  | @ended a _ ha he =>
    obtain ⟨rfl, hentrants⟩ := entrants_of_ended g rest hy ha
    simp only [he, beq_iff_eq, reduceCtorEq, if_false] at hentrants
    simp only [Task.opens, Bool.false_eq_true, if_false] at hcount
    simp only [openings_nil, List.nil_append]
    omega

theorem Input.apply_frames (i : Input) (s : State) : (i.apply s).frames = s.frames := by
  cases i <;> rfl

theorem settled_notStarted_iff (hm : Reached env m) (hd : m.agenda = []) :
    m.settled.status = .notStarted ↔ m.state.status = .notStarted := by
  refine ⟨fun h => ?_, fun h => status_of_ahead hm hd (.inl h)⟩
  obtain ⟨j, ts, s⟩ := m
  cases j <;> first | exact h | cases h

/-- A call leaves the frames as they are; the first one is to open one of every group. -/
theorem counted_call (hm : Reached env m) (hd : m.agenda = [])
    (ha : i.refusal? m.settled.status = none) (hc : Counted env.program m) :
    Counted env.program (.take i m.settled) := by
  have hframes : (Moment.take i m.settled).state.frames = m.state.frames := i.apply_frames _
  refine ⟨by rw [hframes]; exact hc.length, fun g hg => ?_⟩
  have hcount := hc.counted g hg
  rw [hd, openings_nil, Nat.add_zero] at hcount
  rw [live_call i hd, hframes, hcount]
  have hstatus := settled_notStarted_iff hm hd
  by_cases hi : i = .startDocument
  · subst hi
    have hn : m.settled.status = .notStarted := by
      cases hs : m.settled.status <;> simp [Input.refusal?, hs] at ha
      rfl
    rw [if_pos (hstatus.mp hn)]
    simp [Moment.take, Input.apply, Input.tasks, Task.opens]
    omega
  · have htasks : openings g (Moment.take i m.settled).agenda = 0 := i.openings_tasks hi g
    have hkept : (Moment.take i m.settled).state.status = m.settled.status := by
      cases i <;> first | rfl | exact absurd rfl hi
    simp only [htasks, hkept, hstatus, Nat.add_zero]

theorem counted_of_reached (hp : env.program.Homed) (h : Reached env m) :
    Counted env.program m := by
  induction h with
  | first i ha =>
    refine ⟨?_, fun g _ => ?_⟩
    · cases i <;> exact List.length_replicate
    · have hframes : (Moment.take i (.initial env.program)).state.frames =
          .empty env.program.groups.size := i.apply_frames _
      rw [live_take_initial, hframes, ← GroupFrames.length_stack, GroupFrames.stack_empty]
      cases i with
      | startDocument => rfl
      | parameter n v => rfl
      | _ => cases ha
  | @next m m' hm hn ih =>
    cases hn with
    | @task i t rest ts s s' hy =>
      by_cases hb : t = .begin
      · subst hb
        exact counted_begin hm ih hy
      · exact counted_task hp hm ih hb hy
    | call i hd ha => exact counted_call hm hd ha ih

/-- Unless it is just about to be entered, a group has one frame more than have entered it. -/
theorem depth_of_reached (hp : env.program.Homed) (hm : Reached env m)
    (hs : m.state.status ≠ .notStarted) (hg : g < env.program.groups.size)
    (ho : openings g m.agenda = 0) : m.state.frames.depth g = 1 + entrants g m.live := by
  have hcount := (counted_of_reached hp hm).counted g hg
  rwa [ho, Nat.add_zero, if_neg hs] at hcount

/-- The same for a task that enters no group, if none is to be entered after it. -/
theorem depth_of_task (hp : env.program.Homed) (hm : Reached env ⟨i, t :: rest, s⟩)
    (hg : g < env.program.groups.size) (ht : t.opens g = false) (hrest : openings g rest = 0) :
    s.frames.depth g = 1 + entrants g (live (t :: rest) s.nodes) := by
  have hrunning : s.status = .running := (sound_of_reached hm).started (by simp)
  exact depth_of_reached hp hm (by simp [hrunning]) hg (by simp [ht, hrest])

/-! ## Declarations find a frame -/

/-- A variable of a group is declared while the group has no frame. -/
def Fault.OfFrames (f : Fault) : Prop := ∃ name, f = .noGroupFrame name

theorem Fault.inner_ofFrames : Fault.Inner Fault.OfFrames := by
  rintro _ ⟨name, rfl⟩
  exact ⟨rfl, rfl⟩

/-- A group has a frame when a variable of it is declared. -/
theorem framed_of_home {a : Activation} {f : Frame} {fs : List Frame} {n : Node} {c : Container}
    (hp : env.program.Homed) (hm : Reached env ⟨i, .run a :: rest, s⟩) (ha : a.frames = f :: fs)
    (hn : env.program.code[f.cursor]? = some n) (hc : n.Concerns env.program.code c)
    (hg : c.home? = some (.group g)) : 0 < s.frames.depth g := by
  have hsize : g < env.program.groups.size := by
    cases hc with
    | starts hi => exact hp.code _ n hn c hi g hg
    | ends _ ho hi => exact hp.code _ _ ho c hi g hg
  have hopenings : openings g rest = 0 := by
    rcases openings_of_run hp hm with hnone | ⟨k, hdeclares, hk⟩
    · exact hnone g
    · rcases hdeclares.frames with hnil | ⟨f', ha', hd⟩
      · simp [ha] at hnil
      · obtain ⟨rfl, rfl⟩ := List.cons.inj (ha.symm.trans ha')
        rwa [Home.group.inj (Option.some.inj (hg.symm.trans (hd.home? hn hc)))]
  rw [depth_of_task hp hm hsize rfl hopenings]
  exact Nat.lt_add_right _ Nat.zero_lt_one

/-- No declaration ever misses the frame of its group. -/
theorem neverProduced_ofFrames (hp : env.program.Homed) : NeverProduced env Fault.OfFrames :=
  neverProduced_of_framed Fault.inner_ofFrames fun _ _ _ _ _ _ _ _ _ _ hm ha hn hc hg =>
    framed_of_home hp hm ha hn hc hg

/-! ## What lies below a frame -/

theorem suffix_tail {α : Type} {l r : List α} (h : r <:+ l) (hl : r.length < l.length) :
    r <:+ l.tail := by
  cases l with
  | nil => exact h
  | cons a l =>
    rcases List.suffix_cons_iff.mp h with rfl | h
    · exact absurd hl (Nat.lt_irrefl _)
    · exact h

/-- The lowest frames of a group are kept by every step, as long as there are no more of them than
activations that entered the group. -/
theorem suffix_next {lower : List Bindings} (hp : env.program.Homed) (hm : Reached env m)
    (hn : Next env m m') (hg : g < env.program.groups.size) (hne : lower ≠ [])
    (hpoised : Poised m.agenda) (hs : lower <:+ m.state.frames.stack g)
    (hin : lower.length ≤ entrants g m.live) :
    Poised m'.agenda ∧ lower <:+ m'.state.frames.stack g := by
  cases hn with
  | call i hd ha => exact ⟨i.poised_tasks, (i.apply_frames m.settled).symm ▸ hs⟩
  | @task i t rest ts s s' hy =>
    have hb : t ≠ .begin := by
      rintro rfl
      have hsound := sound_of_reached hm
      have hnodes : s.nodes = [] := (hsound.unstarted (.inr List.mem_cons_self)).nodes
      obtain ⟨-, rfl⟩ := List.cons.inj (hsound.alone List.mem_cons_self)
      rw [Moment.live, hnodes, live_level rfl, live_nil] at hin
      exact hne (List.eq_nil_of_length_eq_zero (Nat.le_zero.mp hin))
    refine ⟨hpoised.turn (.of_yields hy) hb, ?_⟩
    -- an instruction binds names, and an activation ends, only above what lies below
    have htail : t.opens g = false → lower <:+ (s.frames.stack g).tail := fun ht => by
      refine suffix_tail hs ?_
      rw [GroupFrames.length_stack, depth_of_task hp hm hg ht (hpoised g), Nat.add_comm]
      exact Nat.lt_succ_of_le hin
    have hsize : g < s.frames.length := by
      have hlength : s.frames.length = _ := (counted_of_reached hp hm).length
      rwa [hlength]
    have hmove := framesMove_of_yields hy
    simp only at hs ⊢
    generalize s.frames = fs, s'.frames = fs' at hmove hs htail hsize ⊢
    cases hmove with
    | kept => exact hs
    | entered k _ =>
      rw [GroupFrames.stack_push hsize]
      split
      · exact hs.trans (List.suffix_cons _ _)
      · exact hs
    | rebound _ hr =>
      rw [← hr.below] at htail
      exact (htail rfl).trans (List.tail_suffix _)
    | left _ _ _ =>
      rw [GroupFrames.stack_pop]
      split
      · exact htail rfl
      · exact hs
    | ended => exact hs

theorem suffix_stretch {lower : List Bindings} {P : Moment → Prop} (hp : env.program.Homed)
    (hg : g < env.program.groups.size) (hne : lower ≠ [])
    (hin : ∀ x, P x → lower.length ≤ entrants g x.live) (hm : Reached env m)
    (hpoised : Poised m.agenda) (hs : lower <:+ m.state.frames.stack g)
    (h : Stretch env P m m') :
    Reached env m' ∧ Poised m'.agenda ∧ lower <:+ m'.state.frames.stack g := by
  induction h with
  | refl _ => exact ⟨hm, hpoised, hs⟩
  | next hstretch hn _ ih =>
    obtain ⟨hm', hpoised', hs'⟩ := ih
    exact ⟨hm'.next hn, suffix_next hp hm' hn hg hne hpoised' hs' (hin _ hstretch.last)⟩

/-! ## Templates that recursion enters -/

/-- The activation of a template is pushed when the template is chosen. -/
theorem dispatched_of_push {e : Entry} {id : TemplateId} (hm : Reached env m) (hn : Next env m m')
    (hlive : m'.live = e :: m.live) (hrole : e.activation.role = .template id) :
    ∃ h exclude hasChildren t rest, env.program.templates[id]? = some t ∧
      m.agenda = .dispatch h exclude hasChildren :: rest ∧
      m'.agenda = (t.entered?.map Task.enterGroup).toList ++ .run e.activation :: rest := by
  cases hn with
  | call i hd _ =>
    rw [live_call i hd] at hlive
    simpa using congrArg List.length hlive
  | @task i t rest ts s s' hy =>
    have hmove := (Turn.of_yields hy).live_move (sound_of_reached hm).orderly
    have hlength := congrArg List.length hlive
    simp only [Moment.live, State.inputSide_nodes] at hlive hlength hmove
    generalize live (t :: rest) s.nodes = l, live (ts ++ rest) s'.nodes = l'
      at hmove hlive hlength
    cases hmove with
    | @template h exclude hasChildren id' t position _ ht =>
      obtain ⟨rfl, -⟩ := List.cons.inj hlive
      obtain rfl : id' = id := Role.template.inj hrole
      exact ⟨h, exclude, hasChildren, t, rest, ht, rfl, by simp⟩
    | builtIn =>
      obtain ⟨rfl, -⟩ := List.cons.inj hlive
      cases hrole
    | initialiser =>
      obtain ⟨rfl, -⟩ := List.cons.inj hlive
      cases hrole
    | _ =>
      simp only [List.length_cons] at hlength
      omega

theorem frames_of_dispatch {h : Handover} {exclude : List TemplateId} {hasChildren : Bool}
    (hn : Next env ⟨i, .dispatch h exclude hasChildren :: rest, s⟩ m') :
    m'.state.frames = s.frames := by
  cases hn with
  | task hy =>
    have hmove := framesMove_of_yields hy
    generalize s.frames = fs at hmove ⊢
    cases hmove
    rfl
  | call _ hd _ => cases hd

/-- The template of an activation was chosen in front of these frames, with its group entered next,
and the activation has been under way since. -/
def EnteredBefore (env : Environment) (m : Moment) (a : Activation) (g : GroupId)
    (fs : GroupFrames) : Prop :=
  ∃ m₀ m₁ h exclude hasChildren a₀ rest, Reached env m₀ ∧ Next env m₀ m₁ ∧
    m₀.agenda = .dispatch h exclude hasChildren :: rest ∧ m₀.state.frames = fs ∧
    m₁.agenda = .enterGroup g :: .run a₀ :: rest ∧ SameStart a₀ a ∧
    Stretch env (fun x => ∃ above a', SameStart a₀ a' ∧
      x.live = above ++ ⟨a', m.state.nodes.map OpenNode.event⟩ :: m₀.live) m₁ m

/-- The frames in front of which the template was chosen lie below the one that it entered with. -/
theorem enteredBefore {a : Activation} {id : TemplateId} {t : Template} {below : List Entry}
    (hp : env.program.Homed) (hm : Reached env m)
    (hlive : m.live = ⟨a, m.state.nodes.map OpenNode.event⟩ :: below)
    (hrole : a.role = .template id) (ht : env.program.templates[id]? = some t)
    (hentry : t.recursionEntry) :
    Poised m.agenda ∧ ∃ fs, EnteredBefore env m a t.group fs ∧
      fs.depth t.group = 1 + entrants t.group below ∧
      fs.stack t.group <:+ m.state.frames.stack t.group := by
  have hsize := hp.template id t ht
  have hgroup : t.entered? = some t.group := if_pos hentry
  have hentered : a.entered = some t.group :=
    entered_of_template hm (hlive ▸ List.mem_cons_self) hrole ht hentry
  obtain ⟨m₀, m₁, a₀, hm₀, hn₀, -, hl₀, hl₁, -, hsame, hstretch⟩ :=
    (startedBefore hm (hlive.trans (List.nil_append _).symm)).2
  obtain ⟨h, exclude, hasChildren, t', rest₀, ht', ha₀, ha₁⟩ :=
    dispatched_of_push hm₀ hn₀ (hl₁.trans (by rw [hl₀])) (hsame.role.symm.trans hrole)
  obtain rfl := Option.some.inj (ht.symm.trans ht')
  rw [hgroup] at ha₁
  obtain ⟨i₀, agenda₀, s₀⟩ := m₀
  obtain rfl : agenda₀ = .dispatch h exclude hasChildren :: rest₀ := ha₀
  have hrest₀ := openings_of_dispatch hp hm₀
  have hdepth : s₀.frames.depth t.group = 1 + entrants t.group below := by
    rw [← hl₀]
    exact depth_of_task hp hm₀ hsize rfl (hrest₀ t.group)
  have hpoised : Poised m₁.agenda := fun k => by simp [ha₁, hrest₀ k, Task.opens]
  have hin : ∀ x : Moment, (∃ above a', SameStart a₀ a' ∧
      x.live = above ++ ⟨a', m.state.nodes.map OpenNode.event⟩ :: below) →
      (s₀.frames.stack t.group).length ≤ entrants t.group x.live := by
    rintro x ⟨above, a', hsame', hx⟩
    have hentered' : a'.entered = some t.group :=
      hsame'.entered.trans (hsame.entered.symm.trans hentered)
    rw [GroupFrames.length_stack, hdepth, hx]
    simp only [entrants_append, entrants_cons, hentered', beq_self_eq_true, if_true]
    omega
  have hne : s₀.frames.stack t.group ≠ [] := by
    rw [← List.length_pos_iff, GroupFrames.length_stack, hdepth]
    exact Nat.lt_add_right _ Nat.zero_lt_one
  have hkept : s₀.frames.stack t.group = m₁.state.frames.stack t.group := by
    rw [frames_of_dispatch hn₀]
  obtain ⟨-, hpoised', hs⟩ := suffix_stretch hp hsize hne hin (hm₀.next hn₀) hpoised
    (hkept ▸ List.suffix_rfl) hstretch
  refine ⟨hpoised', s₀.frames, ?_, hdepth, hs⟩
  subst hl₀
  exact ⟨_, m₁, h, exclude, hasChildren, a₀, rest₀, hm₀, hn₀, rfl, rfl, ha₁, hsame, hstretch⟩

/-- The next step ends the activation, which is of a template that entered its group. -/
def Moment.Finishes (env : Environment) (m : Moment) (a : Activation) (t : Template) : Prop :=
  ∃ rest id, m.agenda = .run a :: rest ∧ a.frames = [] ∧ a.role = .template id ∧
    env.program.templates[id]? = some t ∧ t.recursionEntry

/-- When such an activation ends, the frames of its group are those in front of which the template
was chosen. -/
theorem stack_of_finishes {a : Activation} {t : Template} (hp : env.program.Homed)
    (hm : Reached env m) (hn : Next env m m') (hf : m.Finishes env a t) :
    ∃ fs, EnteredBefore env m a t.group fs ∧ 0 < fs.depth t.group ∧
      m'.state.frames.stack t.group = fs.stack t.group := by
  obtain ⟨rest, id, ha, hend, hrole, ht, hentry⟩ := hf
  obtain ⟨i, agenda, s⟩ := m
  obtain rfl : agenda = .run a :: rest := ha
  have hsize := hp.template id t ht
  have hlive : (⟨i, .run a :: rest, s⟩ : Moment).live =
      ⟨a, s.nodes.map OpenNode.event⟩ :: live rest s.nodes := live_run a
  obtain ⟨hpoised, fs, hbefore, hdepth, hbelow⟩ := enteredBefore hp hm hlive hrole ht hentry
  have hentered : a.entered = some t.group :=
    entered_of_template hm (hlive ▸ List.mem_cons_self) hrole ht hentry
  -- its own frame is all that lies above those
  have hone : s.frames.depth t.group = fs.depth t.group + 1 := by
    rw [depth_of_task hp hm hsize rfl (hpoised t.group), live_run, entrants_cons,
      if_pos (by simp [hentered]), hdepth]
    rfl
  refine ⟨fs, hbefore, by omega, ?_⟩
  cases hn with
  | call _ hd _ => cases hd
  | @task _ _ _ ts _ s' hy =>
    have hmove := framesMove_of_yields hy
    simp only at hbelow ⊢
    generalize s.frames = x, s'.frames = x' at hmove hbelow hone ⊢
    cases hmove with
    | kept _ hspared => cases hspared
    | rebound ha _ => exact absurd hend ha
    | ended _ _ he => simp [hentered] at he
    | left _ _ he =>
      obtain rfl := Option.some.inj (hentered.symm.trans he)
      rw [GroupFrames.stack_pop, if_pos rfl]
      rw [← GroupFrames.length_stack, ← GroupFrames.length_stack] at hone
      exact ((suffix_tail hbelow (by omega)).eq_of_length (by rw [List.length_tail]; omega)).symm

/-! ## Between calls -/

theorem depth_of_between {s : State} (hp : env.program.Homed) (h : Between env s)
    (hs : s.status = .running) (hg : g < env.program.groups.size) :
    s.frames.depth g = 1 + s.parked.countP fun a => a.entered == some g := by
  rcases h with rfl | ⟨m, hm, hd, rfl⟩
  · cases hs
  · have hstarted : m.state.status ≠ .notStarted := fun hn => by
      rw [(settled_notStarted_iff hm hd).mpr hn] at hs
      cases hs
    have hdepth := depth_of_reached hp hm hstarted hg (by rw [hd, openings_nil])
    rwa [Moment.live, hd, live_nil, entrants_parkedEntries] at hdepth

theorem depth_of_ended {s : State} (hp : env.program.Homed) (h : Between env s) {fuel : Nat}
    (he : s.receive env fuel .endDocument = (.completed, s')) (hg : g < env.program.groups.size) :
    s'.frames.depth g = 1 := by
  obtain ⟨m, hm, hi, hd, rfl⟩ := reached_of_receive h he
  have hstarted : m.state.status ≠ .notStarted := by
    rw [(concluding_of_reached hm).running hi]
    simp
  have hnodes : m.state.nodes = [] := nodes_of_ended hm hi hd
  have hdepth := depth_of_reached hp hm hstarted hg (by rw [hd, openings_nil])
  rwa [Moment.live, hd, live_nil, hnodes] at hdepth

end

structure FramesBalanced (env : Environment) : Prop where
  /-- Between calls, while the document is in process, every group has one frame for the document
  and one for each parked activation that entered it. -/
  between : ∀ fuel is s, (State.initial env.program).receiveAll env fuel is = (.completed, s) →
    s.status = .running → ∀ g < env.program.groups.size,
    s.frames.depth g = 1 + s.parked.countP fun a => a.entered == some g
  /-- After the end of the document only the one for the document is left. -/
  ended : ∀ fuel is s s', (State.initial env.program).receiveAll env fuel is = (.completed, s) →
    s.receive env fuel .endDocument = (.completed, s') → ∀ g < env.program.groups.size,
    s'.frames.depth g = 1
  /-- Whatever is called and whatever becomes of it, no group is found without a frame. -/
  framed : NeverProduced env Fault.OfFrames
  /-- When an activation that entered its group ends, the frame that was current when its template
  was chosen is current again, with the same names bound to the same values. -/
  restored : ∀ m m' a t, Reached env m → Next env m m' → m.Finishes env a t →
    ∃ fs f, EnteredBefore env m a t.group fs ∧ fs.current? t.group = some f ∧
      m'.state.frames.current? t.group = some f

/-- Whatever runs in between, recursion that enters a group neither loses a frame of it nor binds
a name in the frames below its own. -/
theorem group_frames_balance {ds : List Script.Declaration} {env : Environment}
    (h : Script.build ds = .ok env.program) : FramesBalanced env := by
  have hp : env.program.Homed := Script.homed_of_build h
  constructor
  case between =>
    intro fuel is s hc hs g hg
    exact depth_of_between hp (between_of_receiveAll (.inl rfl) hc) hs hg
  case ended =>
    intro fuel is s s' hc he g hg
    exact depth_of_ended hp (between_of_receiveAll (.inl rfl) hc) he hg
  case framed => exact neverProduced_ofFrames hp
  case restored =>
    intro m m' a t hm hn hf
    obtain ⟨fs, hbefore, hdepth, hstack⟩ := stack_of_finishes hp hm hn hf
    obtain ⟨f, hcurrent⟩ : ∃ f, fs.current? t.group = some f :=
      ⟨_, List.head?_eq_some_head (List.ne_nil_of_length_pos hdepth)⟩
    refine ⟨fs, f, hbefore, hcurrent, ?_⟩
    rw [GroupFrames.current?_eq_head?, hstack, ← GroupFrames.current?_eq_head?, hcurrent]

/-- One template, for the root, that enters its group. -/
def enteringProgram : Program where
  code := #[⟨.body, .unknown, some 1⟩, ⟨.closing 0, .unknown, none⟩]
  templates := #[⟨⟨true, []⟩, "/", 0, .group, true, 0, .unknown, 0⟩]
  procedures := #[]
  groups := #[{ (default : Group) with
    templates := [0], candidates := [0], ancestry := [Program.rootGroup] }]
  globals := []

theorem build_entering :
    Script.build [.template "/" { priority := some 0, recursionEntry := true } []] =
      .ok enteringProgram :=
  (Script.build_eq _).trans (by with_unfolding_all rfl)

def entering : Environment := ⟨enteringProgram, {}, .plain fun _ => none⟩

theorem group_frames_balance_entering : FramesBalanced entering ∧
    ∃ m m' a t, Reached entering m ∧ Next entering m m' ∧ m.Finishes entering a t ∧
      m.state.frames.depth 0 = 2 ∧ m'.state.frames.depth 0 = 1 := by
  have h₀ : Reached entering _ := .first .startDocument rfl
  have h₁ := h₀.next (.task rfl)
  have h₂ := h₁.next (.task rfl)
  have h₃ := h₂.next (.task rfl)
  have h₄ := h₃.next (.task rfl)
  have h₅ := h₄.next (.task rfl)
  have h₆ := h₅.next (.task rfl)
  exact ⟨group_frames_balance build_entering, _, _, _, _, h₆, .task rfl,
    ⟨_, _, rfl, rfl, rfl, rfl, rfl⟩, rfl, rfl⟩

/-- Elements of one name, each of which adds to a variable and shows it before and after its
children. -/
def markingScript : List Script.Declaration :=
  [.variable "n" "''", .template "a" { recursionEntry := true }
    [.assign "n" "concat($n, 'x')", .valueOf "$n" "", .process .children {}, .valueOf "$n" ""]]

def marking : Environment := ⟨(Script.draft markingScript).program, {}, .plain fun _ => none⟩

/-- The mark that the inner element makes is not seen by the outer one. -/
example : ((State.initial marking.program).receiveAll marking 40
    [.startDocument, .opening (.simple "a") [], .opening (.simple "a") [],
      .closing (.simple "a"), .closing (.simple "a"), .endDocument]).2.record.taken .main =
    .startDocument :: List.replicate 4 (.characters "x") ++ [.endDocument] := by
  decide +kernel

end StreamTransform
