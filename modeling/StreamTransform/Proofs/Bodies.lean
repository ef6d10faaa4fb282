import StreamTransform.Proofs.GroupFrames
import StreamTransform.Proofs.Pending
import StreamTransform.Proofs.Scopes

/-!
# The bodies in execution

The bodies of all activations under way form one stack, as the activations do.
A step that executes an instruction takes the topmost body further or ends it,
and may start a procedure on top; any other step at most starts a body. So what
becomes of a body from its start to its end is what its own deeds make of it,
whatever is suspended and called in between.
-/

namespace StreamTransform

/-- The bodies in execution, the one that goes on first at the head. -/
def Moment.bodies (m : Moment) : List Frame := m.live.flatMap fun e => e.activation.frames

/-- The step executes the deed, whose frame is the innermost one of the activation that runs. -/
structure Deed.Occurs (env : Environment) (d : Deed) (m m' : Moment) : Prop where
  runs : ∃ rest, m.agenda = .run d.activation :: rest
  innermost : ∃ fs, d.activation.frames = d.frame :: fs
  happens : d.Happens env
  before : d.before = m.state
  next : Next env m m'

/-- The bodies after a deed, with those below its own. -/
inductive Deed.Leads (env : Environment) (d : Deed) (below : List Frame) : List Frame → Prop
  | done : d.flow = .done → Leads env d below below
  | on {f : Frame} : d.flow.frame? = some f → Leads env d below (f :: below)
  | called {f : Frame} {g : GroupId} {b : NodeId} {passed : Bindings} : d.flow.frame? = some f →
      StartsBody env.program.code b → Leads env d below (.start g b passed :: f :: below)

/-- A frame that goes on lies on those below it. -/
theorem Deed.Leads.keeps {env : Environment} {d : Deed} {below l : List Frame} {f : Frame}
    (h : d.Leads env below l) (hf : d.flow.frame? = some f) : f :: below <:+ l := by
  cases h with
  | done hflow =>
    rw [hflow] at hf
    cases hf
  | on hf' =>
    obtain rfl := Option.some.inj (hf'.symm.trans hf)
    exact List.suffix_refl _
  | called hf' =>
    obtain rfl := Option.some.inj (hf'.symm.trans hf)
    exact List.suffix_cons _ _

/-- Where no frame goes on there are those below it. -/
theorem Deed.Leads.eq_below {env : Environment} {d : Deed} {below l : List Frame}
    (h : d.Leads env below l) (hf : d.flow.frame? = none) : l = below := by
  cases h with
  | done => rfl
  | on hf' | called hf' => cases hf.symm.trans hf'

/-- The deed asks for a procedure. -/
def Deed.calls (d : Deed) : Bool :=
  match d.flow with
  | .call .. => true
  | .on _ | .walk .. | .done => false

/-- The frames of an activation after a deed, with those below the frame of the deed. -/
def Deed.framesAfter (p : Program) (d : Deed) (below : List Frame) : List Frame :=
  match d.flow with
  | .done => below
  | .on f | .walk f _ => f :: below
  | .call f id passed =>
    match p.procedures[id]? with
    | some q => .start q.group q.body passed :: f :: below
    | none => f :: below

theorem Deed.framesAfter_append (p : Program) (d : Deed) (fs below : List Frame) :
    d.framesAfter p (fs ++ below) = d.framesAfter p fs ++ below := by
  unfold framesAfter
  split
  · rfl
  · rfl
  · rfl
  · split <;> rfl

theorem Deed.leads_framesAfter {env : Environment} (hw : env.program.WellNested) (d : Deed)
    (below : List Frame) : d.Leads env below (d.framesAfter env.program below) := by
  cases hf : d.flow with
  | done =>
    rw [framesAfter, hf]
    exact .done hf
  | on f | walk f r =>
    rw [framesAfter, hf]
    exact .on (by rw [hf]; rfl)
  | call f id passed =>
    simp only [framesAfter, hf]
    split
    · rename_i q hq
      exact .called (by rw [hf]; rfl) (hw.procedure id q hq)
    · exact .on (by rw [hf]; rfl)

/-- An activation with its own body to do, if it has one. -/
def Activation.IsFresh (p : Program) (a : Activation) : Prop :=
  a.frames = [] ∨ ∃ g b passed, StartsBody p.code b ∧ a.frames = [.start g b passed]

/-- What a step does to the activations under way. -/
inductive EntryMove (env : Environment) (m m' : Moment) : List Entry → List Entry → Prop
  | kept (l : List Entry) : EntryMove env m m' l l
  | started {e : Entry} (l : List Entry) : e.activation.IsFresh env.program →
      EntryMove env m m' l (e :: l)
  | resumed {e e' : Entry} (l : List Entry) : e'.activation.frames = e.activation.frames →
      EntryMove env m m' (e :: l) (e' :: l)
  | deed {d : Deed} {a' : Activation} {path : List Event} {fs : List Frame} (l : List Entry) :
      d.Occurs env m m' → d.activation.frames = d.frame :: fs →
      a'.frames = d.framesAfter env.program fs →
      EntryMove env m m' (⟨d.activation, path⟩ :: l) (⟨a', path⟩ :: l)
  | ended {e : Entry} (l : List Entry) : e.activation.frames = [] → EntryMove env m m' (e :: l) l

namespace EntryMove

variable {env : Environment} {m m' : Moment} {l l' below : List Entry} {e : Entry}

/-- An activation either was under way before the step, or is started by it. -/
theorem origin (h : EntryMove env m m' l l') (he : e :: below <:+ l') :
    (∃ e₀, e₀ :: below <:+ l) ∨ l' = e :: below ∧ e.activation.IsFresh env.program := by
  cases h with
  | kept => exact .inl ⟨e, he⟩
  | started l hfresh =>
    rcases cases_of_suffix_cons he with ⟨rfl, rfl⟩ | hbelow
    · exact .inr ⟨rfl, hfresh⟩
    · exact .inl ⟨e, hbelow⟩
  | resumed | deed => exact .inl (exists_suffix_of_exchange he)
  | ended l => exact .inl ⟨e, he.trans (List.suffix_cons _ _)⟩

/-- The step leaves the frames of an activation, or ends it, unless it executes one of its
instructions. -/
theorem keeps (h : EntryMove env m m' l l') (he : e :: below <:+ l)
    (hd : ∀ d : Deed, d.Occurs env m m' → ∀ path, l ≠ ⟨d.activation, path⟩ :: below) :
    (∃ e', e' :: below <:+ l' ∧ e'.activation.frames = e.activation.frames) ∨ l' = below := by
  cases h with
  | kept => exact .inl ⟨e, he, rfl⟩
  | started => exact .inl ⟨e, he.trans (List.suffix_cons _ _), rfl⟩
  | @resumed _ e' _ hframes =>
    rcases cases_of_suffix_cons he with ⟨rfl, rfl⟩ | hbelow
    · exact .inl ⟨e', List.suffix_refl _, hframes⟩
    · exact .inl ⟨e, hbelow.trans (List.suffix_cons _ _), rfl⟩
  | @deed d _ path _ _ ho =>
    rcases cases_of_suffix_cons he with ⟨-, rfl⟩ | hbelow
    · exact absurd rfl (hd d ho path)
    · exact .inl ⟨e, hbelow.trans (List.suffix_cons _ _), rfl⟩
  | ended l =>
    rcases cases_of_suffix_cons he with ⟨-, rfl⟩ | hbelow
    · exact .inr rfl
    · exact .inl ⟨e, hbelow, rfl⟩

end EntryMove

/-- What a step does to the bodies in execution. -/
inductive BodyMove (env : Environment) (m m' : Moment) : List Frame → List Frame → Prop
  | kept (l : List Frame) : BodyMove env m m' l l
  | started {g : GroupId} {b : NodeId} {passed : Bindings} (l : List Frame) :
      StartsBody env.program.code b → BodyMove env m m' l (.start g b passed :: l)
  | deed {d : Deed} {l l' : List Frame} : d.Occurs env m m' → d.Leads env l l' →
      BodyMove env m m' (d.frame :: l) l'

namespace BodyMove

variable {env : Environment} {m m' : Moment} {l l' below : List Frame} {f : Frame}

theorem of_eq (h : l' = l) : BodyMove env m m' l l' := h ▸ .kept l'

/-- A body stays as it is unless the step executes one of its own instructions. -/
theorem keeps (h : BodyMove env m m' l l') (hf : f :: below <:+ l)
    (hd : ∀ d : Deed, d.Occurs env m m' → l ≠ d.frame :: below) : f :: below <:+ l' := by
  cases h with
  | kept => exact hf
  | started l hb => exact hf.trans (List.suffix_cons _ l)
  | @deed d l _ ho hl =>
    have hbelow : f :: below <:+ l := by
      rcases cases_of_suffix_cons hf with ⟨-, rfl⟩ | hbelow
      · exact absurd rfl (hd d ho)
      · exact hbelow
    cases hl with
    | done => exact hbelow
    | on => exact hbelow.trans (List.suffix_cons _ l)
    | called => exact (hbelow.trans (List.suffix_cons _ l)).trans (List.suffix_cons _ _)

/-- A body either was in execution before the step, or is started by it. -/
theorem origin (h : BodyMove env m m' l l') (hf : f :: below <:+ l') :
    (∃ f₀, f₀ :: below <:+ l) ∨
      l' = f :: below ∧ ∃ g b passed, StartsBody env.program.code b ∧ f = .start g b passed := by
  cases h with
  | kept => exact .inl ⟨f, hf⟩
  | started l hb =>
    rcases cases_of_suffix_cons hf with ⟨rfl, rfl⟩ | hbelow
    · exact .inr ⟨rfl, _, _, _, hb, rfl⟩
    · exact .inl ⟨f, hbelow⟩
  | deed _ hl =>
    cases hl with
    | done => exact .inl ⟨f, hf.trans (List.suffix_cons _ _)⟩
    | on => exact .inl (exists_suffix_of_exchange hf)
    | called _ hb =>
      rcases cases_of_suffix_cons hf with ⟨rfl, rfl⟩ | hbelow
      · exact .inr ⟨rfl, _, _, _, hb, rfl⟩
      · exact .inl (exists_suffix_of_exchange hbelow)

/-- A body goes on, or the step ends it. -/
theorem goesOn (h : BodyMove env m m' l l') (hf : f :: below <:+ l) :
    (∃ f', f' :: below <:+ l') ∨ l' = below := by
  by_cases hown : ∃ d : Deed, d.Occurs env m m' ∧ l = d.frame :: below
  · obtain ⟨d, -, hd⟩ := hown
    cases h with
    | kept => exact .inl ⟨f, hf⟩
    | started l hb => exact .inl ⟨f, hf.trans (List.suffix_cons _ l)⟩
    | deed _ hl =>
      obtain ⟨-, rfl⟩ := List.cons.inj hd
      cases hl with
      | done => exact .inr rfl
      | @on f' => exact .inl ⟨f', List.suffix_refl _⟩
      | @called f' => exact .inl ⟨f', List.suffix_cons _ _⟩
  · exact .inl ⟨f, h.keeps hf fun d ho hd => hown ⟨d, ho, hd⟩⟩

end BodyMove

section
variable {env : Environment} {m m' : Moment} {a : Activation} {f : Frame} {fs : List Frame}
  {rest : List Task}

/-- The built-in rule has no body. -/
theorem frames_of_builtIn (hm : Reached env m) :
    ∀ e ∈ m.live, e.activation.hasBody = false → e.activation.frames = [] := by
  induction hm with
  | first i _ => simp [live_take_initial]
  | @next m m' hm hn ih =>
    cases hn with
    | call i hd _ => rwa [live_call i hd]
    | @task i t rest ts s s' hy =>
      have hattended := attended_of_reached hm
      have hmove : LiveMove env s'.nodes t ts (live (t :: rest) s.nodes)
          (live (ts ++ rest) s'.nodes) :=
        (Turn.of_yields hy).live_move (sound_of_reached hm).orderly
      change ∀ e ∈ live (t :: rest) s.nodes, _ at ih
      change ∀ e ∈ live (ts ++ rest) s'.nodes, _
      generalize live (t :: rest) s.nodes = l, live (ts ++ rest) s'.nodes = l' at ih hmove
      cases hmove with
      | kept => exact ih
      | template position l ht => exact List.forall_mem_cons.mpr ⟨nofun, ih⟩
      | builtIn copied l hd => exact List.forall_mem_cons.mpr ⟨fun _ => rfl, ih⟩
      | initialiser passed l hb => exact List.forall_mem_cons.mpr ⟨nofun, ih⟩
      | @advanced a a' path _ l ha =>
        refine List.forall_mem_cons.mpr ⟨fun hnone => ?_, (List.forall_mem_cons.mp ih).2⟩
        have hbody : a'.hasBody = a.hasBody := by
          rw [Activation.hasBody, Activation.hasBody, ha.sameStart.role]
        exact absurd (hbody.symm.trans hnone) (by simp [hattended.of_run.1])
      | ended l ha => exact (List.forall_mem_cons.mp ih).2
      | resumed l =>
        obtain ⟨htop, hbelow⟩ := List.forall_mem_cons.mp ih
        exact List.forall_mem_cons.mpr ⟨htop, hbelow⟩
      | finished l hr => exact (List.forall_mem_cons.mp ih).2

/-- What runs stands at a node. -/
theorem node_of_run (hw : env.program.WellNested) (hm : Reached env m)
    (hd : m.agenda = .run a :: rest) (hf : a.frames = f :: fs) :
    ∃ n, env.program.code[f.cursor]? = some n := by
  obtain ⟨st, hst, -⟩ := (account_scopes env).fits_of_reached hw hm
  have hsound := sound_of_reached hm
  cases hst with
  | before hb =>
    rcases hb with hn | hb
    · rw [hsound.started (by simp [hd])] at hn
      cases hn
    · have halone := hsound.alone hb
      rw [hd] at halone
      cases halone
  | within _ _ _ hplaced =>
    rw [Moment.live, hd, live_run] at hplaced
    have hp : f.Placed env.program.code :=
      hplaced _ List.mem_cons_self f (by rw [hf]; exact List.mem_cons_self)
    exact ⟨_, Array.getElem?_eq_getElem hp.inside⟩
  | after hd' => simp [hd'] at hd

/-- A step of an activation that has a body in execution is a deed of the innermost one. -/
theorem exists_deed_of_run (hw : env.program.WellNested) (hm : Reached env m) (hn : Next env m m')
    (hd : m.agenda = .run a :: rest) (hf : a.frames = f :: fs) :
    ∃ d : Deed, d.frame = f ∧ d.Occurs env m m' := by
  obtain ⟨n, hcode⟩ := node_of_run hw hm hd hf
  have hnext := hn
  cases hn with
  | call i hd' => simp [hd'] at hd
  | @task i t rest' ts s s' hy =>
    obtain ⟨rfl, rfl⟩ := List.cons.inj hd
    have hadvance : (Operation.advance env a).Yields s ts s' := hy
    unfold Operation.advance at hadvance
    simp only [hf, hcode] at hadvance
    obtain ⟨flow, s₂, hflow, -⟩ := Operation.yields_bind.mp hadvance
    exact ⟨⟨a, f, n, s, flow, s₂⟩, rfl, ⟨rest', rfl⟩, ⟨fs, hf⟩, ⟨hcode, hflow⟩, rfl, hnext⟩

/-- A step that is computed with the cursor at a node is a deed at this node. -/
theorem exists_deed_of_cursor? {b : NodeId} {n : Node} (hw : env.program.WellNested)
    (hm : Reached env m) (hb : m.cursor? = some b) (hn : env.program.code[b]? = some n)
    (hs : (m.step? env).isSome) : ∃ d m', Deed.Occurs env d m m' ∧ d.node = n := by
  obtain ⟨a, rest, f, fs, hd, hf, rfl⟩ := Moment.run_of_cursor? hb
  obtain ⟨m', hm'⟩ := Option.isSome_iff_exists.mp hs
  obtain ⟨d, rfl, ho⟩ := exists_deed_of_run hw hm (Moment.next_of_step? hm') hd hf
  exact ⟨d, m', ho, Option.some.inj (ho.happens.node.symm.trans hn)⟩

/-- A deed takes the frames of its activation further, which stays on top. It calls no procedure
beyond the limit. -/
theorem Deed.Occurs.live {d : Deed} (hm : Reached env m) (h : d.Occurs env m m') :
    ∃ path l a' fs, m.live = ⟨d.activation, path⟩ :: l ∧ d.activation.frames = d.frame :: fs ∧
      m'.live = ⟨a', path⟩ :: l ∧ a'.frames = d.framesAfter env.program fs ∧
      (d.calls → d.activation.frames.length < env.configuration.recursionLimit) := by
  obtain ⟨⟨rest, hd⟩, ⟨fs, hframes⟩, ⟨hcode, hflow⟩, hbefore, hn⟩ := h
  have ho := (sound_of_reached hm).orderly
  rw [hd] at ho
  obtain ⟨hc, ho⟩ := ho.of_run
  let path := m.state.nodes.map OpenNode.event
  let l := StreamTransform.live rest m.state.nodes
  have hlive : m.live = ⟨d.activation, path⟩ :: l := by rw [Moment.live, hd, live_run]
  cases hn with
  | call i hd' => simp [hd'] at hd
  | @task i t rest' ts s s' hy =>
    obtain ⟨rfl, rfl⟩ := List.cons.inj hd
    have hy : (Operation.advance env d.activation).Yields s ts s' := hy
    unfold Operation.advance at hy
    simp only [hframes, hcode] at hy
    obtain ⟨flow, s₂, hflow', hy⟩ := Operation.yields_bind.mp hy
    rw [hbefore] at hflow
    obtain ⟨hf, -⟩ := hflow'.unique hflow
    have hnodes : s₂.nodes = s.nodes := State.nodes_eq
      (Operation.inputSide_eq (fun s₀ => Operation.inputSide_execute env s₀ _ _ _) hflow')
    have runs : ∀ a : Activation, ts = [.run a] ∧ s' = s₂ →
        (⟨i, ts ++ rest', s'⟩ : Moment).live = ⟨a, path⟩ :: l := by
      rintro a ⟨rfl, rfl⟩
      rw [Moment.live, List.singleton_append, live_run, hnodes]
    cases flow with
    | on g =>
      exact ⟨path, l, _, fs, hlive, hframes, runs _ (Operation.yields_pure.mp hy),
        by rw [Deed.framesAfter, hf], by simp [Deed.calls, hf]⟩
    | done =>
      exact ⟨path, l, _, fs, hlive, hframes, runs _ (Operation.yields_pure.mp hy),
        by rw [Deed.framesAfter, hf], by simp [Deed.calls, hf]⟩
    | call g id passed =>
      simp only [Operation.enterProcedure] at hy
      split at hy
      · simp [Operation.fatal] at hy
      · rename_i hlimit
        have hbelow : d.activation.frames.length < env.configuration.recursionLimit := by
          rw [hframes]
          exact Nat.lt_of_not_le hlimit
        split at hy
        · rename_i q hq
          exact ⟨path, l, _, fs, hlive, hframes, runs _ (Operation.yields_pure.mp hy),
            by simp [Deed.framesAfter, hf, hq], fun _ => hbelow⟩
        · rename_i hq
          exact ⟨path, l, _, fs, hlive, hframes, runs _ (Operation.yields_pure.mp hy),
            by simp [Deed.framesAfter, hf, hq], fun _ => hbelow⟩
    | walk g r =>
      have hinitialiser := (Operation.permitted_execute _ _ _ _ hflow').1
      rw [hinitialiser] at ho
      rw [← hnodes] at hc ho
      obtain ⟨phase, -, hparked⟩ := Operation.live_suspend hc ho hy
      rw [hnodes] at hparked
      exact ⟨path, l, _, fs, hlive, hframes, hparked, by rw [Deed.framesAfter, hf],
        by simp [Deed.calls, hf]⟩

/-- A deed takes the topmost body further, or ends it. -/
theorem Deed.Occurs.leads {d : Deed} (hw : env.program.WellNested) (hm : Reached env m)
    (h : d.Occurs env m m') : ∃ l, m.bodies = d.frame :: l ∧ d.Leads env l m'.bodies := by
  obtain ⟨path, l, a', fs, hlive, hframes, hlive', hframes', -⟩ := h.live hm
  refine ⟨fs ++ l.flatMap fun e => e.activation.frames, ?_, ?_⟩
  · rw [Moment.bodies, hlive, List.flatMap_cons, hframes]
    rfl
  · rw [Moment.bodies, hlive', List.flatMap_cons, hframes', ← Deed.framesAfter_append]
    exact d.leads_framesAfter hw _

/-- Activations change at the top alone, by a deed or with one that is started, resumed or ended. -/
theorem entry_move (hw : env.program.WellNested) (hm : Reached env m) (hn : Next env m m') :
    EntryMove env m m' m.live m'.live := by
  have hnext := hn
  cases hn with
  | call i hd _ =>
    rw [live_call i hd]
    exact .kept _
  | @task i t rest ts s s' hy =>
    by_cases hrun : ∃ a, t = .run a
    · obtain ⟨a, rfl⟩ := hrun
      have hadvance : (Operation.advance env a).Yields s ts s' := hy
      cases hframes : a.frames with
      | nil =>
        obtain ⟨rfl, hconclude⟩ := (Operation.yields_advance_nil hframes).mp hadvance
        have hnodes := State.nodes_eq (Operation.inputSide_conclude hconclude)
        rw [Moment.live, Moment.live, live_run, hnodes]
        exact .ended _ hframes
      | cons f fs =>
        obtain ⟨d, -, ho⟩ := exists_deed_of_run hw hm hnext rfl hframes
        obtain ⟨path, l, a', fs', hlive, hframes', hlive', hafter, -⟩ := ho.live hm
        rw [hlive, hlive']
        exact .deed l ho hframes' hafter
    · have hidle := frames_of_builtIn hm
      have hmove : LiveMove env s'.nodes t ts (live (t :: rest) s.nodes)
          (live (ts ++ rest) s'.nodes) :=
        (Turn.of_yields hy).live_move (sound_of_reached hm).orderly
      change ∀ e ∈ live (t :: rest) s.nodes, _ at hidle
      change EntryMove env _ _ (live (t :: rest) s.nodes) (live (ts ++ rest) s'.nodes)
      generalize live (t :: rest) s.nodes = l, live (ts ++ rest) s'.nodes = l' at hidle hmove
      cases hmove with
      | kept => exact .kept _
      | template position l ht => exact .started _ (.inr ⟨_, _, _, hw.template _ _ ht, rfl⟩)
      | builtIn copied l hd => exact .started _ (.inl rfl)
      | initialiser passed l hb => exact .started _ (.inr ⟨_, _, _, hw.initialiser _ _ hb, rfl⟩)
      | advanced l ha => exact absurd ⟨_, rfl⟩ hrun
      | ended l ha => exact absurd ⟨_, rfl⟩ hrun
      | resumed l => exact .resumed _ rfl
      | finished l hr =>
        exact .ended _ (hidle _ List.mem_cons_self (by simp [Activation.hasBody, hr]))

/-- The bodies in execution change at the top alone, by a deed or with a body that is started. -/
theorem body_move (hw : env.program.WellNested) (hm : Reached env m) (hn : Next env m m') :
    BodyMove env m m' m.bodies m'.bodies := by
  have hmove := entry_move hw hm hn
  unfold Moment.bodies
  generalize m.live = l, m'.live = l' at hmove
  cases hmove with
  | kept => exact .kept _
  | started l hfresh =>
    rw [List.flatMap_cons]
    rcases hfresh with hnone | ⟨g, b, passed, hb, hone⟩
    · exact .of_eq (by rw [hnone]; rfl)
    · rw [hone]
      exact .started _ hb
  | resumed l hframes => exact .of_eq (by rw [List.flatMap_cons, List.flatMap_cons, hframes])
  | @deed d a' path fs l ho hframes hafter =>
    rw [List.flatMap_cons, List.flatMap_cons, hframes, hafter, ← Deed.framesAfter_append]
    exact .deed ho (d.leads_framesAfter hw _)
  | ended l hnone => exact .of_eq (by rw [List.flatMap_cons, hnone]; rfl)

end

/-- What holds of the frame of a body at its start, and is kept by the deeds of the body, holds of
all bodies in execution. -/
theorem forall_bodies_of_reached {env : Environment} {P : Frame → Prop}
    (hw : env.program.WellNested)
    (hstart : ∀ g b passed, StartsBody env.program.code b → P (.start g b passed))
    (hdeed : ∀ {m m' : Moment} {d : Deed} {g : Frame}, Reached env m → d.Occurs env m m' →
      P d.frame → d.flow.frame? = some g → P g)
    {m : Moment} (hm : Reached env m) : ∀ f ∈ m.bodies, P f := by
  induction hm with
  | first i _ => simp [Moment.bodies, live_take_initial]
  | @next m m' hm hn ih =>
    have hmove := body_move hw hm hn
    generalize m.bodies = l, m'.bodies = l' at hmove ih
    cases hmove with
    | kept => exact ih
    | started l hb => exact List.forall_mem_cons.mpr ⟨hstart _ _ _ hb, ih⟩
    | @deed d below _ ho hleads =>
      obtain ⟨hown, hbelow⟩ := List.forall_mem_cons.mp ih
      cases hleads with
      | done => exact hbelow
      | on hf => exact List.forall_mem_cons.mpr ⟨hdeed hm ho hown hf, hbelow⟩
      | called hf hb =>
        exact List.forall_mem_cons.mpr ⟨hstart _ _ _ hb,
          List.forall_mem_cons.mpr ⟨hdeed hm ho hown hf, hbelow⟩⟩

end StreamTransform
