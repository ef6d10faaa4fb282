import StreamTransform.Proofs.GroupFrames
import StreamTransform.Proofs.Homes
import StreamTransform.Proofs.Suspension

/-!
# Groups are entered first

A group gets a fresh frame before anything runs that may look at it. At the
start of the document every group gets one in turn, and until then nothing but
the declarations of the groups entered so far is run. Later a group is entered
by the next task or not at all.
-/

namespace StreamTransform

/-- The task gives a group a fresh frame. The start of the document is to give every group one. -/
def Task.opens (g : GroupId) : Task → Bool
  | .begin => true
  | .enterGroup k => k == g
  | .conclude | .endOutput | .flush _ | .hold .. | .checkEnd _ | .leave | .meet .. | .offer ..
  | .dispatch .. | .run _ | .attributes .. | .selfDone _ | .close _ | .unwind _ => false

/-- How many frames of a group the agenda is about to open. -/
def openings (g : GroupId) (ts : List Task) : Nat := ts.countP (Task.opens g)

@[simp] theorem openings_nil (g : GroupId) : openings g [] = 0 := rfl

@[simp] theorem openings_cons (g : GroupId) (t : Task) (ts : List Task) :
    openings g (t :: ts) = openings g ts + if t.opens g then 1 else 0 := List.countP_cons

@[simp] theorem openings_append (g : GroupId) (ts us : List Task) :
    openings g (ts ++ us) = openings g ts + openings g us := List.countP_append

theorem openings_enterGroups (g : GroupId) (gs : List GroupId) :
    openings g (gs.map Task.enterGroup) = gs.count g := by
  induction gs with
  | nil => rfl
  | cons k gs ih => simp [ih, Task.opens, List.count_cons]

/-- Whatever group is entered is entered next. -/
def Poised (ts : List Task) : Prop := ∀ g, openings g ts.tail = 0

theorem poised_of_none {ts : List Task} (h : ∀ g, openings g ts = 0) : Poised ts := by
  intro g
  have hg := h g
  cases ts with
  | nil => rfl
  | cons t ts =>
    rw [openings_cons] at hg
    exact Nat.eq_zero_of_add_eq_zero_right hg

section
variable {env : Environment} {t : Task} {ts rest : List Task} {x x' : State}

/-- Only the start of the document and the choice of a template have groups entered. -/
theorem Turn.openings_eq_zero (h : Turn env t x ts x') (hb : t ≠ .begin)
    (hd : ∀ g exclude hasChildren, t ≠ .dispatch g exclude hasChildren) (g : GroupId) :
    openings g ts = 0 := by
  cases h with
  | begin => exact absurd rfl hb
  | dispatchTemplate => exact absurd rfl (hd _ _ _)
  | flush closing => cases x.pendingStart <;> cases x.heldText env <;> rfl
  | @offerOpened _ e => cases he : e.content.isElement <;> simp [Task.opens]
  | _ => rfl

theorem Turn.openings_tail (h : Turn env t x ts x') (hb : t ≠ .begin) : Poised ts := by
  by_cases hd : ∃ g exclude hasChildren, t = .dispatch g exclude hasChildren
  · obtain ⟨g, exclude, hasChildren, rfl⟩ := hd
    cases h with
    | @dispatchTemplate _ _ _ _ _ t => cases t.entered? <;> exact fun _ => rfl
    | _ => exact fun _ => rfl
  · exact poised_of_none fun g => h.openings_eq_zero hb (fun g' e c he => hd ⟨g', e, c, he⟩) g

theorem Poised.turn (hp : Poised (t :: rest)) (h : Turn env t x ts x') (hb : t ≠ .begin) :
    Poised (ts ++ rest) := by
  cases ts with
  | nil => exact poised_of_none hp
  | cons u us =>
    intro g
    have hu := h.openings_tail hb g
    have hr := hp g
    simp only [List.tail_cons] at hu hr
    simp [hu, hr]

theorem Input.openings_tasks {i : Input} (h : i ≠ .startDocument) (g : GroupId) :
    openings g i.tasks = 0 := by
  cases i <;> first | rfl | exact absurd rfl h

theorem Input.poised_tasks (i : Input) : Poised i.tasks := by
  cases i <;> exact fun _ => rfl

end

/-! ## Declarations -/

/-- All that is left of an activation is to declare variables of a group; it has no frame of its
own to take away. -/
structure Activation.OnlyDeclares (code : Array Node) (g : GroupId) (a : Activation) : Prop where
  entered : a.entered = none
  frames : a.frames = [] ∨ ∃ f, a.frames = [f] ∧ Declares code g f.cursor

/-- Control stays with the declarations. -/
def Flow.OnlyDeclares (code : Array Node) (g : GroupId) : Flow → Prop
  | .on f => Declares code g f.cursor
  | .done => True
  | .walk .. | .call .. => False

namespace Operation

variable {α β : Type} {env : Environment} {a : Activation} {f : Frame} {n : Node} {g : GroupId}

theorem gives_finishVariable (begun : NodeId) (name : String) (home : Home) :
    Gives (fun f' : Frame => f'.cursor = f.cursor) (finishVariable env f begun name home) := by
  refine gives_bind fun text => ?_
  split
  · intro s f' s' hy
    obtain rfl := gives_declareVariable home name _ s f' s' hy
    rfl
  · exact gives_pure rfl

/-- A declaration goes on with what follows it, or with its own end. -/
theorem declares_startContainer {code : Array Node} {c : Container}
    (hc : Script.Assemble.DeclaresIn g c) (hclose : n.close = some (f.cursor + 1))
    (hend : Declares code g (f.cursor + 1)) (hnext : Declares code g (f.cursor + 2)) :
    Gives (Flow.OnlyDeclares code g) (startContainer env a f n c) := by
  have skipped : ∀ f' : Frame, Flow.OnlyDeclares code g (.on (f'.skip n)) := by
    intro f'
    change Declares code g (n.close.getD f'.cursor + 1)
    rw [hclose]
    exact hnext
  have declared : ∀ (home : Home) (name : String) (v : Value),
      Gives (Flow.OnlyDeclares code g) (do
        let f ← declareVariable env f home name v
        pure (.on (f.skip n))) := fun home name v =>
    gives_bind fun f' => gives_pure (skipped f')
  have selected : ∀ (name : String) (e : Path.Expr) (home : Home), Gives (Flow.OnlyDeclares code g)
      (openVariable env a f n name (.selected e) home) := fun name e home =>
    gives_bind fun v => declared home name v
  have captured : ∀ context, Gives (Flow.OnlyDeclares code g) (capture env f n context none) := by
    intro context
    refine gives_bind fun opened => ?_
    cases opened with
    | none => exact gives_pure (skipped f)
    | some u => exact gives_pure hend
  rcases hc with ⟨name, e, rfl⟩ | ⟨name, o, rfl⟩
  · exact selected name e _
  · simp only [startContainer, openParameter]
    split
    · exact declared _ name _
    · cases o with
      | none => exact gives_bind fun _ => declared _ name _
      | some origin =>
        cases origin with
        | selected e => exact selected name e _
        | written => exact captured _

theorem declares_finishContainer {code : Array Node} {c : Container} (begun : NodeId)
    (hc : Script.Assemble.DeclaresIn g c) (hnext : Declares code g (f.cursor + 1)) :
    Gives (Flow.OnlyDeclares code g) (finishContainer env a f begun c) := by
  have finished : ∀ (home : Home) (name : String), Gives (Flow.OnlyDeclares code g) (do
      let f ← finishVariable env f begun name home
      pure (.on f.next)) := fun home name =>
    (gives_finishVariable begun name home).bind fun f' hf => gives_pure <| by
      change Declares code g (f'.cursor + 1)
      rw [hf]
      exact hnext
  rcases hc with ⟨name, e, rfl⟩ | ⟨name, o, rfl⟩
  · exact finished _ name
  · exact finished _ name

theorem declares_execute (hd : Declares env.program.code g f.cursor)
    (hn : env.program.code[f.cursor]? = some n) :
    Gives (Flow.OnlyDeclares env.program.code g) (execute env a f n) := by
  cases hd with
  | begins hn' hi hnext =>
    obtain rfl := Option.some.inj (hn.symm.trans hn')
    simp only [execute, hi]
    exact gives_pure hnext
  | starts hn' hi hclose hc hend hnext =>
    obtain rfl := Option.some.inj (hn.symm.trans hn')
    simp only [execute, hi]
    exact declares_startContainer hc hclose hend hnext
  | ends hn' hi ho hoc hc hnext =>
    obtain rfl := Option.some.inj (hn.symm.trans hn')
    simp only [execute, hi, closeAt, ho, hoc]
    exact declares_finishContainer _ hc hnext
  | stops hn' hi ho hob =>
    obtain rfl := Option.some.inj (hn.symm.trans hn')
    simp only [execute, hi, closeAt, ho, hob]
    exact gives_pure trivial

/-- Declarations are followed by declarations until the body ends. -/
theorem onlyDeclares_advance {s s' : State} {ts : List Task} (h : (advance env a).Yields s ts s')
    (ha : a.OnlyDeclares env.program.code g) :
    ts = [] ∨ ∃ a', ts = [.run a'] ∧ a'.OnlyDeclares env.program.code g := by
  unfold advance at h
  obtain ⟨he, ha | ⟨f, ha, hd⟩⟩ := ha
  · simp only [ha, yields_bind, yields_pure] at h
    obtain ⟨_, _, -, rfl, -⟩ := h
    exact .inl rfl
  · simp only [ha] at h
    split at h
    · obtain ⟨rfl, -⟩ := yields_pure.mp h
      exact .inr ⟨_, rfl, he, .inl rfl⟩
    · rename_i n hn
      obtain ⟨flow, s₁, hflow, h⟩ := yields_bind.mp h
      have hstays := declares_execute hd hn _ _ _ hflow
      cases flow with
      | on f' =>
        obtain ⟨rfl, -⟩ := yields_pure.mp h
        exact .inr ⟨_, rfl, he, .inr ⟨f', rfl, hstays⟩⟩
      | done =>
        obtain ⟨rfl, -⟩ := yields_pure.mp h
        exact .inr ⟨_, rfl, he, .inl rfl⟩
      | call f' procedure passed => exact hstays.elim
      | walk f' r => exact hstays.elim

end Operation

/-! ## Along a run -/

/-- What is left of the start of the document once so many groups are to be entered. -/
def starting (gs : List GroupId) : List Task :=
  gs.map Task.enterGroup ++ [.dispatch ⟨Program.rootGroup, []⟩ [] true]

theorem openings_starting (g : GroupId) (gs : List GroupId) :
    openings g (starting gs) = gs.count g := by
  simp [starting, openings_enterGroups, Task.opens]

/-- The groups get their first frames; only declarations of groups that have one may run. -/
def Starting (p : Program) (ts : List Task) : Prop :=
  ∃ gs, gs.Nodup ∧ (ts = starting gs ∨
    ∃ a g, g ∉ gs ∧ a.OnlyDeclares p.code g ∧ ts = .run a :: starting gs)

section
variable {env : Environment} {i : Input} {m : Moment} {t : Task} {ts rest : List Task}
  {s s' : State}

theorem Starting.next (h : Starting env.program (t :: rest)) (hp : env.program.Homed)
    (hy : (t.perform env).Yields s ts s') :
    Poised (ts ++ rest) ∨ Starting env.program (ts ++ rest) := by
  have hturn := Turn.of_yields hy
  obtain ⟨gs, hgs, heq | ⟨a, g, hg, ha, heq⟩⟩ := h
  · cases gs with
    | nil =>
      obtain ⟨rfl, rfl⟩ := List.cons.inj heq
      rw [List.append_nil]
      exact .inl (hturn.openings_tail (by simp))
    | cons g gs =>
      obtain ⟨rfl, rfl⟩ := List.cons.inj heq
      obtain ⟨hg, hgs⟩ := List.nodup_cons.mp hgs
      generalize s.inputSide = x, s'.inputSide = x' at hturn
      cases hturn with
      | enterGroupAlone => exact .inr ⟨gs, hgs, .inl rfl⟩
      | enterGroup passed hb =>
        exact .inr ⟨gs, hgs, .inr ⟨_, g, hg, ⟨rfl, .inr ⟨_, rfl, hp.initialiser g _ hb⟩⟩, rfl⟩⟩
  · obtain ⟨rfl, rfl⟩ := List.cons.inj heq
    rcases Operation.onlyDeclares_advance hy ha with rfl | ⟨a', rfl, ha'⟩
    · exact .inr ⟨gs, hgs, .inl rfl⟩
    · exact .inr ⟨gs, hgs, .inr ⟨a', g, hg, ha', rfl⟩⟩

theorem prepared_of_reached (hp : env.program.Homed) (h : Reached env m) :
    Poised m.agenda ∨ Starting env.program m.agenda := by
  induction h with
  | first i _ => exact .inl i.poised_tasks
  | next hm hn ih =>
    cases hn with
    | call i _ _ => exact .inl i.poised_tasks
    | @task i t rest ts s s' hy =>
      by_cases hb : t = .begin
      · subst hb
        obtain ⟨-, rfl⟩ := List.cons.inj ((sound_of_reached hm).alone List.mem_cons_self)
        have hturn := Turn.of_yields hy
        rw [List.append_nil]
        generalize s.inputSide = x, s'.inputSide = x' at hturn
        cases hturn with
        | begin => exact .inr ⟨_, List.nodup_range, .inl rfl⟩
      · rcases ih with hpoised | hstarting
        · exact .inl (hpoised.turn (.of_yields hy) hb)
        · exact hstarting.next hp hy

/-- When an activation is about to execute, either no group is to be entered, or all it does is to
declare variables of a group that has been entered. -/
theorem openings_of_run {a : Activation} (hp : env.program.Homed)
    (h : Reached env ⟨i, .run a :: rest, s⟩) :
    (∀ g, openings g rest = 0) ∨
      ∃ g, a.OnlyDeclares env.program.code g ∧ openings g rest = 0 := by
  rcases prepared_of_reached hp h with hpoised | ⟨gs, -, heq | ⟨a', g, hg, ha, heq⟩⟩
  · exact .inl hpoised
  · cases gs <;> cases heq
  · obtain ⟨hrun, rfl⟩ := List.cons.inj heq
    obtain rfl := Task.run.inj hrun
    exact .inr ⟨g, ha, by rw [openings_starting, List.count_eq_zero_of_not_mem hg]⟩

/-- When a template is chosen no group is to be entered. -/
theorem openings_of_dispatch {g : Handover} {exclude : List TemplateId} {hasChildren : Bool}
    (hp : env.program.Homed) (h : Reached env ⟨i, .dispatch g exclude hasChildren :: rest, s⟩)
    (k : GroupId) : openings k rest = 0 := by
  rcases prepared_of_reached hp h with hpoised | ⟨gs, -, heq | ⟨a, g, -, -, heq⟩⟩
  · exact hpoised k
  · cases gs with
    | nil =>
      obtain ⟨-, rfl⟩ := List.cons.inj heq
      rfl
    | cons g gs => cases heq
  · cases heq

end

end StreamTransform
