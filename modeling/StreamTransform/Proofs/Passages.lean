import StreamTransform.Proofs.Faults
import StreamTransform.Proofs.Recursion

/-!
# Traces are well bracketed

Observers are told of every node and of every template that is entered or left.
A template is left as often as it was entered because what is under way is a
stack: its activation is noted when it is put on top and when it is taken off. A
node is entered when it is opened and left when it is closed, but a node that is
open again for its waiters is neither; the agenda tells which nodes these are.
-/

namespace StreamTransform

open Operation

/-! ## Brackets -/

/-- Something is entered or left. -/
inductive Passage (κ : Type) where
  | into (key : κ)
  | outOf (key : κ)

/-- `Bracketed ps ks`: among these passages, the latest first, everything that is left was entered
last of all that had not been left, and `ks` is what has not been left, the latest first. -/
inductive Bracketed {κ : Type} : List (Passage κ) → List κ → Prop
  | nil : Bracketed [] []
  | into {ps : List (Passage κ)} {ks : List κ} (k : κ) : Bracketed ps ks →
      Bracketed (.into k :: ps) (k :: ks)
  | outOf {ps : List (Passage κ)} {ks : List κ} {k : κ} : Bracketed ps (k :: ks) →
      Bracketed (.outOf k :: ps) ks

/-- At most one more passage, and what has not been left before and after it. -/
inductive PassageMove {κ : Type} (ps : List (Passage κ)) :
    List κ → List (Passage κ) → List κ → Prop
  | kept (ks : List κ) : PassageMove ps ks ps ks
  | into (k : κ) (ks : List κ) : PassageMove ps ks (.into k :: ps) (k :: ks)
  | outOf (k : κ) (ks : List κ) : PassageMove ps (k :: ks) (.outOf k :: ps) ks

section
variable {κ : Type} {ps ps' : List (Passage κ)} {ks ks' : List κ}

theorem PassageMove.bracketed (h : PassageMove ps ks ps' ks') (hb : Bracketed ps ks) :
    Bracketed ps' ks' := by
  cases h with
  | kept => exact hb
  | into k => exact .into k hb
  | outOf k => exact .outOf hb

theorem PassageMove.of_eq (hp : ps' = ps) (hk : ks' = ks) : PassageMove ps ks ps' ks' := by
  subst hp hk
  exact .kept _

/-- What was not left before and is not left now tells the passage. -/
theorem PassageMove.eq_into {k : κ} (h : PassageMove ps ks ps' ks') (hk : ks' = k :: ks) :
    ps' = .into k :: ps := by
  cases h with
  | kept => exact absurd hk (List.cons_ne_self _ _).symm
  | into => rw [(List.cons.inj hk).1]
  | outOf k' =>
    have hlength := congrArg List.length hk
    simp only [List.length_cons] at hlength
    omega

theorem PassageMove.eq_outOf {k : κ} (h : PassageMove ps ks ps' ks') (hk : ks = k :: ks') :
    ps' = .outOf k :: ps := by
  cases h with
  | kept => exact absurd hk (List.cons_ne_self _ _).symm
  | into k' =>
    have hlength := congrArg List.length hk
    simp only [List.length_cons] at hlength
    omega
  | outOf => rw [(List.cons.inj hk).1]

end

namespace Note

/-- A note that something is entered or left. -/
def isPassage : Note → Bool
  | .enterNode .. | .leaveNode .. | .enterTemplate .. | .leaveTemplate .. => true
  | .startDocument | .endDocument | .emit _ => false

/-- What a note says of nodes, by event and depth. -/
def nodePassage? : Note → Option (Passage (Event × Nat))
  | .enterNode e d => some (.into (e, d))
  | .leaveNode e d => some (.outOf (e, d))
  | .enterTemplate .. | .leaveTemplate .. | .startDocument | .endDocument | .emit _ => none

/-- What a note says of templates. -/
def templatePassage? : Note → Option (Passage (TemplateId × String))
  | .enterTemplate id source _ => some (.into (id, source))
  | .leaveTemplate id source => some (.outOf (id, source))
  | .enterNode .. | .leaveNode .. | .startDocument | .endDocument | .emit _ => none

end Note

def Happening.passage? : Happening → Option Note
  | .noted n => if n.isPassage then some n else none
  | .sent .. | .resolved .. | .reported .. => none

namespace Record

/-- The notes of what is entered and left, the latest first. -/
def passages (r : Record) : List Note := r.filterMap Happening.passage?

def nodePassages (r : Record) : List (Passage (Event × Nat)) := r.passages.filterMap Note.nodePassage?

def templatePassages (r : Record) : List (Passage (TemplateId × String)) :=
  r.passages.filterMap Note.templatePassage?

end Record

/-! ## What a task notes -/

namespace Operation

variable {env : Environment} {s s' : State} {ts : List Task} {l : List Note}

theorem vocal_passages (env : Environment) (l : List Note) :
    Vocal env (fun s => s.record.passages = l) fun _ s => s.record.passages = l where
  emitted _ := keeps_modify fun _ hs => hs
  reported _ _ _ _ := preserves_report fun _ hs => hs
  raised _ _ _ hs := hs
  attempted node _ hw := by
    have hbears : Record.BearsWrites fun r => r.passages = l := by
      intro r h hh hr
      cases h with
      | reported | noted => cases hh
      | sent | resolved => exact hr
    exact keeps_attempt_of_bears hbears hw fun _ => preserves_report fun _ hs => hs

theorem steady_passages (env : Environment) (l : List Note) :
    Steady env (fun s => s.record.passages = l) fun _ s => s.record.passages = l where
  turned hs ho _ _ := by rwa [State.record, ho]
  stray hs _ _ := hs
  strayReported hs _ _ := preserves_report (P := fun s => s.record.passages = l) (fun _ hs => hs) _ hs

theorem passages_execute (env : Environment) (l : List Note) (a : Activation) (f : Frame)
    (n : Node) : Preserves (fun s => s.record.passages = l) (execute env a f n) := by
  have h := vocal_passages env l
  refine h.execute a f n fun c _ => ⟨preserves_eventAt _, fun home _ f name v => ?_,
    fun f name v => h.assignVariable f (fun _ _ _ _ hs => hs) name v⟩
  exact keeps_declareVariable (fun _ _ _ _ hs => hs) f name v fun s _ hs _ _ =>
    preserves_report (P := fun s => s.record.passages = l) (fun _ hs => hs) s hs

/-- An operation by which nothing is entered or left. -/
theorem passages_eq {α : Type} {op : Operation α} {a : α}
    (h : ∀ l, Preserves (fun s => s.record.passages = l) op) (hy : op.Yields s a s') :
    s'.record.passages = s.record.passages := (h _).of_yields hy rfl

theorem passages_begin (h : (begin env).Yields s ts s') :
    s'.record.passages = .enterNode (.met s.serial .root) (s.depth + 1) :: s.record.passages := by
  simp only [begin, yields_bind, yields_note, yields_newEvent, yields_enterNode, yields_pure] at h
  obtain ⟨_, _, rfl, _, s₂, he, root, _, ⟨rfl, rfl⟩, _, _, rfl, rfl, rfl⟩ := h
  have hside := inputSide_emit he
  have hserial := congrArg State.serial hside
  have hdepth := congrArg List.length (State.nodes_eq hside)
  have hkept := passages_eq (fun l => (vocal_passages env l).emit _ _) he
  change s₂.serial = s.serial at hserial
  change s₂.depth = s.depth at hdepth
  change s₂.record.passages = s.record.passages at hkept
  rw [← hserial, ← hdepth, ← hkept]
  rfl

theorem passages_attributes {attr : Attribute} {place : Nat} {rest : List (Attribute × Nat)}
    {g : Handover} (h : (attributes ((attr, place) :: rest) g).Yields s ts s') :
    s'.record.passages =
      .enterNode (.met s.serial (.attr attr place)) (s.depth + 1) :: s.record.passages := by
  simp only [attributes, yields_bind, yields_newEvent, yields_enterNode, yields_pure] at h
  obtain ⟨e, _, ⟨rfl, rfl⟩, _, _, rfl, rfl, rfl⟩ := h
  rfl

theorem passages_openChild {e : Event} {g : Handover} {hasChildren : Bool}
    (h : (openChild e g hasChildren).Yields s ts s') :
    s'.record.passages = .enterNode e (s.depth + 1) :: s.record.passages := by
  simp only [openChild, yields_bind, yields_enterNode, yields_pure] at h
  obtain ⟨_, _, rfl, rfl, rfl⟩ := h
  rfl

/-- A node that is offered is noted only if it is opened. -/
theorem passages_offer {e : Event} {hasChildren : Bool}
    (h : (offer env e hasChildren).Yields s ts s') :
    ((∃ g tasks, ts = .dispatch g [] hasChildren :: tasks) ∧
        s'.record.passages = .enterNode e (s.depth + 1) :: s.record.passages) ∨
      ((∀ g tasks, ts ≠ .dispatch g [] hasChildren :: tasks) ∧
        s'.record.passages = s.record.passages) := by
  have opened : ∀ {s₁ : State} {g : Handover}, s₁.record.passages = s.record.passages →
      s₁.depth = s.depth → (openChild e g hasChildren).Yields s₁ ts s' →
      (∃ g tasks, ts = .dispatch g [] hasChildren :: tasks) ∧
        s'.record.passages = .enterNode e (s.depth + 1) :: s.record.passages := by
    intro s₁ g hp hd ho
    rw [passages_openChild ho, hp, hd]
    simp only [openChild, yields_bind, yields_pure] at ho
    obtain ⟨_, _, _, rfl, _⟩ := ho
    exact ⟨⟨_, _, rfl⟩, rfl⟩
  have released : ∀ {s₁ : State} {w : SiblingWait} {ws : List SiblingWait},
      s₁.record.passages = s.record.passages →
      (do releaseWait w ws
          pure [Task.close .restored, .offer e hasChildren]).Yields s₁ ts s' →
      (∀ g tasks, ts ≠ .dispatch g [] hasChildren :: tasks) ∧
        s'.record.passages = s.record.passages := by
    intro s₁ w ws hp hr
    simp only [yields_bind, yields_releaseWait, yields_pure] at hr
    obtain ⟨_, _, ⟨m, ms, hm, rfl⟩, rfl, rfl⟩ := hr
    exact ⟨by simp, hp⟩
  simp only [offer, yields_bind, yields_current] at h
  obtain ⟨n, s₁, ⟨⟨ns, hn⟩, rfl⟩, h⟩ := h
  split at h
  · split at h
    · exact .inl (opened rfl rfl h)
    · simp only [yields_bind, yields_pure] at h
      obtain ⟨_, s₂, hskip, rfl, rfl⟩ := h
      refine .inr ⟨by simp, passages_eq (fun l => ?_) hskip⟩
      unfold Operation.skip
      split
      · exact keeps_modify fun _ hs => hs
      · exact keeps_pure _
  · split at h
    · exact .inr (released rfl h)
    · rw [yields_bind] at h
      obtain ⟨taken, s₂, ht, h⟩ := h
      have hkept : s₂.record.passages = s₁.record.passages :=
        passages_eq (fun l => (vocal_passages env l).takes _ _ _) ht
      have hside := inputSide_eq (fun s₀ => (outward_inputSide env s₀).takes _ _ _) ht
      have hdepth : s₂.depth = s₁.depth := congrArg List.length (State.nodes_eq hside)
      split at h
      · exact .inl (opened hkept hdepth h)
      · exact .inr (released hkept h)

/-- A template that is selected is noted with the node it is for. -/
theorem passages_dispatch {g : Handover} {exclude : List TemplateId} {hasChildren : Bool}
    (h : (dispatch env g exclude hasChildren).Yields s ts s') :
    (ts = [] ∧ s'.record.passages = s.record.passages) ∨
      ∃ id t position e, env.program.templates[id]? = some t ∧
        ts = (t.entered?.map Task.enterGroup).toList ++
          [.run (t.activation id s.depth position hasChildren g.passed)] ∧
        s'.nodes = s.nodes ∧
        s'.record.passages = .enterTemplate id t.source e :: s.record.passages := by
  obtain ⟨found, s₁, hselect, h⟩ := yields_bind.mp h
  have hkept : s₁.record.passages = s.record.passages :=
    passages_eq (fun l => (vocal_passages env l).selectTemplate _ _ _) hselect
  have hside := inputSide_eq (fun s₀ => (outward_inputSide env s₀).selectTemplate _ _ _) hselect
  have hnodes := State.nodes_eq hside
  have hdepth : s₁.depth = s.depth := congrArg List.length hnodes
  cases found with
  | none =>
    simp only [yields_bind, yields_pure] at h
    obtain ⟨_, s₂, hb, rfl, rfl⟩ := h
    refine .inl ⟨rfl, ?_⟩
    rw [← hkept]
    exact passages_eq (fun l => (steady_passages env l).builtIn (vocal_passages env l) _ _) hb
  | some f =>
    simp only [startTemplate] at h
    split at h
    · obtain ⟨rfl, rfl⟩ := yields_pure.mp h
      exact .inl ⟨rfl, hkept⟩
    · rename_i t ht
      simp only [yields_bind, yields_current, yields_note, yields_get] at h
      obtain ⟨n, s₂, ⟨-, rfl⟩, _, _, rfl, _, _, ⟨rfl, rfl⟩, h⟩ := h
      refine .inr ⟨f.id, t, f.position, n.event, ht, ?_⟩
      rw [← hdepth, ← hkept, Template.activation]
      split at h
      · rename_i hentry
        have hentered : t.entered? = some t.group := if_pos hentry
        obtain ⟨rfl, rfl⟩ := yields_pure.mp h
        rw [hentered]
        exact ⟨rfl, hnodes, rfl⟩
      · rename_i hentry
        have hentered : t.entered? = none := if_neg hentry
        obtain ⟨rfl, rfl⟩ := yields_pure.mp h
        rw [hentered]
        exact ⟨rfl, hnodes, rfl⟩

theorem passages_advance {a : Activation} (ha : a.frames ≠ [])
    (h : (advance env a).Yields s ts s') : s'.record.passages = s.record.passages := by
  have hsteady := steady_passages env s.record.passages
  unfold advance at h
  split at h
  · rename_i hnil
    exact absurd hnil ha
  · rename_i f fs _
    split at h
    · obtain ⟨rfl, rfl⟩ := yields_pure.mp h
      rfl
    · rename_i n _
      obtain ⟨flow, s₁, hflow, h⟩ := yields_bind.mp h
      have hkept := (passages_execute env _ a f n).of_yields hflow rfl
      cases flow with
      | on g =>
        obtain ⟨-, rfl⟩ := yields_pure.mp h
        exact hkept
      | done =>
        obtain ⟨-, rfl⟩ := yields_pure.mp h
        exact hkept
      | call g id passed =>
        have hentered : ∀ b, Preserves (fun x => x.record.passages = s.record.passages)
            (enterProcedure env b id passed) := fun b =>
          keeps_enterProcedure (fun _ => preserves_report fun _ hs => hs) (fun _ _ hs => hs) b id
            passed
        exact (hentered _).of_yields h hkept
      | walk g r => exact (hsteady.suspend _ r).of_yields h hkept

/-- The template of an activation that ends is noted. -/
theorem passages_conclude {a : Activation} {u : Unit} (h : (conclude env a).Yields s u s') :
    s'.record.passages =
      (a.template?.map fun id => Note.leaveTemplate id (env.program.sourceOf id)).toList ++
        s.record.passages := by
  obtain ⟨s₁, hs, h⟩ : ∃ s₁, s₁.record = s.record ∧
      (conclude env { a with entered := none }).Yields s₁ u s' := by
    cases he : a.entered with
    | some g =>
      simp only [conclude, he, yields_modify_bind] at h
      exact ⟨{ s with frames := s.frames.pop g }, rfl, h⟩
    | none =>
      simp only [conclude, he] at h
      exact ⟨s, rfl, h⟩
  have htemplate : ({ a with entered := none } : Activation).template? = a.template? := rfl
  rw [← hs]
  cases ht : a.template? with
  | some id =>
    simp only [conclude, htemplate, ht] at h
    rw [yields_note.mp h]
    rfl
  | none =>
    simp only [conclude, htemplate, ht] at h
    obtain ⟨-, rfl⟩ := yields_pure.mp h
    rfl

/-- A node that is closed is noted, unless it was open again for its waiters. -/
theorem passages_unwind {mode : Closing} (h : (unwind env mode).Yields s ts s') :
    ∃ n ns, s.nodes = n :: ns ∧ ((ts ≠ [] ∧ s'.record.passages = s.record.passages) ∨
      ts = [] ∧ s'.record.passages =
        (if mode = .restored then [] else [.leaveNode n.event s.depth]) ++ s.record.passages) := by
  have popped : ∀ {n : OpenNode} {ns : List OpenNode} {u : Unit}, s.nodes = n :: ns →
      (popNode mode).Yields s u s' →
      s'.record.passages = (if mode = .restored then [] else [.leaveNode n.event s.depth]) ++
        s.record.passages := by
    intro n ns u hn hp
    have handed : ∀ {s₁ : State},
        (if !n.activations.isEmpty && !ns.isEmpty then
          modifyCurrent fun parent =>
            { parent with waits := ⟨n.event, n.activations⟩ :: parent.waits }
        else pure ()).Yields s₁ u s' → s'.record = s₁.record := by
      intro s₁ hy
      split at hy
      · obtain ⟨p, r, -, rfl⟩ := yields_modifyCurrent.mp hy
        rfl
      · obtain ⟨-, rfl⟩ := yields_pure.mp hy
        rfl
    rw [popNode, yields_get_bind] at hp
    simp only [hn, yields_bind, yields_set] at hp
    obtain ⟨_, _, rfl, hp⟩ := hp
    split at hp
    · rename_i hmode
      simp only [yields_bind, yields_note] at hp
      obtain ⟨_, _, rfl, hp⟩ := hp
      rw [handed hp, if_neg hmode]
      rfl
    · rename_i hmode
      rw [handed hp, if_pos (Decidable.not_not.mp hmode)]
      rfl
  obtain ⟨n, ns, hn, ⟨-, rfl, hp⟩ | ⟨a, r, ts', -, -, rfl, hresume⟩⟩ := yields_unwind h
  · exact ⟨n, ns, hn, .inr ⟨rfl, popped hn hp⟩⟩
  · have hkept := ((vocal_passages env s.record.passages).voices.resume a).of_yields hresume rfl
    exact ⟨n, ns, hn, .inl ⟨by simp, hkept⟩⟩

end Operation

/-- Tasks by which nothing is entered or left. -/
def Task.isStill : Task → Bool
  | .conclude | .endOutput | .flush _ | .hold .. | .checkEnd _ | .leave | .meet .. | .enterGroup _
  | .selfDone _ | .close _ => true
  | .begin | .offer .. | .dispatch .. | .run _ | .attributes .. | .unwind _ => false

theorem Task.keeps_passages {env : Environment} {t : Task} (ht : t.isStill) (l : List Note) :
    Preserves (fun s => s.record.passages = l) (t.perform env) := by
  have hvocal := vocal_passages env l
  have hsteady := steady_passages env l
  cases t with
  | conclude =>
    refine keeps_bind keeps_get fun s => ?_
    split
    · exact hvocal.fatal _ rfl
    · exact keeps_pure _
  | endOutput =>
    exact keeps_bind (keeps_bind (hvocal.emit _ _) fun _ => keeps_modify fun _ hs => hs)
      fun _ => keeps_pure _
  | flush closing => exact hsteady.flush closing
  | hold n as => exact keeps_bind (hsteady.hold n as) fun _ => keeps_pure _
  | checkEnd n => exact keeps_bind (hsteady.checkEnd hvocal.toMuted n) fun _ => keeps_pure _
  | leave => exact hsteady.leave
  | meet c hasChildren => exact hsteady.meet c hasChildren
  | enterGroup g => exact keeps_enterGroup fun _ hs => hs
  | selfDone below => exact hsteady.selfDone below
  | close mode => exact hsteady.close mode
  | _ => cases ht

/-! ## Nodes -/

/-- The open nodes with their depths. -/
def places : List OpenNode → List (Event × Nat)
  | [] => []
  | n :: ns => (n.event, ns.length + 1) :: places ns

/-- The open nodes without those that the agenda closes as open for the time being. -/
def entered : List Task → List OpenNode → List (Event × Nat)
  | [], ns => places ns
  | .close mode :: ts, n :: ns | .unwind mode :: ts, n :: ns =>
    if mode = .restored then entered ts ns else (n.event, ns.length + 1) :: entered ts ns
  | _ :: ts, ns => entered ts ns

section
variable {ts : List Task} {n n' : OpenNode} {ns ns' : List OpenNode} {mode : Closing}

@[simp] theorem entered_nil : entered [] ns = places ns := by unfold entered; rfl

@[simp] theorem entered_close : entered (.close mode :: ts) (n :: ns) =
    if mode = .restored then entered ts ns else (n.event, ns.length + 1) :: entered ts ns := by
  rw [entered]

@[simp] theorem entered_unwind : entered (.unwind mode :: ts) (n :: ns) =
    if mode = .restored then entered ts ns else (n.event, ns.length + 1) :: entered ts ns := by
  rw [entered]

@[simp] theorem entered_run (a : Activation) : entered (.run a :: ts) ns = entered ts ns := by
  rw [entered]
  all_goals simp

@[simp] theorem entered_level {t : Task} (h : t.isLevel) : entered (t :: ts) ns = entered ts ns := by
  cases t <;> simp_all [entered]

theorem entered_enterGroups (gs : List GroupId) :
    entered (gs.map Task.enterGroup ++ ts) ns = entered ts ns := by
  induction gs with
  | nil => rfl
  | cons g gs ih => simpa using ih

theorem entered_outer (h : Outer ts) : entered ts ns = places ns := by
  induction h with
  | nil => exact entered_nil
  | final =>
    cases ns with
    | nil => rfl
    | cons n ns => simp [places]
  | flush closing _ ih => simpa using ih
  | meet c hasChildren _ ih => simpa using ih
  | _ => simp

/-- Only events and depths count. -/
theorem entered_congr (h : ns'.map OpenNode.event = ns.map OpenNode.event) :
    entered ts ns' = entered ts ns := by
  have hplaces : ∀ {ms ms' : List OpenNode}, ms'.map OpenNode.event = ms.map OpenNode.event →
      places ms' = places ms := by
    intro ms
    induction ms with
    | nil =>
      intro ms' h
      rw [List.map_eq_nil_iff.mp h]
    | cons m ms ih =>
      intro ms' h
      obtain ⟨m', r, rfl, he, hr⟩ := List.map_eq_cons_iff.mp h
      have hlength := congrArg List.length hr
      simp only [List.length_map] at hlength
      rw [places, places, he, hlength, ih hr]
  induction ts generalizing ns ns' with
  | nil => simpa using hplaces h
  | cons t ts ih =>
    cases ns with
    | nil => rw [List.map_eq_nil_iff.mp h]
    | cons n ns =>
      obtain ⟨n', r, rfl, he, hr⟩ := List.map_eq_cons_iff.mp h
      have hlength := congrArg List.length hr
      simp only [List.length_map] at hlength
      cases t with
      | close mode => rw [entered_close, entered_close, ih hr, he, hlength]
      | unwind mode => rw [entered_unwind, entered_unwind, ih hr, he, hlength]
      | run a => simpa using ih h
      | _ => simpa using ih h

end

section
variable {env : Environment} {t : Task} {ts rest : List Task} {x x' s s' : State}

/-- Tasks that open no node and close none for good leave the open nodes as they are. -/
theorem Turn.entered_eq (h : Turn env t x ts x') (ho : Orderly true (t :: rest) x.nodes)
    (ht : t.isStill ∨ (∃ g exclude hasChildren, t = .dispatch g exclude hasChildren) ∨
      ∃ a, t = .run a) : entered (ts ++ rest) x'.nodes = entered (t :: rest) x.nodes := by
  have same : ∀ {n n' : OpenNode} {ns : List OpenNode}, n'.event = n.event →
      entered rest (n' :: ns) = entered rest (n :: ns) := fun he =>
    entered_congr (by rw [List.map_cons, List.map_cons, he])
  cases h with
  | conclude _ =>
    cases ho.of_input rfl
    rw [List.append_nil, entered_outer (.flush false .final), entered_outer .conclude]
  | flush closing =>
    rcases x.pendingStart with - | p <;> rcases x.heldText env with - | u <;> simp
  | leave _ =>
    cases ho.of_input rfl
    cases x.nodes with
    | nil => rfl
    | cons n ns => simp [places]
  | meet _ hn =>
    rw [hn, List.singleton_append, entered_level rfl, entered_level rfl]
    exact same rfl
  | @dispatchTemplate _ _ _ _ _ t => cases t.entered? <;> simp
  | dispatchBuiltIn copied hn =>
    rw [hn, List.nil_append, entered_level rfl]
    exact same rfl
  | runChildren fs _ hn _ | runSiblings fs _ hn _ =>
    rw [hn, List.nil_append, entered_run]
    exact same rfl
  | runSelf fs _ exclude hn _ =>
    rw [hn, List.cons_append, List.singleton_append, entered_level rfl, entered_level rfl,
      entered_run]
    exact same rfl
  | selfResumed hn ha =>
    rw [hn, List.singleton_append, entered_run, entered_level rfl]
    exact same rfl
  | closeWaits hn hw => simp [hn]
  | closeClear _ =>
    cases x.nodes with
    | nil => simp [entered]
    | cons n ns => simp
  | begin | offerOpened | offerDeclined | offerSkipped | attributesDone | attributes
  | unwindPopped | unwindResumed | unwindBuiltIn =>
    rcases ht with ht | ⟨_, _, _, ht⟩ | ⟨_, ht⟩ <;> cases ht
  | _ => simp

theorem Turn.entered_begin (h : Turn env .begin x ts x')
    (ho : Orderly true (.begin :: rest) x.nodes) : entered (ts ++ rest) x'.nodes =
      (.met x.serial .root, x.depth + 1) :: entered (.begin :: rest) x.nodes := by
  cases ho.of_input rfl
  cases h with
  | begin =>
    rw [List.append_nil, entered_enterGroups, entered_level rfl, entered_level rfl, entered_nil,
      entered_nil]
    rfl

theorem Turn.entered_attributes {attr : Attribute} {place : Nat} {as : List (Attribute × Nat)}
    {g : Handover} (h : Turn env (.attributes ((attr, place) :: as) g) x ts x') :
    entered (ts ++ rest) x'.nodes = (.met x.serial (.attr attr place), x.depth + 1) ::
      entered (.attributes ((attr, place) :: as) g :: rest) x.nodes := by
  cases h with
  | attributes => simp [State.depth, OpenNode.fresh]

/-- An offer opens the node that is offered, or only one that was open before. -/
theorem Turn.entered_offer {e : Event} {hasChildren : Bool}
    (h : Turn env (.offer e hasChildren) x ts x')
    (ho : Orderly true (.offer e hasChildren :: rest) x.nodes) :
    ((∃ g tasks, ts = .dispatch g [] hasChildren :: tasks) → entered (ts ++ rest) x'.nodes =
      (e, x.depth + 1) :: entered (.offer e hasChildren :: rest) x.nodes) ∧
    ((∀ g tasks, ts ≠ .dispatch g [] hasChildren :: tasks) →
      entered (ts ++ rest) x'.nodes = entered (.offer e hasChildren :: rest) x.nodes) := by
  cases h with
  | @offerOpened _ _ _ n ns g hn =>
    refine ⟨fun _ => ?_, fun hne => absurd rfl (hne _ _)⟩
    rw [hn, State.depth, hn]
    split
    · simp [entered_outer ho.of_offer, places, OpenNode.fresh]
    · simp [OpenNode.fresh]
  | @offerDeclined _ _ _ n ns w ws hn hw =>
    refine ⟨by simp, fun _ => ?_⟩
    rw [hn, List.cons_append, List.singleton_append, entered_close, if_pos rfl, entered_level rfl,
      entered_level rfl]
    exact entered_congr rfl
  | offerSkipped hn hw hchildren =>
    exact ⟨by simp, fun _ => by simp⟩

theorem Turn.entered_unwind {mode : Closing} {n : OpenNode} {ns : List OpenNode}
    (h : Turn env (.unwind mode) x ts x') (hn : x.nodes = n :: ns) :
    (ts ≠ [] → entered (ts ++ rest) x'.nodes = entered (.unwind mode :: rest) x.nodes) ∧
    (ts = [] → entered (.unwind mode :: rest) x.nodes =
      (if mode = .restored then [] else [(n.event, x.depth)]) ++
        entered (ts ++ rest) x'.nodes) := by
  cases h with
  | unwindPopped hm hout =>
    obtain ⟨rfl, rfl⟩ := List.cons.inj (hn.symm.trans hm)
    refine ⟨fun hne => absurd rfl hne, fun _ => ?_⟩
    rw [hn, State.depth, hn, entered_unwind, List.nil_append,
      entered_congr (map_event_handOn n ns)]
    split <;> rfl
  | unwindResumed hm ha hout hrole =>
    refine ⟨fun _ => ?_, fun he => by cases he⟩
    rw [hm]
    simp
  | unwindBuiltIn hm ha hout hrole =>
    refine ⟨fun _ => ?_, fun he => by cases he⟩
    rw [hm]
    simp

/-- Every step enters at most one node or leaves the one entered last. -/
theorem node_move (hy : (t.perform env).Yields s ts s') (ho : Orderly true (t :: rest) s.nodes) :
    PassageMove s.record.nodePassages (entered (t :: rest) s.nodes) s'.record.nodePassages
      (entered (ts ++ rest) s'.nodes) := by
  have hturn := Turn.of_yields hy
  have still : t.isStill → s'.record.passages = s.record.passages := fun ht =>
    passages_eq (Task.keeps_passages ht) hy
  have kept : s'.record.passages = s.record.passages →
      entered (ts ++ rest) s'.nodes = entered (t :: rest) s.nodes →
      PassageMove s.record.nodePassages (entered (t :: rest) s.nodes) s'.record.nodePassages
        (entered (ts ++ rest) s'.nodes) := fun hp he =>
    .of_eq (congrArg (List.filterMap Note.nodePassage?) hp) he
  have opened : ∀ e, s'.record.passages = .enterNode e (s.depth + 1) :: s.record.passages →
      entered (ts ++ rest) s'.nodes = (e, s.depth + 1) :: entered (t :: rest) s.nodes →
      PassageMove s.record.nodePassages (entered (t :: rest) s.nodes) s'.record.nodePassages
        (entered (ts ++ rest) s'.nodes) := by
    intro e hp he
    have hpassed : s'.record.nodePassages = .into (e, s.depth + 1) :: s.record.nodePassages := by
      rw [Record.nodePassages, hp]
      rfl
    rw [he, hpassed]
    exact .into _ _
  cases t with
  | begin => exact opened _ (passages_begin hy) (hturn.entered_begin ho)
  | attributes as g =>
    cases as with
    | nil =>
      obtain ⟨rfl, rfl⟩ := yields_pure.mp hy
      exact kept rfl (by simp)
    | cons p as => exact opened _ (passages_attributes hy) hturn.entered_attributes
  | offer e hasChildren =>
    obtain ⟨hopens, hspares⟩ := hturn.entered_offer ho
    rcases passages_offer hy with ⟨hdispatch, hp⟩ | ⟨hnone, hp⟩
    · exact opened e hp (hopens hdispatch)
    · exact kept hp (hspares hnone)
  | unwind mode =>
    obtain ⟨n, ns, hn, ⟨hne, hp⟩ | ⟨rfl, hp⟩⟩ := passages_unwind hy
    · exact kept hp ((hturn.entered_unwind hn).1 hne)
    · have hleft : entered (.unwind mode :: rest) s.inputSide.nodes = _ :=
        (hturn.entered_unwind hn).2 rfl
      simp only [State.inputSide_nodes] at hleft
      by_cases hmode : mode = .restored
      · rw [if_pos hmode] at hp hleft
        exact kept hp hleft.symm
      · rw [if_neg hmode] at hp hleft
        have hpassed : s'.record.nodePassages =
            .outOf (n.event, s.depth) :: s.record.nodePassages := by
          rw [Record.nodePassages, hp]
          rfl
        rw [hleft, hpassed]
        exact .outOf _ _
  | dispatch g exclude hasChildren => 
    have he := hturn.entered_eq ho (.inr (.inl ⟨_, _, _, rfl⟩))
    rcases passages_dispatch hy with ⟨-, hp⟩ | ⟨id, t, position, e, -, -, -, hp⟩
    · exact kept hp he
    · refine .of_eq ?_ he
      rw [Record.nodePassages, hp]
      rfl
  | run a =>
    have he := hturn.entered_eq ho (.inr (.inr ⟨_, rfl⟩))
    by_cases ha : a.frames = []
    · obtain ⟨-, hconclude⟩ := (yields_advance_nil ha).mp hy
      refine .of_eq ?_ he
      rw [Record.nodePassages, passages_conclude hconclude]
      cases a.template? <;> rfl
    · exact kept (passages_advance ha hy) he
  | _ => exact kept (still rfl) (hturn.entered_eq ho (.inl rfl))

end

/-! ## Templates -/

/-- The template that an activation under way was started for. -/
def Entry.started? (p : Program) (e : Entry) : Option (TemplateId × String) :=
  e.activation.template?.map fun id => (id, p.sourceOf id)

section
variable {env : Environment} {t : Task} {ts rest : List Task} {s s' : State}

/-- Activations of templates are started when a template is dispatched, and end when they have no
body left. -/
theorem LiveMove.started_eq {ns : List OpenNode} {l l' : List Entry}
    (h : LiveMove env ns t ts l l')
    (hd : ∀ g exclude hasChildren, t = .dispatch g exclude hasChildren → ts = [])
    (ha : ∀ a, t = .run a → a.frames ≠ []) :
    l'.filterMap (Entry.started? env.program) = l.filterMap (Entry.started? env.program) := by
  have top : ∀ {e e' : Entry} {l : List Entry},
      e'.activation.template? = e.activation.template? →
      (e' :: l).filterMap (Entry.started? env.program) =
        (e :: l).filterMap (Entry.started? env.program) := by
    intro e e' l he
    simp only [List.filterMap_cons, Entry.started?, he]
  cases h with
  | kept => rfl
  | template position l ht =>
    have hnil := hd _ _ _ rfl
    simp at hnil
  | builtIn copied l hdepth => rfl
  | initialiser passed l hb => rfl
  | advanced l hadvances =>
    exact top (by simp only [Activation.template?, hadvances.sameStart.role])
  | ended l hnil => exact absurd hnil (ha _ rfl)
  | resumed l => exact top rfl
  | finished l hrole =>
    rw [List.filterMap_cons_none]
    simp [Entry.started?, Activation.template?, hrole]

/-- Every step enters at most one template or leaves the one entered last. -/
theorem template_move (hy : (t.perform env).Yields s ts s')
    (ho : Orderly true (t :: rest) s.nodes) :
    PassageMove s.record.templatePassages
      ((live (t :: rest) s.nodes).filterMap (Entry.started? env.program))
      s'.record.templatePassages
      ((live (ts ++ rest) s'.nodes).filterMap (Entry.started? env.program)) := by
  have hmove := (Turn.of_yields hy).live_move ho
  simp only [State.inputSide_nodes] at hmove
  have still : t.isStill → s'.record.passages = s.record.passages := fun ht =>
    passages_eq (Task.keeps_passages ht) hy
  have kept : ∀ ns, s'.record.passages = ns ++ s.record.passages →
      ns.filterMap Note.templatePassage? = [] →
      s'.record.templatePassages = s.record.templatePassages := by
    intro ns hp hns
    rw [Record.templatePassages, hp, List.filterMap_append, hns]
    rfl
  have idle : (∀ g exclude hasChildren, t ≠ .dispatch g exclude hasChildren) → (∀ a, t ≠ .run a) →
      (live (ts ++ rest) s'.nodes).filterMap (Entry.started? env.program) =
        (live (t :: rest) s.nodes).filterMap (Entry.started? env.program) := fun hd ha =>
    hmove.started_eq (fun _ _ _ h => absurd h (hd _ _ _)) fun _ h => absurd h (ha _)
  cases t with
  | dispatch g exclude hasChildren =>
    rcases passages_dispatch hy with ⟨rfl, hp⟩ | ⟨id, t, position, e, ht, rfl, hnodes, hp⟩
    · exact .of_eq (kept [] hp rfl) (hmove.started_eq (fun _ _ _ _ => rfl) (by simp))
    · have hpassed : s'.record.templatePassages =
          .into (id, t.source) :: s.record.templatePassages := by
        rw [Record.templatePassages, hp]
        rfl
      have hsource : env.program.sourceOf id = t.source := by simp [Program.sourceOf, ht]
      have hlive : (live ((t.entered?.map Task.enterGroup).toList ++
          [.run (t.activation id s.depth position hasChildren g.passed)] ++ rest)
            s'.nodes).filterMap (Entry.started? env.program) =
          (id, t.source) :: (live (.dispatch g exclude hasChildren :: rest) s.nodes).filterMap
            (Entry.started? env.program) := by
        rw [hnodes]
        cases t.entered? <;> simp [Entry.started?, Template.activation, Activation.template?,
          Activation.start, hsource]
      rw [hlive, hpassed]
      exact .into _ _
  | run a =>
    by_cases ha : a.frames = []
    · obtain ⟨rfl, hconclude⟩ := (yields_advance_nil ha).mp hy
      have hnodes := State.nodes_eq (inputSide_conclude hconclude)
      have hp := passages_conclude hconclude
      rw [List.nil_append, live_run, hnodes]
      cases hid : a.template? with
      | none =>
        rw [hid] at hp
        refine .of_eq (kept [] hp rfl) ?_
        rw [List.filterMap_cons_none]
        simp [Entry.started?, hid]
      | some id =>
        have hpassed : s'.record.templatePassages =
            .outOf (id, env.program.sourceOf id) :: s.record.templatePassages := by
          rw [Record.templatePassages, hp, hid]
          rfl
        have hlive : (⟨a, s.nodes.map OpenNode.event⟩ :: live rest s.nodes).filterMap
            (Entry.started? env.program) = (id, env.program.sourceOf id) ::
              (live rest s.nodes).filterMap (Entry.started? env.program) := by
          rw [List.filterMap_cons_some]
          simp [Entry.started?, hid]
        rw [hlive, hpassed]
        exact .outOf _ _
    · exact .of_eq (kept [] (passages_advance ha hy) rfl)
        (hmove.started_eq (by simp) fun b hb => Task.run.inj hb ▸ ha)
  | begin => exact .of_eq (kept [_] (passages_begin hy) rfl) (idle (by simp) (by simp))
  | attributes as g =>
    refine .of_eq ?_ (idle (by simp) (by simp))
    cases as with
    | nil =>
      obtain ⟨-, rfl⟩ := yields_pure.mp hy
      rfl
    | cons p as => exact kept [_] (passages_attributes hy) rfl
  | offer e hasChildren =>
    refine .of_eq ?_ (idle (by simp) (by simp))
    rcases passages_offer hy with ⟨-, hp⟩ | ⟨-, hp⟩
    · exact kept [_] hp rfl
    · exact kept [] hp rfl
  | unwind mode =>
    refine .of_eq ?_ (idle (by simp) (by simp))
    obtain ⟨n, ns, -, ⟨-, hp⟩ | ⟨-, hp⟩⟩ := passages_unwind hy
    · exact kept [] hp rfl
    · refine kept _ hp ?_
      split <;> rfl
  | _ =>
    exact .of_eq (kept [] (still rfl) rfl) (idle (by simp) (by simp))

end

/-! ## Runs -/

theorem Input.apply_record (i : Input) (s : State) : (i.apply s).record = s.record := by
  cases i <;> rfl

section
variable {env : Environment} {m m₀ m₁ m' : Moment} {e : Entry} {id : TemplateId}

/-- What has been entered and not left is what is open and what is under way. -/
structure Traced (env : Environment) (m : Moment) : Prop where
  nodes : Bracketed m.state.record.nodePassages (entered m.agenda m.state.nodes)
  templates : Bracketed m.state.record.templatePassages
    (m.live.filterMap (Entry.started? env.program))

theorem traced_of_reached (hm : Reached env m) : Traced env m := by
  induction hm with
  | first i _ =>
    refine ⟨?_, ?_⟩
    · rw [Moment.take, i.apply_record, i.apply_nodes, entered_outer i.outer_tasks]
      exact .nil
    · rw [live_take_initial, Moment.take, i.apply_record]
      exact .nil
  | @next m m' hm hn ih =>
    cases hn with
    | task hy =>
      have ho := (sound_of_reached hm).orderly
      exact ⟨(node_move hy ho).bracketed ih.nodes, (template_move hy ho).bracketed ih.templates⟩
    | call i hd ha =>
      refine ⟨?_, ?_⟩
      · have hnodes := ih.nodes
        rw [hd, entered_nil] at hnodes
        rw [Moment.take, i.apply_record, i.apply_nodes, entered_outer i.outer_tasks]
        exact hnodes
      · rw [live_call i hd, Moment.take, i.apply_record]
        exact ih.templates

theorem template_move_of_next (hm : Reached env m) (hn : Next env m m') :
    PassageMove m.state.record.templatePassages
      (m.live.filterMap (Entry.started? env.program)) m'.state.record.templatePassages
      (m'.live.filterMap (Entry.started? env.program)) := by
  cases hn with
  | task hy => exact template_move hy (sound_of_reached hm).orderly
  | call i hd ha =>
    refine .of_eq (congrArg Record.templatePassages (i.apply_record m.settled)) ?_
    rw [live_call i hd]

theorem Entry.started_eq (hrole : e.activation.role = .template id) :
    e.started? env.program = some (id, env.program.sourceOf id) := by
  simp [Entry.started?, Activation.template?, hrole]

/-- The step that puts an activation of a template on top notes it, -/
theorem noted_of_push (hm : Reached env m) (hn : Next env m m') (hl : m'.live = e :: m.live)
    (hrole : e.activation.role = .template id) : m'.state.record.templatePassages =
      .into (id, env.program.sourceOf id) :: m.state.record.templatePassages := by
  refine (template_move_of_next hm hn).eq_into ?_
  rw [hl, List.filterMap_cons_some (Entry.started_eq hrole)]

/-- and so does the step that takes it off. -/
theorem noted_of_pop (hm : Reached env m) (hn : Next env m m') (hl : m.live = e :: m'.live)
    (hrole : e.activation.role = .template id) : m'.state.record.templatePassages =
      .outOf (id, env.program.sourceOf id) :: m.state.record.templatePassages := by
  refine (template_move_of_next hm hn).eq_outOf ?_
  rw [hl, List.filterMap_cons_some (Entry.started_eq hrole)]

end

/-- What observers are told of a document: -/
structure TraceBracketed (env : Environment) : Prop where
  /-- At the end of the document everything that was entered has been left, in the reverse order. -/
  ended : ∀ (fuel : Nat) (is : List Input) (s s' : State),
    (State.initial env.program).receiveAll env fuel is = (.completed, s) →
    s.receive env fuel .endDocument = (.completed, s') →
    Bracketed s'.record.nodePassages [] ∧ Bracketed s'.record.templatePassages []
  /-- An activation of a template is noted as it starts, -/
  started : ∀ (m m' : Moment) (e : Entry) (id : TemplateId), Reached env m → Next env m m' →
    m'.live = e :: m.live → e.activation.role = .template id →
    m'.state.record.templatePassages =
      .into (id, env.program.sourceOf id) :: m.state.record.templatePassages
  /-- and once more by the one step that ends it, which comes before the end of the document. -/
  left : ∀ (m₀ m₁ m : Moment) (e : Entry) (id : TemplateId), Reached env m₀ → Next env m₀ m₁ →
    m₁.live = e :: m₀.live → e.activation.role = .template id →
    Stretch env (fun _ => True) m₁ m → m.input = .endDocument → m.agenda = [] →
    ∃ m₂ m₃, Stretch env (fun x => ∃ e', e.Changes e' ∧ e' :: m₀.live <:+ x.live) m₁ m₂ ∧
      Next env m₂ m₃ ∧ m₃.live = m₀.live ∧
      m₃.state.record.templatePassages =
        .outOf (id, env.program.sourceOf id) :: m₂.state.record.templatePassages ∧
      Stretch env (fun _ => True) m₃ m

theorem trace_is_bracketed (env : Environment) : TraceBracketed env where
  ended fuel is s s' hc he := by
    have hb := between_of_receiveAll (.inl rfl) hc
    obtain ⟨m, hm, hi, hd, rfl⟩ := reached_of_receive hb he
    obtain ⟨hnodes, htemplates⟩ := traced_of_reached hm
    have hnone : m.state.nodes = [] := nodes_of_ended hm hi hd
    rw [Moment.live, hd, hnone] at htemplates
    rw [hd, hnone] at hnodes
    exact ⟨hnodes, htemplates⟩
  started m m' e id := noted_of_push
  left m₀ m₁ m e id hm hn hl hrole hstretch hi hd := by
    have hm₁ := hm.next hn
    have htop : ∃ e', e.Changes e' ∧ e' :: m₀.live <:+ m₁.live :=
      ⟨e, ⟨rfl, .refl _⟩, hl.symm ▸ List.suffix_refl _⟩
    rcases exists_removal Moment.live (fun m => Entry.Begins m.state.nodes) Entry.Changes
        (fun e e' e'' h h' => ⟨h'.1.trans h.1, h.2.trans h'.2⟩) (fun m m' => live_move_of_next) hm₁
        hstretch htop with
      hkept | ⟨m₂, m₃, e', hkept, hn₂, hc, h₂, h₃, hlater⟩
    · obtain ⟨e', -, hlast⟩ := hkept.last
      have hnone : m.state.nodes = [] := nodes_of_ended (hkept.reached hm₁) hi hd
      have hnolive : m.live = [] := by rw [Moment.live, hd, hnone]; rfl
      cases List.suffix_nil.mp (hnolive ▸ hlast)
    · have hrole' : e'.activation.role = .template id := hc.2.role.trans hrole
      exact ⟨m₂, m₃, hkept, hn₂, h₃, noted_of_pop (hkept.reached hm₁) hn₂ (h₃.symm ▸ h₂) hrole', hlater⟩

end StreamTransform
