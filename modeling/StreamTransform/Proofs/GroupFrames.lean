import StreamTransform.Proofs.Steady
import StreamTransform.Proofs.Turn

/-!
# The frames of groups

A step gives one group a fresh frame, takes the current one of a group away, or
at most binds names in current frames. The frames below the current one never
change.
-/

namespace StreamTransform

namespace GroupFrames

/-- The frames of a group, the current one at the head. -/
def stack (fs : GroupFrames) (g : GroupId) : List Bindings := fs.getD g []

variable {fs fs' fs'' : GroupFrames} {g k : GroupId}

theorem length_stack (fs : GroupFrames) (g : GroupId) : (fs.stack g).length = fs.depth g := rfl

theorem current?_eq_head? (fs : GroupFrames) (g : GroupId) :
    fs.current? g = (fs.stack g).head? := rfl

theorem stack_empty (groups : Nat) (g : GroupId) : (empty groups).stack g = [] := by
  simp [stack, empty, List.getD_eq_getElem?_getD, List.getElem?_replicate]
  split <;> rfl

theorem stack_modify {f : List Bindings → List Bindings} (h : g < fs.length ∨ f [] = []) :
    GroupFrames.stack (List.modify fs k f) g = if k = g then f (fs.stack g) else fs.stack g := by
  simp only [stack, List.getD_eq_getElem?_getD, List.getElem?_modify]
  split
  · cases hs : fs[g]? with
    | none =>
      have hf : f [] = [] := h.resolve_left (Nat.not_lt.mpr (List.getElem?_eq_none_iff.mp hs))
      simp [hf]
    | some st => simp
  · simp

@[simp] theorem length_push (fs : GroupFrames) (g : GroupId) : (fs.push g).length = fs.length :=
  List.length_modify ..

@[simp] theorem length_pop (fs : GroupFrames) (g : GroupId) : (fs.pop g).length = fs.length :=
  List.length_modify ..

theorem stack_push (hg : g < fs.length) :
    (fs.push k).stack g = if k = g then [] :: fs.stack g else fs.stack g := stack_modify (.inl hg)

theorem depth_push (hg : g < fs.length) :
    (fs.push k).depth g = fs.depth g + if k = g then 1 else 0 := by
  rw [← length_stack, stack_push hg]
  split <;> rfl

theorem stack_pop (fs : GroupFrames) (k g : GroupId) :
    (fs.pop k).stack g = if k = g then (fs.stack g).tail else fs.stack g := stack_modify (.inr rfl)

theorem depth_pop (fs : GroupFrames) (k g : GroupId) :
    (fs.pop k).depth g = fs.depth g - if k = g then 1 else 0 := by
  rw [← length_stack, stack_pop]
  split
  · exact List.length_tail
  · rfl

/-- Names may be bound in current frames; nothing else is changed. -/
structure Rebound (fs fs' : GroupFrames) : Prop where
  length : fs'.length = fs.length
  depth : ∀ g, fs'.depth g = fs.depth g
  below : ∀ g, (fs'.stack g).tail = (fs.stack g).tail

theorem Rebound.refl (fs : GroupFrames) : fs.Rebound fs := ⟨rfl, fun _ => rfl, fun _ => rfl⟩

theorem Rebound.trans (h : fs.Rebound fs') (h' : fs'.Rebound fs'') : fs.Rebound fs'' :=
  ⟨h'.length.trans h.length, fun g => (h'.depth g).trans (h.depth g),
    fun g => (h'.below g).trans (h.below g)⟩

theorem rebound_insert (fs : GroupFrames) (k : GroupId) (name : String) (v : Value) :
    fs.Rebound (fs.insert k name v) := by
  have bound : ∀ g, (fs.insert k name v).stack g = fs.stack g ∨
      ∃ f f' r, fs.stack g = f :: r ∧ (fs.insert k name v).stack g = f' :: r := by
    intro g
    have hstack : (fs.insert k name v).stack g = if k = g then _ else fs.stack g :=
      stack_modify (.inr rfl)
    rw [hstack]
    split
    · cases hs : fs.stack g with
      | nil => exact .inl rfl
      | cons f r => exact .inr ⟨f, _, r, rfl, rfl⟩
    · exact .inl rfl
  refine ⟨List.length_modify .., fun g => ?_, fun g => ?_⟩
  · rw [← length_stack, ← length_stack]
    rcases bound g with h | ⟨f, f', r, h, h'⟩
    · rw [h]
    · rw [h, h']
      rfl
  · rcases bound g with h | ⟨f, f', r, h, h'⟩
    · rw [h]
    · rw [h, h']
      rfl

end GroupFrames

/-- Tasks that leave the frames of groups alone. -/
def Task.sparesFrames : Task → Bool
  | .enterGroup _ | .run _ => false
  | .begin | .conclude | .endOutput | .flush _ | .hold .. | .checkEnd _ | .leave | .meet ..
  | .offer .. | .dispatch .. | .attributes .. | .selfDone _ | .close _ | .unwind _ => true

/-- What a task does to the frames of groups. -/
inductive FramesMove : Task → GroupFrames → GroupFrames → Prop
  | kept {t : Task} (fs : GroupFrames) : t.sparesFrames → FramesMove t fs fs
  | entered (g : GroupId) (fs : GroupFrames) : FramesMove (.enterGroup g) fs (fs.push g)
  | rebound {a : Activation} {fs fs' : GroupFrames} : a.frames ≠ [] → fs.Rebound fs' →
      FramesMove (.run a) fs fs'
  | left {a : Activation} {g : GroupId} (fs : GroupFrames) : a.frames = [] →
      a.entered = some g → FramesMove (.run a) fs (fs.pop g)
  | ended {a : Activation} (fs : GroupFrames) : a.frames = [] → a.entered = none →
      FramesMove (.run a) fs fs

theorem FramesMove.length_eq {t : Task} {fs fs' : GroupFrames} (h : FramesMove t fs fs') :
    fs'.length = fs.length := by
  cases h with
  | rebound _ h => exact h.length
  | _ => simp

namespace Operation

variable {env : Environment} {s s' : State} {ts : List Task}

theorem outward_frames (env : Environment) (P : GroupFrames → Prop) :
    Outward env (fun s => P s.frames) fun _ s => P s.frames :=
  outward_of_unseen fun _ _ hs => hs

theorem steady_frames (env : Environment) (P : GroupFrames → Prop) :
    Steady env (fun s => P s.frames) fun _ s => P s.frames where
  turned hs _ hf _ := by rwa [hf]
  stray hs _ _ := hs
  strayReported hs _ _ := preserves_report (P := fun s => P s.frames) (fun _ hs => hs) _ hs

theorem preserves_frames (env : Environment) (P : GroupFrames → Prop) (t : Task)
    (ht : t.sparesFrames) : Preserves (fun s => P s.frames) (t.perform env) := by
  have ho := outward_frames env P
  have hm := steady_frames env P
  have spared : ∀ {s s' : State}, P s.frames → s'.outlet = s.outlet → s'.frames = s.frames →
      P s'.frames := fun hs _ hf => by rwa [hf]
  cases t with
  | begin => exact ho.toCalm.begin (ho.toVocal.emit _ _) spared
  | endOutput => exact keeps_bind (ho.toVocal.voices.endOutput ho.toCalm) fun _ => keeps_pure _
  | dispatch g exclude hasChildren => exact hm.dispatch ho.toCalm ho g exclude hasChildren
  | unwind mode =>
    intro s hs
    exact ensures_unwind hm ho.toVocal.voices hs (ensures_popNode ho.toCalm spared (fun _ => hs) hs) fun _ _ h => h
  | enterGroup g => cases ht
  | run a => cases ht
  | _ => exact Task.keeps_perform ho.toCalm hm _ rfl nofun

theorem frames_conclude {a : Activation} {u : Unit} (h : (conclude env a).Yields s u s') :
    s'.frames = match a.entered with
      | some g => s.frames.pop g
      | none => s.frames := by
  cases he : a.entered with
  | some g =>
    simp only [conclude, he, yields_modify_bind] at h
    exact (sides_noteLeft h).2
  | none =>
    simp only [conclude, he] at h
    exact (sides_noteLeft h).2

/-- An activation without a body left only ends. -/
theorem yields_advance_nil {a : Activation} (ha : a.frames = []) :
    (advance env a).Yields s ts s' ↔ ts = [] ∧ (conclude env a).Yields s () s' := by
  simp only [advance, ha, yields_bind, yields_pure]
  constructor
  · rintro ⟨_, _, hconclude, rfl, rfl⟩
    exact ⟨rfl, hconclude⟩
  · rintro ⟨rfl, hconclude⟩
    exact ⟨(), s', hconclude, rfl, rfl⟩

/-- Instructions bind names in current frames at most. -/
theorem rebound_execute (env : Environment) (fs : GroupFrames) (a : Activation) (f : Frame)
    (n : Node) : Preserves (fun s => fs.Rebound s.frames) (execute env a f n) := by
  have ho := outward_frames env fs.Rebound
  have bound : ∀ (s : State) g name v, fs.Rebound s.frames →
      fs.Rebound (s.frames.insert g name v) :=
    fun s g name v hs => hs.trans (GroupFrames.rebound_insert _ g name v)
  refine ho.execute a f n fun c _ => ⟨preserves_eventAt _, fun home _ f name v => ?_,
    fun f name v => ho.toCalm.assignVariable f bound name v⟩
  exact keeps_declareVariable bound f name v fun s _ hs _ _ =>
    preserves_report (P := fun s => fs.Rebound s.frames) (fun _ hs => hs) s hs

end Operation

open Operation in
theorem framesMove_of_yields {env : Environment} {t : Task} {ts : List Task} {s s' : State}
    (h : (t.perform env).Yields s ts s') : FramesMove t s.frames s'.frames := by
  have spared : t.sparesFrames → FramesMove t s.frames s'.frames := by
    intro ht
    have hkept := (preserves_frames env (· = s.frames) t ht).of_yields h rfl
    rw [hkept]
    exact .kept _ ht
  cases t with
  | enterGroup g =>
    have hpush : s'.frames = s.frames.push g := by
      change (Operation.enterGroup env g).Yields s ts s' at h
      rw [Operation.enterGroup, yields_modify_bind] at h
      split at h
      · rw [(yields_pure.mp h).2]
      · rw [yields_get_bind] at h
        rw [(yields_pure.mp h).2]
    rw [hpush]
    exact .entered g _
  | run a =>
    cases ha : a.frames with
    | nil =>
      rw [frames_conclude ((yields_advance_nil ha).mp h).2]
      cases he : a.entered with
      | none => exact .ended _ ha he
      | some g => exact .left _ ha he
    | cons f fs =>
      have ho := outward_frames env s.frames.Rebound
      have hkept := (steady_frames env s.frames.Rebound).advance ho.toCalm (s := s)
        (GroupFrames.Rebound.refl _) a (fun hnil => by simp [ha] at hnil)
        (keeps_enterProcedure (fun _ => preserves_report fun _ hs => hs) fun _ _ hs => hs)
        (fun f _ n _ _ => rebound_execute env s.frames a f n s (GroupFrames.Rebound.refl _))
      exact .rebound (by simp [ha]) (hkept.of_yields h)
  | _ => exact spared rfl

end StreamTransform
