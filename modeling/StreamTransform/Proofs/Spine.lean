import StreamTransform.Proofs.DocumentOrder
import StreamTransform.Proofs.Faults
import StreamTransform.Proofs.GroupFrames
import StreamTransform.Proofs.Suspension

/-!
# The open nodes and the names of the input

The input knows its open elements by name, and the nodes that are open once the
agenda is worked off are the root and some of these elements. `Spined` matches
the two lists name by name: on top of the elements with a node come those that
are skipped, and on top of all the one whose start tag is not delivered yet. So
no operation misses a node, and the end of the document closes the root alone.
-/

namespace StreamTransform

/-- The name of the element that a content starts. -/
def Content.elementName? : Content → Option QName
  | .element n _ => some n
  | _ => none

theorem Content.isElement_eq (c : Content) : c.isElement = c.elementName?.isSome := by
  cases c <;> rfl

/-- The events of the root and of elements with these names, the innermost first. -/
inductive Spine : List Event → List QName → Prop
  | root {e : Event} : e.content = .root → Spine [e] []
  | element {e : Event} {n : QName} {es : List Event} {ns : List QName} :
      e.content.elementName? = some n → Spine es ns → Spine (e :: es) (n :: ns)

theorem Spine.length_eq {es : List Event} {ns : List QName} (h : Spine es ns) :
    es.length = ns.length + 1 := by
  induction h with
  | root => rfl
  | element _ _ ih => simp [ih]

theorem Spine.of_cons {e : Event} {n : QName} {es : List Event} {ns : List QName}
    (h : Spine (e :: es) (n :: ns)) : Spine es ns := by
  cases h with
  | element _ h => exact h

theorem Spine.eq_root {es : List Event} (h : Spine es []) : ∃ e, es = [e] ∧ e.content = .root := by
  cases h with
  | root he => exact ⟨_, rfl, he⟩

/-- From the root down: the root comes first, and elements with the names follow. -/
theorem Spine.reversed {es : List Event} {ns : List QName} (h : Spine es ns) :
    ∃ r below, es.reverse = r :: below ∧ r.content = .root ∧
      (∀ e ∈ below, e.content.isElement) ∧ below.map Event.name? = ns.reverse.map some := by
  induction h with
  | root he => exact ⟨_, [], rfl, he, by simp, rfl⟩
  | @element e n es ns hn _ ih =>
    obtain ⟨r, below, hes, hr, helements, hnames⟩ := ih
    obtain ⟨as, hcontent⟩ : ∃ as, e.content = .element n as := by
      cases hc : e.content <;> simp_all [Content.elementName?]
    refine ⟨r, below ++ [e], by simp [hes], hr, ?_, ?_⟩
    · intro e' he'
      rcases List.mem_append.mp he' with he' | he'
      · exact helements e' he'
      · rw [List.mem_singleton.mp he', hcontent]
        rfl
    · simp [hnames, Event.name?, hcontent, Content.name?]

/-! ## What the agenda has still to do -/

/-- The agenda ends the output and does nothing else. -/
def endsOutput : List Task → Bool
  | [.endOutput] => true
  | _ => false

/-- How many nodes the agenda closes, apart from the root at the end of the document. -/
def closings : List Task → Nat
  | [] => 0
  | t :: ts =>
    match t with
    | .close mode | .unwind mode =>
      if mode = .final ∧ endsOutput ts then closings ts else closings ts + 1
    | _ => closings ts

/-- How many elements have ended whose nodes the agenda has still to close. -/
def owedEnds : List Task → Nat
  | [] => 0
  | t :: ts =>
    match t with
    | .leave => 1
    | .checkEnd _ => 0
    | _ => owedEnds ts

/-- The element that a task is about to meet. -/
def Task.arriving : Task → List QName
  | .meet c _ => c.elementName?.toList
  | .offer e _ => e.content.elementName?.toList
  | _ => []

/-- The elements that the agenda is about to meet. -/
def arrivals (ts : List Task) : List QName := ts.flatMap Task.arriving

/-- The open elements that neither have a node yet nor are skipped. -/
def State.arriving (x : State) (ts : List Task) : List QName :=
  (x.pendingStart.map Prod.fst).toList ++ arrivals ts

@[simp] theorem closings_nil : closings [] = 0 := rfl

@[simp] theorem closings_level {t : Task} (ht : t.isLevel) (ts : List Task) :
    closings (t :: ts) = closings ts := by
  cases t <;> first | rfl | cases ht

@[simp] theorem closings_run (a : Activation) (ts : List Task) :
    closings (.run a :: ts) = closings ts := rfl

theorem closings_unwind (mode : Closing) (ts : List Task) :
    closings (.unwind mode :: ts) = closings (.close mode :: ts) := rfl

@[simp] theorem closings_sibling (ts : List Task) :
    closings (.close .sibling :: ts) = closings ts + 1 := by simp [closings]

@[simp] theorem closings_restored (ts : List Task) :
    closings (.close .restored :: ts) = closings ts + 1 := by simp [closings]

theorem closings_close {ts : List Task} (h : ts ≠ [.endOutput]) (mode : Closing) :
    closings (.close mode :: ts) = closings ts + 1 := by
  have hends : endsOutput ts = false := by
    unfold endsOutput
    split
    · exact absurd rfl h
    · rfl
  simp [closings, hends]

@[simp] theorem owedEnds_nil : owedEnds [] = 0 := rfl

@[simp] theorem arrivals_nil : arrivals [] = [] := rfl

@[simp] theorem arrivals_cons (t : Task) (ts : List Task) :
    arrivals (t :: ts) = t.arriving ++ arrivals ts := by simp [arrivals]

theorem closings_of_outer {ts : List Task} (h : Outer ts) : closings ts = 0 := by
  induction h with
  | flush closing _ ih => simpa using ih
  | meet c hasChildren _ ih => simpa using ih
  | _ => rfl

theorem closings_enterGroups (gs : List GroupId) (ts : List Task) :
    closings (gs.map Task.enterGroup ++ ts) = closings ts := by
  induction gs with
  | nil => rfl
  | cons g gs ih => simpa using ih

theorem owedEnds_enterGroups (gs : List GroupId) (ts : List Task) :
    owedEnds (gs.map Task.enterGroup ++ ts) = owedEnds ts := by
  induction gs with
  | nil => rfl
  | cons g gs ih => simpa [owedEnds] using ih

theorem arrivals_enterGroups (gs : List GroupId) (ts : List Task) :
    arrivals (gs.map Task.enterGroup ++ ts) = arrivals ts := by
  induction gs with
  | nil => rfl
  | cons g gs ih => simpa [Task.arriving] using ih

/-! ## The invariant -/

/-- The names of the open elements: `ended` are no more open, `skipped` belong to skipped content,
and `names` have nodes that stay open when the agenda is worked off. -/
structure Spined (ts : List Task) (x : State) (ended skipped names : List QName) : Prop where
  spine : Spine ((x.nodes.map OpenNode.event).drop (closings ts)) names
  skips : skipped.length = x.skipDepth
  ends : ended.length = owedEnds ts
  opened : ended ++ x.inputOpen = x.arriving ts ++ skipped ++ names
  single : (x.arriving ts).length ≤ 1

/-- The names of the open elements match the nodes in some way. -/
def IsSpined (ts : List Task) (x : State) : Prop :=
  ∃ ended skipped names, Spined ts x ended skipped names

section
variable {env : Environment} {t : Task} {ts ts' rest : List Task} {x x' : State}
  {ended skipped names : List QName}

theorem Spined.nodes_ne_nil (h : Spined ts x ended skipped names) : x.nodes ≠ [] := by
  intro hn
  have hlength := h.spine.length_eq
  simp [hn] at hlength

/-- Nothing changes of what is matched. -/
theorem Spined.same (h : Spined ts x ended skipped names)
    (hspine : (x'.nodes.map OpenNode.event).drop (closings ts') =
      (x.nodes.map OpenNode.event).drop (closings ts))
    (hskip : x'.skipDepth = x.skipDepth) (hopen : x'.inputOpen = x.inputOpen)
    (hends : owedEnds ts' = owedEnds ts) (harriving : x'.arriving ts' = x.arriving ts) :
    IsSpined ts' x' :=
  ⟨ended, skipped, names, hspine ▸ h.spine, h.skips.trans hskip.symm, h.ends.trans hends.symm,
    by rw [hopen, harriving]; exact h.opened, harriving ▸ h.single⟩

theorem Spined.pending (h : Spined ts x ended skipped names) (hnone : x.pendingStart = none) :
    ended ++ x.inputOpen = arrivals ts ++ skipped ++ names ∧ (arrivals ts).length ≤ 1 := by
  obtain ⟨-, -, -, hopened, hsingle⟩ := h
  rw [State.arriving, hnone] at hopened hsingle
  exact ⟨hopened, hsingle⟩

/-- The element that the first task is about to meet is the only one, and the innermost one that is
open. -/
theorem Spined.arrived {m : QName} (h : Spined (t :: rest) x ended skipped names)
    (hnone : x.pendingStart = none) (ht : t.arriving = [m]) :
    arrivals rest = [] ∧ ended ++ x.inputOpen = m :: (skipped ++ names) := by
  obtain ⟨hpending, hone⟩ := h.pending hnone
  have harrivals : arrivals (t :: rest) = m :: arrivals rest := by
    rw [arrivals, List.flatMap_cons, ht]
    rfl
  rw [harrivals] at hpending hone
  have hnoMore : arrivals rest = [] :=
    List.eq_nil_of_length_eq_zero (Nat.le_zero.mp (Nat.le_of_succ_le_succ hone))
  rw [hnoMore] at hpending
  exact ⟨hnoMore, hpending⟩

theorem Spined.of_none (hnone : x.pendingStart = none)
    (hspine : Spine ((x.nodes.map OpenNode.event).drop (closings ts)) names)
    (hskips : skipped.length = x.skipDepth) (hends : ended.length = owedEnds ts)
    (hopened : ended ++ x.inputOpen = arrivals ts ++ skipped ++ names)
    (hsingle : (arrivals ts).length ≤ 1) : Spined ts x ended skipped names := by
  have harriving : x.arriving ts = arrivals ts := by
    rw [State.arriving, hnone]
    rfl
  exact ⟨hspine, hskips, hends, harriving ▸ hopened, harriving ▸ hsingle⟩

theorem spined_inputSide :
    Spined ts x.inputSide ended skipped names ↔ Spined ts x ended skipped names :=
  ⟨fun ⟨h₁, h₂, h₃, h₄, h₅⟩ => ⟨h₁, h₂, h₃, h₄, h₅⟩, fun ⟨h₁, h₂, h₃, h₄, h₅⟩ =>
    ⟨h₁, h₂, h₃, h₄, h₅⟩⟩

theorem isSpined_inputSide : IsSpined ts x.inputSide ↔ IsSpined ts x := by
  simp only [IsSpined, spined_inputSide]

/-- One step keeps the names and the nodes matched, up to the end of the root. -/
theorem Turn.spined (h : Turn env t x ts x') (ho : Orderly true (t :: rest) x.nodes)
    (hs : Spined (t :: rest) x ended skipped names) (hbegin : t ≠ .begin) (hend : t ≠ .endOutput)
    (hreleased : t.releases = false → x.pendingStart = none)
    (hskip : ∀ e hasChildren, t = .offer e hasChildren → x.skipDepth = 0) :
    IsSpined (ts ++ rest) x' ∨ ts ++ rest = [.endOutput] := by
  obtain ⟨hspine, hskips, hends, hopened, hsingle⟩ := id hs
  cases h with
  | begin => exact absurd rfl hbegin
  | endOutput => exact absurd rfl hend
  | conclude hopen =>
    cases ho.of_input rfl
    exact .inl (hs.same rfl rfl rfl rfl rfl)
  | flush closing =>
    left
    refine hs.same ?_ rfl rfl ?_ ?_
    · rcases x.pendingStart with - | p <;> rcases x.heldText env with - | u <;> simp
    · rcases x.pendingStart with - | p <;> rcases x.heldText env with - | u <;> rfl
    · rcases hp : x.pendingStart with - | p <;> rcases x.heldText env with - | u <;>
        simp [State.arriving, Task.arriving, Content.elementName?, hp]
  | hold n as =>
    cases ho.of_input rfl
    obtain rfl : ended = [] := List.eq_nil_of_length_eq_zero hends
    have hinput : x.inputOpen = skipped ++ names := (hs.pending (hreleased rfl)).1
    refine .inl ⟨[], skipped, names, hspine, hskips, rfl, ?_, Nat.le_refl 1⟩
    simp [State.arriving, hinput]
  | @checkEnd _ n o os hopen hsame =>
    cases ho.of_input rfl
    obtain rfl : ended = [] := List.eq_nil_of_length_eq_zero hends
    rw [hopen] at hopened
    exact .inl ⟨[o], skipped, names, hspine, hskips, rfl, hopened, hsingle⟩
  | leaveSkipped hpos =>
    cases ho.of_input rfl
    obtain ⟨o, rfl⟩ := List.length_eq_one_iff.mp hends
    have hpending := (hs.pending (hreleased rfl)).1
    cases skipped with
    | nil =>
      rw [← hskips] at hpos
      cases hpos
    | cons n skipped =>
      have hrest : skipped.length = x.skipDepth - 1 := by
        rw [← hskips]
        rfl
      exact .inl ⟨[], skipped, names, .of_none (hreleased rfl) hspine hrest rfl
        (List.cons.inj hpending).2 (Nat.zero_le 1)⟩
  | leave hzero =>
    cases ho.of_input rfl
    obtain ⟨o, rfl⟩ := List.length_eq_one_iff.mp hends
    obtain rfl : skipped = [] := List.eq_nil_of_length_eq_zero (hskips.trans hzero)
    have hpending := (hs.pending (hreleased rfl)).1
    -- the element that ended is the innermost one with a node, and this node is closed
    cases names with
    | nil => cases hpending
    | cons n names =>
      have hclosed : Spine ((x.nodes.map OpenNode.event).drop 1) names := by
        cases hn : x.nodes.map OpenNode.event with
        | nil =>
          rw [hn] at hspine
          cases hspine
        | cons e es =>
          rw [hn] at hspine
          exact Spine.of_cons hspine
      exact .inl ⟨[], [], names, .of_none (hreleased rfl) hclosed hskips rfl
        (List.cons.inj hpending).2 (Nat.zero_le 1)⟩
  | @meetSkipped _ c hasChildren hpos =>
    left
    cases hc : c.elementName? with
    | none =>
      refine hs.same (by simp) ?_ rfl rfl ?_
      · simp [c.isElement_eq, hc]
      · simp [State.arriving, Task.arriving, hc]
    | some n =>
      have hnone := hreleased rfl
      obtain ⟨hnoMore, hpending⟩ := hs.arrived (m := n) hnone (by rw [Task.arriving, hc]; rfl)
      refine ⟨ended, n :: skipped, names, .of_none hnone (by simpa using hspine) ?_ hends ?_
        (by simp [hnoMore])⟩
      · simp [c.isElement_eq, hc, hskips]
      · simpa [hnoMore] using hpending
  | @meet _ c hasChildren n ns hzero hn =>
    left
    refine hs.same (by simp [hn]) rfl rfl rfl ?_
    simp [State.arriving, Task.arriving, Event.register, Event.met]
  | @offerOpened _ e hasChildren n ns g hn =>
    left
    have hr := closings_of_outer ho.of_offer
    cases hc : e.content.elementName? with
    | none =>
      simp only [e.content.isElement_eq, hc]
      refine hs.same (by simp [hn, hr]) rfl rfl rfl ?_
      simp [State.arriving, Task.arriving, hc]
    | some m =>
      have hnone := hreleased rfl
      obtain ⟨hnoMore, hpending⟩ := hs.arrived (m := m) hnone (by rw [Task.arriving, hc]; rfl)
      obtain rfl : skipped = [] :=
        List.eq_nil_of_length_eq_zero (hskips.trans (hskip e hasChildren rfl))
      simp only [e.content.isElement_eq, hc]
      rw [closings_level rfl, hr, hn] at hspine
      refine ⟨ended, [], m :: names, .of_none hnone ?_ hskips hends ?_
        (by simp [Task.arriving, hnoMore])⟩
      · simp only [Option.isSome_some, if_true, List.cons_append, List.nil_append, closings_level,
          hr]
        exact .element hc hspine
      · simpa [Task.arriving, hnoMore] using hpending
  | @offerDeclined _ e hasChildren n ns w ws hn hw =>
    exact .inl (hs.same (by simp [hn, closings_of_outer ho.of_offer]) rfl rfl rfl rfl)
  | @offerSkipped _ e hasChildren n ns hn hw hchildren =>
    left
    cases hc : e.content.elementName? with
    | none =>
      refine hs.same (by simp) ?_ rfl rfl ?_
      · simp [e.content.isElement_eq, hc]
      · simp [State.arriving, Task.arriving, hc]
    | some m =>
      have hnone := hreleased rfl
      obtain ⟨hnoMore, hpending⟩ := hs.arrived (m := m) hnone (by rw [Task.arriving, hc]; rfl)
      obtain rfl : skipped = [] :=
        List.eq_nil_of_length_eq_zero (hskips.trans (hskip e hasChildren rfl))
      refine ⟨ended, [m], names, .of_none hnone (by simpa using hspine) ?_ hends ?_
        (by simp [hnoMore])⟩
      · simp [e.content.isElement_eq, hc]
      · simpa [hnoMore] using hpending
  | @dispatchTemplate _ _ _ _ _ t position ht =>
    left
    cases t.entered? with
    | none => exact hs.same rfl rfl rfl rfl rfl
    | some g => exact hs.same rfl rfl rfl rfl rfl
  | dispatchBuiltIn copied hn => exact .inl (hs.same (by simp [hn]) rfl rfl rfl rfl)
  | runChildren fs g hn hi | runSiblings fs r hn hi | runSelf fs g exclude hn hi =>
    exact .inl (hs.same (by simp [hn]) rfl rfl rfl rfl)
  | selfResumed hn ha => exact .inl (hs.same (by simp [hn]) rfl rfl rfl rfl)
  | attributes =>
    refine .inl (hs.same ?_ rfl rfl rfl rfl)
    simp [closings_close]
  | @closeWaits _ mode n ns w ws hn hw =>
    exact .inl (hs.same (by simp [hn]) rfl rfl rfl rfl)
  | closeClear hc => exact .inl (hs.same rfl rfl rfl rfl rfl)
  | @unwindPopped _ mode n ns hn hout =>
    by_cases hlast : rest = [.endOutput]
    · exact .inr hlast
    · refine .inl (hs.same ?_ rfl rfl rfl rfl)
      simp [hn, closings_unwind, closings_close hlast, map_event_handOn]
  | unwindResumed hn ha hout hrole | unwindBuiltIn hn ha hout hrole =>
    exact .inl (hs.same (by simp [hn]) rfl rfl rfl rfl)
  | _ => exact .inl (hs.same rfl rfl rfl rfl rfl)

/-- The start of the document opens the root alone. -/
theorem Turn.spined_of_begin (h : Turn env .begin x ts x') (hx : x.Unstarted) : IsSpined ts x' := by
  cases h with
  | begin =>
    have hroot : Spine [Event.met x.serial .root] [] := .root rfl
    refine ⟨[], [], [], .of_none hx.pendingStart ?_ hx.skipDepth.symm ?_ ?_ ?_⟩
    · rw [closings_enterGroups]
      simpa [hx.nodes, OpenNode.fresh] using hroot
    · rw [owedEnds_enterGroups]
      rfl
    · rw [arrivals_enterGroups]
      simpa [Task.arriving] using hx.inputOpen
    · rw [arrivals_enterGroups]
      exact Nat.zero_le 1

end

/-! ## Runs -/

section
variable {env : Environment} {i : Input} {m : Moment}

/-- The document has not begun. -/
def Moment.IsAhead (m : Moment) : Prop := m.state.status = .notStarted ∨ .begin ∈ m.agenda

/-- The root has been closed. -/
def Moment.IsOver (m : Moment) : Prop :=
  m.agenda = [.endOutput] ∨ (m.agenda = [] ∧ m.settled.status = .finished)

theorem Spined.take {ended skipped names : List QName} (h : Spined [] m.state ended skipped names)
    (i : Input) : IsSpined (Moment.take i m.settled).agenda (Moment.take i m.settled).state := by
  refine h.same ?_ ?_ ?_ ?_ ?_
  · simp only [Moment.take, i.apply_nodes, closings_of_outer i.outer_tasks, closings_nil]
    rfl
  all_goals cases i <;> rfl

theorem status_of_ahead (hm : Reached env m) (hd : m.agenda = []) (ha : m.IsAhead) :
    m.settled.status = .notStarted := by
  have hn : m.state.status = .notStarted := by simpa [Moment.IsAhead, hd] using ha
  have hrunning := (concluding_of_reached hm).running
  obtain ⟨j, ts, s⟩ := m
  cases j with
  | endDocument =>
    have hcontra := hrunning rfl
    rw [hn] at hcontra
    cases hcontra
  | _ => exact hn

/-- Nothing is met before the document has begun. -/
theorem met_eq_nil_of_ahead {is : List Input} {met : List Mark} (h : Fed env is met m)
    (ha : m.IsAhead) : met = [] := by
  induction h with
  | first i _ => rfl
  | @task is met i t rest ts s s' hf hy _ =>
    have hsound := sound_of_reached hf.reached
    have hturn := Turn.of_yields hy
    rcases ha with hn | hb
    · have hrunning : s'.status = .running := hturn.status_eq.trans (hsound.started (by simp))
      rw [hrunning] at hn
      cases hn
    · exact absurd hb (hsound.begin_notMem hturn)
  | @call is met m i hf hd hr ih =>
    refine ih (.inl ?_)
    have hsettled : m.settled.status = .notStarted := by
      cases i with
      | startDocument => cases hs : m.settled.status <;> simp [hs, Input.refusal?] at hr ⊢
      | _ => simpa [Moment.IsAhead, Moment.take, Input.tasks, Input.apply] using ha
    obtain ⟨j, agenda, s⟩ := m
    cases j <;> first | exact hsettled | cases hsettled

/-- Apart from the tasks that start the document and end the output, a task is performed while the
document is in process. -/
theorem Sound.stage {P : Prop} {t : Task} {rest : List Task} {s : State}
    (hs : Sound ⟨i, t :: rest, s⟩)
    (h : Moment.IsAhead ⟨i, t :: rest, s⟩ ∨ Moment.IsOver ⟨i, t :: rest, s⟩ ∨ P) :
    t = .begin ∨ t = .endOutput ∨ P := by
  rcases h with (hn | hb) | (hover | ⟨hnone, -⟩) | hp
  · have hrunning : s.status = .running := hs.started (by simp)
    rw [hrunning] at hn
    cases hn
  · exact .inl (List.cons.inj (hs.alone hb)).1
  · exact .inr (.inl (List.cons.inj hover).1)
  · cases hnone
  · exact .inr (.inr hp)

/-- What holds once the document has begun, and is kept by the tasks up to the end of the root and
by every call, holds while the document is in process. -/
theorem in_process {P : List Mark → Moment → Prop} {is : List Input} {met : List Mark}
    (hbegin : ∀ i ts (s s' : State), s.inputSide.Unstarted → Turn env .begin s.inputSide ts s'.inputSide →
      P [] ⟨i, ts, s'⟩)
    (htask : ∀ met i t rest ts (s s' : State), Sound ⟨i, t :: rest, s⟩ →
      Turn env t s.inputSide ts s'.inputSide → t ≠ .begin → t ≠ .endOutput →
      P met ⟨i, t :: rest, s⟩ → P (met ++ t.meets) ⟨i, ts ++ rest, s'⟩ ∨ ts ++ rest = [.endOutput])
    (hcall : ∀ met i m, m.agenda = [] → P met m → P met (.take i m.settled))
    (h : Fed env is met m) : m.IsAhead ∨ m.IsOver ∨ P met m := by
  induction h with
  | first i ha =>
    left
    cases i with
    | startDocument => exact .inr (by simp [Moment.take, Input.tasks])
    | parameter n v => exact .inl rfl
    | _ => cases ha
  | @task is met i t rest ts s s' hf hy ih =>
    have hsound := sound_of_reached hf.reached
    have hturn := Turn.of_yields hy
    right
    by_cases ht : t = .begin
    · subst ht
      obtain ⟨-, rfl⟩ := List.cons.inj (hsound.alone List.mem_cons_self)
      obtain rfl := met_eq_nil_of_ahead hf (.inr List.mem_cons_self)
      obtain ⟨h₁, h₂, h₃, h₄⟩ := hsound.unstarted (.inr List.mem_cons_self)
      rw [List.append_nil]
      exact .inr (hbegin i ts s s' ⟨h₁, h₂, h₃, h₄⟩ hturn)
    · by_cases hend : t = .endOutput
      · subst hend
        obtain ⟨rfl, rfl, -⟩ := nodes_of_endOutput hf.reached
        obtain rfl := hturn.endOutput_tasks
        exact .inl (.inr ⟨rfl, rfl⟩)
      · have hs := ((hsound.stage ih).resolve_left ht).resolve_left hend
        rcases htask met i t rest ts s s' hsound hturn ht hend hs with hs' | hlast
        · exact .inr hs'
        · exact .inl (.inl hlast)
  | @call is met m i hf hd ha ih =>
    rcases ih with hahead | hover | hs
    · have hn := status_of_ahead hf.reached hd hahead
      rw [hn] at ha
      left
      cases i with
      | startDocument => exact .inr (by simp [Moment.take, Input.tasks])
      | parameter n v => exact .inl hn
      | _ => cases ha
    · have hfinished : m.settled.status = .finished := by simpa [Moment.IsOver, hd] using hover
      rw [hfinished] at ha
      cases i with
      | parameter n v => exact .inr (.inl (.inr ⟨rfl, hfinished⟩))
      | _ => cases ha
    · exact .inr (.inr (hcall met i m hd hs))

/-- While the document is in process, the names of the open elements match the nodes. -/
theorem spined_of_reached (h : Reached env m) :
    m.IsAhead ∨ m.IsOver ∨ IsSpined m.agenda m.state := by
  obtain ⟨is, met, hf⟩ := exists_fed h
  refine in_process (P := fun _ m => IsSpined m.agenda m.state) ?_ ?_ ?_ hf
  · intro i ts s s' hx hturn
    exact isSpined_inputSide.mp (hturn.spined_of_begin hx)
  · intro met i t rest ts s s' hsound hturn hbegin hend ⟨ended, skipped, names, hs⟩
    exact (hturn.spined hsound.orderly (spined_inputSide.mpr hs) hbegin hend
      (fun hr => hsound.pendingStart_eq_none hr)
      (fun e hasChildren he => hsound.unskipped e hasChildren (by simp [he]))).imp_left
        isSpined_inputSide.mp
  · intro met i m hd ⟨ended, skipped, names, hs⟩
    rw [hd] at hs
    exact hs.take i

/-- A task finds a node open, unless it starts the document or ends the output. -/
theorem task_of_nodes_eq_nil {t : Task} {rest : List Task} {s : State}
    (hm : Reached env ⟨i, t :: rest, s⟩) (hn : s.nodes = []) : t = .begin ∨ t = .endOutput := by
  rcases (sound_of_reached hm).stage (spined_of_reached hm) with
    hbegin | hend | ⟨ended, skipped, names, hs⟩
  · exact .inl hbegin
  · exact .inr hend
  · exact absurd hn hs.nodes_ne_nil

end

/-! ## Missing nodes -/

/-- A node is missing where the work on the input relies on one. -/
def Fault.OfNodes (f : Fault) : Prop := f.isPositional

theorem Fault.inner_ofNodes : Fault.Inner Fault.OfNodes := by
  intro f hf
  cases f <;> first | exact ⟨rfl, rfl⟩ | cases hf

open Operation in
/-- While an instruction executes, its node is open. So at most the declaration of a variable comes
to a fault that tells of bookkeeping gone wrong: one in a group that has no frame. -/
theorem neverProduced_of_framed {kind : Fault → Prop} (hk : Fault.Inner kind)
    (h : (∃ name, kind (.noGroupFrame name)) → ∀ i a rest s f fs n c g,
      Reached env ⟨i, .run a :: rest, s⟩ → a.frames = f :: fs →
      env.program.code[f.cursor]? = some n → n.Concerns env.program.code c →
      c.home? = some (.group g) → 0 < s.frames.depth g) : NeverProduced env kind := by
  refine neverProduced_of_tasks hk fun i t rest s hm hs =>
    Task.ensures_excused hk hs (task_of_nodes_eq_nil hm) fun a f fs n ht ha hn => ?_
  subst ht
  have hnodes : s.nodes ≠ [] := fun hnil => by simpa using task_of_nodes_eq_nil hm hnil
  have hlive : (⟨i, .run a :: rest, s⟩ : Moment).live = [] ++
      ⟨a, s.nodes.map OpenNode.event⟩ :: live rest s.nodes := live_run a
  have hdepth : a.depth = s.depth := (startedBefore hm hlive).1
  let Held := fun x : State =>
    (x.nodes = s.nodes ∧ s.frames.Rebound x.frames) ∧ x.record.OnlyRefused kind
  have houtward : Outward env Held (Excused kind) := outward_excused hk fun _ _ hx => hx
  have bound : ∀ x k name v, Held x → Held { x with frames := x.frames.insert k name v } :=
    fun x k name v ⟨⟨hx, hf⟩, hr⟩ => ⟨⟨hx, hf.trans (GroupFrames.rebound_insert _ k name v)⟩, hr⟩
  have hserves : ∀ c, n.Concerns env.program.code c → Serves env Held (Excused kind) a c := by
    refine fun c hc => ⟨?_, fun home hhome f' name v => ?_, fun f' name v => ?_⟩
    · exact keeps_eventAt fun x hx =>
        ⟨hx.1.1 ▸ hnodes, by rw [hdepth, State.depth, State.depth, hx.1.1]⟩
    · refine keeps_declareVariable bound f' name v fun x g hx hg hnone => ?_
      have hkind : ¬ kind (.noGroupFrame name) := by
        intro hkind
        subst hg
        have hframed := h ⟨name, hkind⟩ i a rest s f fs n c g hm ha hn hc hhome
        rw [← hx.1.2.depth, ← GroupFrames.length_stack, List.length_pos_iff] at hframed
        exact hframed (List.head?_eq_none_iff.mp hnone)
      have hkept : Keeps Held (Excused kind)
          (report env .error (.noGroupFrame name) (some f'.cursor)) :=
        keeps_report_excused (fun _ _ hx => hx) hkind
      exact hkept x hx
    · exact houtward.assignVariable f' bound name v
  exact (houtward.execute a f n hserves s ⟨⟨rfl, .refl _⟩, hs⟩).mono
    (fun _ _ hx => ⟨hx.1.1 ▸ hnodes, hx.2⟩) fun _ _ hx => hx

/-- No operation ever misses a node. -/
theorem neverProduced_ofNodes (env : Environment) : NeverProduced env Fault.OfNodes :=
  neverProduced_of_framed Fault.inner_ofNodes fun ⟨_, hkind⟩ => nomatch hkind

/-! ## Between calls -/

/-- How the open nodes, the open elements and what is held back stand to one another. -/
structure State.InStep (s : State) : Prop where
  grounded : 1 ≤ s.depth
  levels : s.nodes.length = s.path.length
  root : s.path.head?.map Event.content = some .root
  elements : ∀ e ∈ s.path.tail, e.content.isElement
  counted : s.inputOpen.length =
    (s.depth - 1) + s.skipDepth + if s.pendingStart.isSome then 1 else 0
  named : s.path.tail.map Event.name? = (s.inputOpen.reverse.take (s.depth - 1)).map some

theorem inStep_of_spined {s : State} (h : IsSpined [] s) : s.InStep := by
  obtain ⟨ended, skipped, names, hspine, hskips, hends, hopened, -⟩ := h
  obtain rfl : ended = [] := List.eq_nil_of_length_eq_zero hends
  have hdepth : s.depth = names.length + 1 := by simpa [State.depth] using hspine.length_eq
  obtain ⟨r, below, hpath, hroot, helements, hnames⟩ := hspine.reversed
  have hpath : s.path = r :: below := by
    rw [State.path, List.map_reverse]
    exact hpath
  have hopen : s.inputOpen =
      (s.pendingStart.map Prod.fst).toList ++ skipped ++ names := by
    simpa [State.arriving] using hopened
  constructor
  · omega
  · simp [State.path]
  · simp [hpath, hroot]
  · simpa [hpath] using helements
  · rw [hopen, hdepth, ← hskips]
    cases s.pendingStart <;> simp <;> omega
  · have hlength : names.length = names.reverse.length := by simp
    rw [hpath, List.tail_cons, hnames, hopen, hdepth, Nat.add_sub_cancel, List.reverse_append,
      hlength, List.take_left]

section
variable {env : Environment} {s s' : State} {fuel : Nat}

theorem isSpined_of_between (h : Between env s) (hs : s.status = .running) : IsSpined [] s := by
  rcases h with rfl | ⟨m, hm, hd, rfl⟩
  · cases hs
  · rcases spined_of_reached hm with hahead | hover | ⟨ended, skipped, names, hspined⟩
    · rw [status_of_ahead hm hd hahead] at hs
      cases hs
    · have hf : m.settled.status = .finished := by simpa [Moment.IsOver, hd] using hover
      rw [hf] at hs
      cases hs
    · rw [hd] at hspined
      exact hspined.same rfl rfl rfl rfl rfl

/-- Only the root is open when no element is. -/
theorem root_of_spined {ts : List Task} (h : IsSpined ts s) (hc : closings ts = 0)
    (ho : owedEnds ts = 0) (hnone : s.inputOpen = []) :
    (∃ n, s.nodes = [n] ∧ n.event.content = .root) ∧ s.skipDepth = 0 ∧ s.pendingStart = none := by
  obtain ⟨ended, skipped, names, hspine, hskips, hends, hopened, -⟩ := h
  obtain rfl : ended = [] := List.eq_nil_of_length_eq_zero (hends.trans ho)
  rw [hnone, State.arriving, List.append_nil] at hopened
  simp only [List.nil_eq, List.append_eq_nil_iff] at hopened
  obtain ⟨⟨⟨hpending, -⟩, rfl⟩, rfl⟩ := hopened
  rw [hc, List.drop_zero] at hspine
  obtain ⟨e, hnodes, he⟩ := hspine.eq_root
  obtain ⟨n, hn, rfl⟩ := List.map_eq_singleton_iff.mp hnodes
  refine ⟨⟨n, hn, he⟩, hskips.symm, ?_⟩
  cases hp : s.pendingStart with
  | none => rfl
  | some p => simp [hp] at hpending

theorem Turn.checked {x x' : State} {ts : List Task} (h : Turn env .conclude x ts x') :
    x.inputOpen = [] := by
  cases h with
  | conclude hopen => exact hopen

/-- The end of the document is accepted only if no element is open. -/
theorem inputOpen_of_ended (h : s.receive env fuel .endDocument = (.completed, s')) :
    s.status = .running ∧ s.inputOpen = [] := by
  obtain ⟨ha, s₁, hrun, -⟩ := completed_receive_iff.mp h
  obtain ⟨k, ts, s₂, -, hy, -⟩ := completed_cons_iff.mp hrun
  have hturn := Turn.of_yields hy
  exact ⟨Input.running_of_accepted rfl ha, hturn.checked⟩

/-- After the end of the document no node is left. -/
theorem nodes_of_ended {m : Moment} (hm : Reached env m) (hi : m.input = .endDocument)
    (hd : m.agenda = []) : m.settled.nodes = [] := by
  obtain ⟨j, ts, s⟩ := m
  obtain rfl : j = .endDocument := hi
  obtain rfl : ts = [] := hd
  have hs := sound_of_reached hm
  have hopen : s.inputOpen = [] := by
    rcases hs.ended rfl with hc | hnone
    · cases hc
    · exact hnone
  have hb := hs.balanced
  have hfinished : (⟨.endDocument, [], s⟩ : Moment).settled.status = .finished := rfl
  rw [hfinished] at hb
  simp only [State.excess, hopen, agendaBalance_nil, List.length_nil, reduceCtorEq, if_false] at hb
  have hlength : s.nodes.length = 0 := by
    split at hb <;> omega
  exact List.eq_nil_of_length_eq_zero hlength

end

structure InputInStep (env : Environment) : Prop where
  /-- Between calls, while the document is in process, everything is in step. -/
  between : ∀ fuel is s, (State.initial env.program).receiveAll env fuel is = (.completed, s) →
    s.status = .running → s.InStep
  /-- Whatever is called and whatever becomes of it, no node is ever missed. -/
  unmissed : NeverProduced env Fault.OfNodes
  /-- When the end of the document passes its check, only the root is open, -/
  checked : ∀ m, Reached env m → m.agenda = [.conclude] → m.state.inputOpen = [] →
    (∃ n, m.state.nodes = [n] ∧ n.event.content = .root) ∧ m.state.skipDepth = 0 ∧
      m.state.pendingStart = none
  /-- this is the node that is closed, -/
  closing : ∀ m, Reached env m → m.agenda = [.close .final, .endOutput] →
    ∃ n, m.state.nodes = [n] ∧ n.event.content = .root
  /-- and none is left afterwards. -/
  ended : ∀ fuel is s s', (State.initial env.program).receiveAll env fuel is = (.completed, s) →
    s.receive env fuel .endDocument = (.completed, s') → s.depth = 1 ∧ s'.depth = 0

/-- Whatever is skipped, held back or waits for siblings, the open nodes are in step with the open
elements of the input. -/
theorem input_in_step (env : Environment) : InputInStep env where
  between fuel is s hc hs :=
    inStep_of_spined (isSpined_of_between (between_of_receiveAll (.inl rfl) hc) hs)
  unmissed := neverProduced_ofNodes env
  checked m hm ha hopen := by
    have hsound := sound_of_reached hm
    rcases spined_of_reached hm with (hn | hb) | (hover | ⟨hnone, -⟩) | hspined
    · have hrunning := hsound.started (by simp [ha])
      rw [hn] at hrunning
      cases hrunning
    · simp [ha] at hb
    · simp [ha] at hover
    · simp [ha] at hnone
    · exact root_of_spined hspined (by rw [ha]; rfl) (by rw [ha]; rfl) hopen
  closing m hm ha := by
    have hsound := sound_of_reached hm
    obtain ⟨j, ts, s⟩ := m
    obtain rfl : ts = [.close .final, .endOutput] := ha
    obtain rfl : j = .endDocument := (concluding_of_reached hm).only (by simp)
    have hopen : s.inputOpen = [] := by
      rcases hsound.ended rfl with hc | hnone
      · simp at hc
      · exact hnone
    rcases spined_of_reached hm with (hn | hb) | (hover | ⟨hnone, -⟩) | hspined
    · have hrunning : s.status = .running := hsound.started (by simp)
      rw [hrunning] at hn
      cases hn
    · simp at hb
    · simp at hover
    · cases hnone
    · exact (root_of_spined hspined rfl rfl hopen).1
  ended fuel is s s' hc he := by
    have hb := between_of_receiveAll (.inl rfl) hc
    obtain ⟨hs, hopen⟩ := inputOpen_of_ended he
    obtain ⟨⟨n, hn, -⟩, -⟩ := root_of_spined (isSpined_of_between hb hs) rfl rfl hopen
    obtain ⟨m, hm, hi, hd, rfl⟩ := reached_of_receive hb he
    exact ⟨by simp [State.depth, hn], by rw [State.depth, nodes_of_ended hm hi hd]; rfl⟩

/-- One element has a node, the start tag of another is held back. -/
example : (fun s : State => (s.status, s.depth, s.inputOpen.length, s.pendingStart.isSome))
    ((State.initial descendingProgram).receiveAll descending 20
      [.startDocument, .opening (.simple "a") [], .opening (.simple "b") []]).2 =
    (.running, 2, 2, true) := by
  decide +kernel

end StreamTransform
