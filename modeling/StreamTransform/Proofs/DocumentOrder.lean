import StreamTransform.Proofs.Bookkeeping
import StreamTransform.Proofs.Copy

/-!
# Document order

What inputs amount to is a document: texts that follow one another are one text,
and those that do not count are left out. `Mark` walks through it in its order.
A run meets the nodes of the document in this order, whether they are processed
or skipped; what is held back and what is on the agenda is still to come.
-/

namespace StreamTransform

/-- A step through a document: a node, or the end of an element. -/
inductive Mark where
  | node (content : Content)
  | close
  deriving Repr, DecidableEq

/-- The document as far as it is read, apart from a text that may go on. -/
structure Reading where
  marks : List Mark
  text : String

namespace Reading

/-- What is read once the text ends. -/
def settle (c : Configuration) (r : Reading) : List Mark :=
  if Input.counts c (.characters r.text) then r.marks ++ [.node (.text r.text)] else r.marks

/-- Something other than text ends the text before it. -/
def take (c : Configuration) (r : Reading) : Input → Reading
  | .characters t => { r with text := r.text ++ t }
  | .opening n as => ⟨r.settle c ++ [.node (.element n as)], ""⟩
  | .closing _ => ⟨r.settle c ++ [.close], ""⟩
  | .comment s => ⟨r.settle c ++ [.node (.comment s)], ""⟩
  | .instruction t d => ⟨r.settle c ++ [.node (.instruction t d)], ""⟩
  | .startDocument | .endDocument => ⟨r.settle c, ""⟩
  | .parameter .. => r

end Reading

def Input.reading (c : Configuration) (is : List Input) : Reading :=
  is.foldl (Reading.take c) ⟨[], ""⟩

/-- The document that inputs amount to. -/
def Input.document (c : Configuration) (is : List Input) : List Mark :=
  (Input.reading c is).settle c

example : Input.document { stripSpace := true } [.startDocument, .opening (.simple "a") [],
    .characters " ", .comment "c", .characters " ", .characters "x", .closing (.simple "a")] =
    [.node (.element (.simple "a") []), .node (.comment "c"), .node (.text " x"), .close] := rfl

/-! ## Runs and what they have met -/

/-- The step through the document that a task makes. -/
def Task.meets : Task → List Mark
  | .meet c _ => [.node c]
  | .leave => [.close]
  | _ => []

/-- The steps through the document that a task is there for. -/
def Task.marks : Task → List Mark
  | .hold n as => [.node (.element n as)]
  | .meet c _ => [.node c]
  | .leave => [.close]
  | _ => []

def marksAhead (ts : List Task) : List Mark := ts.flatMap Task.marks

/-- What is held back, as it will be met. -/
def State.heldMarks (env : Environment) (s : State) : List Mark :=
  (s.pendingStart.map fun p => Mark.node (.element p.1 p.2)).toList ++
    ((s.heldText env).map fun t => Mark.node (.text t)).toList

/-- The moments of runs, with the inputs that were taken in and what of the document was met. -/
inductive Fed (env : Environment) : List Input → List Mark → Moment → Prop
  | first (i : Input) : i.refusal? .notStarted = none →
      Fed env [i] [] (.take i (.initial env.program))
  | task {is : List Input} {met : List Mark} {i : Input} {t : Task} {rest ts : List Task}
      {s s' : State} : Fed env is met ⟨i, t :: rest, s⟩ → (t.perform env).Yields s ts s' →
      Fed env is (met ++ t.meets) ⟨i, ts ++ rest, s'⟩
  | call {is : List Input} {met : List Mark} {m : Moment} (i : Input) : Fed env is met m →
      m.agenda = [] → i.refusal? m.settled.status = none →
      Fed env (is ++ [i]) met (.take i m.settled)

section
variable {env : Environment} {is : List Input} {met : List Mark} {m m' : Moment}

theorem Fed.reached (h : Fed env is met m) : Reached env m := by
  induction h with
  | first i ha => exact .first i ha
  | task _ hy ih => exact ih.next (.task hy)
  | call i _ hd ha ih => exact ih.next (.call i hd ha)

theorem Fed.next (h : Fed env is met m) (hn : Next env m m') :
    ∃ js new, Fed env (is ++ js) (met ++ new) m' := by
  cases hn with
  | task hy => exact ⟨[], _, by simpa using h.task hy⟩
  | call i hd ha => exact ⟨[i], [], by simpa using h.call i hd ha⟩

theorem exists_fed (h : Reached env m) : ∃ is met, Fed env is met m := by
  induction h with
  | first i ha => exact ⟨_, _, .first i ha⟩
  | next _ hn ih =>
    obtain ⟨is, met, h⟩ := ih
    obtain ⟨js, new, h'⟩ := h.next hn
    exact ⟨_, _, h'⟩

end

/-! ## What is still to come -/

/-- What was met, what is held back and what is on the agenda make up the document. -/
structure InOrder (env : Environment) (is : List Input) (met : List Mark) (m : Moment) : Prop where
  whole : met ++ m.state.heldMarks env ++ marksAhead m.agenda =
    Input.document env.configuration is
  /-- The text that may go on is the text held back, unless that is about to be given out. -/
  text : (Input.reading env.configuration is).text = m.state.pendingText ∨
    ∃ t ∈ m.agenda.head?, t.releases
  settled : m.agenda ≠ [] → (Input.reading env.configuration is).text = ""
  unstarted : m.state.status = .notStarted → m.state.pendingText = ""

section
variable {env : Environment} {c : Configuration} {is : List Input} {met : List Mark} {m : Moment}
  {i : Input} {t : Task} {ts rest : List Task} {s s' x x' : State}

@[simp] theorem marksAhead_cons (t : Task) (ts : List Task) :
    marksAhead (t :: ts) = t.marks ++ marksAhead ts := by
  simp [marksAhead]

@[simp] theorem marksAhead_nil : marksAhead [] = [] := rfl

@[simp] theorem marksAhead_append (ts us : List Task) :
    marksAhead (ts ++ us) = marksAhead ts ++ marksAhead us := by
  simp [marksAhead]

theorem marksAhead_enterGroups (gs : List GroupId) : marksAhead (gs.map Task.enterGroup) = [] := by
  induction gs with
  | nil => rfl
  | cons g gs ih => simpa [Task.marks] using ih

theorem reading_snoc (is : List Input) (i : Input) :
    Input.reading c (is ++ [i]) = (Input.reading c is).take c i := by
  simp [Input.reading]

/-- What is held back with this text. -/
theorem heldMarks_eq (env : Environment) (s : State) :
    s.heldMarks env = (s.pendingStart.map fun p => Mark.node (.element p.1 p.2)).toList ++
      if Input.counts env.configuration (.characters s.pendingText)
      then [.node (.text s.pendingText)] else [] := by
  unfold State.heldMarks State.heldText
  congr 1
  by_cases h : (s.pendingText.isEmpty ||
    (env.configuration.stripSpace && s.pendingText.toList.all Text.isXmlSpace)) = true
  · simp [Input.counts, h]
  · simp [Input.counts, h]

theorem heldMarks_of_none (hs : s.pendingStart = none) (ht : s.pendingText = "") :
    s.heldMarks env = [] := by
  rw [heldMarks_eq, hs, ht]
  rfl

theorem settle_eq (r : Reading) : r.settle c = r.marks ++
    if Input.counts c (.characters r.text) then [.node (.text r.text)] else [] := by
  unfold Reading.settle
  split
  · rfl
  · rw [List.append_nil]

/-- Tasks that change what is held back. -/
def Task.holds : Task → Bool
  | .flush _ | .hold .. => true
  | _ => false

theorem Turn.heldMarks_eq (h : Turn env t x ts x') (ht : t.holds = false) :
    x'.heldMarks env = x.heldMarks env ∧ x'.pendingText = x.pendingText := by
  cases h with
  | flush closing => cases ht
  | hold n as => cases ht
  | _ => exact ⟨rfl, rfl⟩

theorem Turn.marksAhead_eq (h : Turn env t x ts x') (ht : t.holds = false) :
    t.meets ++ marksAhead ts = t.marks := by
  cases h with
  | flush closing => cases ht
  | hold n as => cases ht
  | begin => simp [Task.meets, Task.marks, marksAhead_enterGroups]
  | @offerOpened _ e hasChildren n ns g hn =>
    cases he : e.content.isElement <;> simp [Task.meets, Task.marks]
  | @dispatchTemplate _ _ _ _ _ t position ht =>
    cases t.entered? <;> simp [Task.meets, Task.marks]
  | _ => simp [Task.meets, Task.marks]

/-- Before the document goes on, what is held back is given out. -/
theorem InOrder.heldMarks_eq_nil (h : InOrder env is met ⟨i, t :: rest, s⟩)
    (hs : Sound ⟨i, t :: rest, s⟩) (ht : t.marks ≠ []) :
    s.heldMarks env = [] ∧ s.pendingText = "" := by
  have hreleases : t.releases = false := by
    cases t <;> first | rfl | exact absurd rfl ht
  have htext : s.pendingText = "" := by
    rcases h.text with htext | ⟨u, hu, hreleased⟩
    · exact htext.symm.trans (h.settled (by simp))
    · obtain rfl : t = u := by simpa using hu
      simp [hreleases] at hreleased
  exact ⟨heldMarks_of_none (hs.pendingStart_eq_none hreleases) htext, htext⟩

/-- The text that may go on stays what is held back. -/
theorem Turn.text_held (h : Turn env t x ts x') (ho : Orderly true (t :: rest) x.nodes)
    {text : String} (hempty : text = "")
    (ht : text = x.pendingText ∨ t.releases) :
    text = x'.pendingText ∨ ∃ u ∈ (ts ++ rest).head?, u.releases := by
  cases h with
  | flush closing => exact .inl hempty
  | conclude _ => exact .inr ⟨.flush false, rfl, rfl⟩
  | checkEnd _ _ =>
    cases ho.of_input rfl
    exact .inr ⟨.flush true, rfl, rfl⟩
  | _ => exact .inl (ht.resolve_right (by simp [Task.releases]))

theorem InOrder.task (h : InOrder env is met ⟨i, t :: rest, s⟩) (hs : Sound ⟨i, t :: rest, s⟩)
    (hturn : Turn env t s.inputSide ts s'.inputSide) :
    InOrder env is (met ++ t.meets) ⟨i, ts ++ rest, s'⟩ := by
  have hrunning : s'.status = .running := hturn.status_eq.trans (hs.started (by simp))
  have hsettled := h.settled (by simp)
  refine ⟨?_, ?_, fun _ => hsettled, fun hn => by simp [hrunning] at hn⟩
  · rw [← h.whole]
    generalize hx : s.inputSide = x, hx' : s'.inputSide = x' at hturn
    have hheld : s.heldMarks env = x.heldMarks env := hx ▸ rfl
    have hheld' : s'.heldMarks env = x'.heldMarks env := hx' ▸ rfl
    have hempty := h.heldMarks_eq_nil hs
    simp only [hheld, hheld', marksAhead_append, marksAhead_cons] at hempty ⊢
    by_cases ht : t.holds
    · cases hturn with
      | flush closing =>
        rw [heldMarks_of_none rfl rfl, State.heldMarks]
        rcases x.pendingStart with - | p <;> rcases x.heldText env with - | u <;>
          simp [Task.meets, Task.marks]
      | hold n as =>
        obtain ⟨hnone, htext⟩ := hempty (by simp [Task.marks])
        have htext : x.pendingText = "" := hx ▸ htext
        rw [hnone, heldMarks_eq, htext]
        simp [Task.meets, Task.marks, Input.counts]
      | _ => cases ht
    · have ht := eq_false_of_ne_true ht
      have hahead := hturn.marksAhead_eq ht
      rw [(hturn.heldMarks_eq ht).1, ← hahead]
      by_cases hmarks : t.marks = []
      · obtain ⟨hmeets, hnew⟩ := List.append_eq_nil_iff.mp (hahead.trans hmarks)
        simp [hmeets, hnew]
      · simp [(hempty hmarks).1]
  · refine hturn.text_held hs.orderly hsettled ?_
    rcases h.text with htext | ⟨u, hu, hreleases⟩
    · exact .inl htext
    · obtain rfl : t = u := by simpa using hu
      exact .inr hreleases

theorem settle_empty (marks : List Mark) : (⟨marks, ""⟩ : Reading).settle c = marks := by
  simp [Reading.settle, Input.counts]

/-- An input continues the document. -/
theorem inOrder_take (ha : i.refusal? s.status = none)
    (hwhole : met ++ s.heldMarks env = Input.document env.configuration is)
    (htext : (Input.reading env.configuration is).text = s.pendingText)
    (hu : s.status = .notStarted → s.pendingText = "") :
    InOrder env (is ++ [i]) met (.take i s) := by
  constructor
  case whole =>
    cases i with
    | characters t =>
      rw [heldMarks_eq, Input.document, settle_eq, htext, ← List.append_assoc,
        List.append_cancel_right_eq] at hwhole
      have hmarks : ∀ t, ({ s with pendingText := t } : State).heldMarks env = _ :=
        fun t => heldMarks_eq env _
      simp only [Moment.take, Input.apply, Input.tasks, marksAhead_nil, List.append_nil, hmarks,
        Input.document, reading_snoc, Reading.take, settle_eq, htext]
      rw [← List.append_assoc, hwhole]
    | parameter n v =>
      simp only [Input.document, reading_snoc] at hwhole ⊢
      exact (List.append_nil _).trans hwhole
    | _ =>
      simp only [Input.document, reading_snoc, Reading.take, settle_empty]
      rw [← Input.document, ← hwhole]
      simp [Moment.take, Input.tasks, Task.marks, Input.apply, State.heldMarks, State.heldText]
  case text =>
    rw [reading_snoc]
    cases i with
    | startDocument =>
      have hnew : s.status = .notStarted := by
        cases hs : s.status <;> simp [hs, Input.refusal?] at ha
        rfl
      exact .inl (hu hnew).symm
    | characters t => exact .inl (congrArg (· ++ t) htext)
    | parameter n v => exact .inl htext
    | _ => exact .inr ⟨_, rfl, rfl⟩
  case settled =>
    intro hne
    rw [reading_snoc]
    cases i with
    | characters t => exact absurd rfl hne
    | parameter n v => exact absurd rfl hne
    | _ => rfl
  case unstarted =>
    intro hn
    cases i with
    | startDocument => cases hn
    | characters t =>
      have hstatus : s.status = .notStarted := hn
      simp [hstatus, Input.refusal?] at ha
    | _ => exact hu hn

theorem inOrder_of_fed (h : Fed env is met m) : InOrder env is met m := by
  induction h with
  | first i ha => exact @inOrder_take env [] [] i _ ha rfl rfl fun _ => rfl
  | task hf hy ih => exact ih.task (sound_of_reached hf.reached) (.of_yields hy)
  | @call is met m i hf hd ha ih =>
    have hwhole := ih.whole
    rw [hd, marksAhead_nil, List.append_nil] at hwhole
    have htext := ih.text.resolve_right (by simp [hd])
    refine inOrder_take ha hwhole htext fun hn => ih.unstarted ?_
    obtain ⟨j, agenda, s⟩ := m
    cases j <;> first | exact hn | cases hn

/-- What was met is what the document begins with. -/
theorem met_prefix_document (h : Fed env is met m) :
    met <+: Input.document env.configuration is := by
  rw [← (inOrder_of_fed h).whole, List.append_assoc]
  exact List.prefix_append _ _

end

end StreamTransform
