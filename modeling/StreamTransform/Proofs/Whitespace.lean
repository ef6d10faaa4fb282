import StreamTransform.Proofs.Identity
import StreamTransform.Proofs.Skipping

/-!
# Dropping white space

With the option to drop text of white space a transformation does what it does
without it on an input from which such text is gone. Text is collected until
another event arrives. So the two runs are apart while a text is collected, by
nothing but what each of them has of it, and meet again at the event after it:
there both have nothing to deliver, or the same.
-/

namespace StreamTransform

/-- The same environment with the option to drop text of white space set or not. -/
def Environment.dropping (env : Environment) (drop : Bool) : Environment :=
  { env with configuration := { env.configuration with stripSpace := drop } }

/-- White space alone, or nothing. -/
def isSpace (text : String) : Bool := text.toList.all Text.isXmlSpace

namespace Input

/-- The text that the next calls add up to, up to the first other event. Setting a parameter is no
event of the document. -/
def textAhead : List Input → String
  | .characters t :: is => t ++ textAhead is
  | .parameter .. :: is => textAhead is
  | [] | .startDocument :: _ | .endDocument :: _ | .opening .. :: _ | .closing _ :: _
  | .comment _ :: _ | .instruction .. :: _ => ""

/-- The calls without those for texts that are white space alone. `before` is what has come of a
text so far. -/
def withoutSpace (before : String) : List Input → List Input
  | [] => []
  | .characters t :: is =>
    if isSpace (before ++ t ++ textAhead is) then withoutSpace (before ++ t) is
    else .characters t :: withoutSpace (before ++ t) is
  | .parameter n v :: is => .parameter n v :: withoutSpace before is
  | .startDocument :: is => .startDocument :: withoutSpace "" is
  | .endDocument :: is => .endDocument :: withoutSpace "" is
  | .opening n as :: is => .opening n as :: withoutSpace "" is
  | .closing n :: is => .closing n :: withoutSpace "" is
  | .comment t :: is => .comment t :: withoutSpace "" is
  | .instruction t d :: is => .instruction t d :: withoutSpace "" is

/-- An event that a text ends at. -/
def endsText : Input → Bool
  | .characters _ | .parameter .. => false
  | .startDocument | .endDocument | .opening .. | .closing _ | .comment _ | .instruction .. => true

theorem textAhead_of_endsText {is : List Input} (h : ∀ i ∈ is.head?, i.endsText = true) :
    textAhead is = "" := by
  cases is with
  | nil => rfl
  | cons i is =>
    have hi := h i rfl
    cases i <;> first | rfl | cases hi

theorem withoutSpace_of_endsText {i : Input} (h : i.endsText = true) (before : String)
    (is : List Input) : withoutSpace before (i :: is) = i :: withoutSpace "" is := by
  cases i <;> first | rfl | cases h

end Input

/-! ## The option in use -/

theorem isSpace_empty : isSpace "" = true := rfl

section
variable {env : Environment} {drop : Bool} {t : Task} {ts : List Task} {s s' : State} {fuel : Nat}

theorem State.heldText_of_empty (h : s.pendingText = "") : s.heldText env = none := by
  rw [heldText, h]
  rfl

theorem State.heldText_dropping :
    s.heldText (env.dropping true) =
      if isSpace s.pendingText then none else some s.pendingText := by
  unfold heldText isSpace
  by_cases hempty : s.pendingText = "" <;> simp [Environment.dropping, hempty]

theorem State.heldText_keeping :
    s.heldText (env.dropping false) = if s.pendingText = "" then none else some s.pendingText := by
  simp [heldText, Environment.dropping]

/-- Only the delivery of what is held back looks at the option, and with no text held back it makes
no difference there either. -/
theorem yields_dropping (h : s.pendingText = "") (hy : (t.perform env).Yields s ts s') :
    (t.perform (env.dropping drop)).Yields s ts s' := by
  cases t with
  | flush closing =>
    have hflush : ∀ env : Environment, (Operation.flush env closing).Yields s _ _ := fun _ =>
      Operation.yields_flush rfl (State.heldText_of_empty h)
    obtain ⟨hts, rfl⟩ := Prod.mk.inj (hy.symm.trans (hflush env))
    obtain rfl := Except.ok.inj hts
    exact hflush _
  | _ => exact hy

/-- Text is held back by none but the call for it. -/
theorem Turn.pendingText_eq (h : Turn env t s ts s') (hs : s.pendingText = "") :
    s'.pendingText = "" := by
  cases h <;> first | rfl | exact hs

theorem carryOut_dropping (drop : Bool) (h : carryOut env fuel ts s = (.completed, s'))
    (hs : s.pendingText = "") :
    carryOut (env.dropping drop) fuel ts s = (.completed, s') ∧ s'.pendingText = "" := by
  revert hs
  refine completed_induction h (fun _ hs => ⟨completed_nil_iff.mpr rfl, hs⟩) ?_
  intro _ _ _ _ _ _ hy ih hs
  obtain ⟨hrest, hs'⟩ := ih ((Turn.of_yields hy).pendingText_eq hs)
  exact ⟨completed_cons_iff.mpr ⟨_, _, _, rfl, yields_dropping hs hy, hrest⟩, hs'⟩

end

/-! ## An event after a text -/

/-- The state with another text held back. -/
def State.withText (text : String) (s : State) : State := { s with pendingText := text }

@[simp] theorem State.pendingText_withText (text : String) (s : State) :
    (s.withText text).pendingText = text := rfl

/-- The state of a run that did not get the text that is held back if it is white space. -/
def State.spared (s : State) : State :=
  s.withText (if isSpace s.pendingText then "" else s.pendingText)

section
variable {env : Environment} {i : Input} {ts : List Task} {s s' : State} {fuel : Nat}

theorem State.heldText_spared :
    s.spared.heldText (env.dropping false) = s.heldText (env.dropping true) := by
  rw [heldText_keeping, heldText_dropping, spared, withText]
  by_cases hspace : isSpace s.pendingText
  · simp [hspace]
  · have hsome : s.pendingText ≠ "" := fun h => hspace (h ▸ isSpace_empty)
    simp [hspace, hsome]

/-- At the delivery the two runs meet. -/
theorem carryOut_flush {closing : Bool}
    (h : carryOut (env.dropping true) fuel (.flush closing :: ts) s = (.completed, s')) :
    carryOut (env.dropping false) fuel (.flush closing :: ts) s.spared = (.completed, s') ∧
      s'.pendingText = "" := by
  obtain ⟨k, new, s₁, rfl, hy, h⟩ := completed_cons_iff.mp h
  have hflush : (Operation.flush (env.dropping true) closing).Yields s _ _ :=
    Operation.yields_flush rfl rfl
  obtain ⟨hnew, rfl⟩ := Prod.mk.inj (hy.symm.trans hflush)
  obtain rfl := Except.ok.inj hnew
  obtain ⟨hrest, hs'⟩ := carryOut_dropping false h rfl
  refine ⟨completed_cons_iff.mpr ⟨k, _, _, rfl, ?_, hrest⟩, hs'⟩
  exact Operation.yields_flush rfl State.heldText_spared

theorem Operation.yields_concludeInput (h : s.inputOpen = []) :
    (concludeInput env).Yields s [.flush false, .close .final, .endOutput] s := by
  rw [concludeInput, yields_get_bind, h]
  exact yields_pure.mpr ⟨rfl, rfl⟩

/-- An event that a text ends at is taken in alike, and nothing is held back after it. -/
theorem carryOut_spared (hi : i.endsText = true) (hstart : i = .startDocument → s.pendingText = "")
    (h : carryOut (env.dropping true) fuel i.tasks s = (.completed, s')) :
    carryOut (env.dropping false) fuel i.tasks s.spared = (.completed, s') ∧
      s'.pendingText = "" := by
  cases i with
  | characters t => cases hi
  | parameter n v => cases hi
  | startDocument =>
    have hempty := hstart rfl
    have hsame : s.spared = s := by
      rw [State.spared, State.withText, hempty, isSpace_empty, if_pos rfl, ← hempty]
    have hrun := carryOut_dropping false h hempty
    rw [hsame]
    exact hrun
  | opening n as => exact carryOut_flush h
  | comment t => exact carryOut_flush h
  | instruction t d => exact carryOut_flush h
  | closing n =>
    obtain ⟨k, new, s₁, rfl, hy, h⟩ := completed_cons_iff.mp h
    obtain ⟨_, _, hc, hp⟩ := Operation.yields_bind.mp hy
    obtain ⟨rfl, rfl⟩ := Operation.yields_pure.mp hp
    obtain ⟨o, os, ho, hsame, rfl⟩ := Operation.opened_of_checkEnd hc
    obtain ⟨hrest, hs'⟩ := carryOut_flush h
    have hcheck : ((Task.checkEnd n).perform (env.dropping false)).Yields s.spared []
        { s.spared with inputOpen := os } :=
      Operation.yields_bind.mpr ⟨⟨⟩, _, Operation.yields_checkEnd ho hsame,
        Operation.yields_pure.mpr ⟨rfl, rfl⟩⟩
    exact ⟨completed_cons_iff.mpr ⟨k, _, _, rfl, hcheck, hrest⟩, hs'⟩
  | endDocument =>
    obtain ⟨k, new, s₁, rfl, hy, hrun⟩ := completed_cons_iff.mp h
    obtain ⟨ho, rfl, rfl⟩ := Operation.closed_of_concludeInput hy
    obtain ⟨hrest, hs'⟩ := carryOut_flush hrun
    have hconclude : (Task.conclude.perform (env.dropping false)).Yields s₁.spared _ s₁.spared :=
      Operation.yields_concludeInput ho
    exact ⟨completed_cons_iff.mpr ⟨k, _, _, rfl, hconclude, hrest⟩, hs'⟩

end

/-! ## Runs -/

section
variable {env : Environment} {i : Input} {is : List Input} {s s' : State} {fuel : Nat}

/-- The state of the run that does not get white space, before some further calls. -/
def State.ahead (is : List Input) (s : State) : State :=
  s.withText (if isSpace (s.pendingText ++ Input.textAhead is) then "" else s.pendingText)

/-- One event that a text ends at. -/
theorem receive_spared (hi : i.endsText = true) (hs : s.status = .notStarted → s.pendingText = "")
    (h : s.receive (env.dropping true) fuel i = (.completed, s')) :
    s.spared.receive (env.dropping false) fuel i = (.completed, s') ∧ s'.pendingText = "" := by
  obtain ⟨ha, s₁, hrun, rfl⟩ := completed_receive_iff.mp h
  have hstart : i = .startDocument → (i.apply s).pendingText = "" := by
    rintro rfl
    have hstatus : s.status = .notStarted := by
      cases hs' : s.status with
      | notStarted => rfl
      | _ =>
        rw [hs'] at ha
        cases ha
    exact hs hstatus
  obtain ⟨hrun', hempty⟩ := carryOut_spared hi hstart hrun
  have happly : i.apply s.spared = (i.apply s).spared := by
    cases i <;> first | rfl | cases hi
  exact ⟨completed_receive_iff.mpr ⟨ha, s₁, happly ▸ hrun', rfl⟩, hempty⟩

theorem receive_characters_iff {t : String} :
    s.receive env fuel (.characters t) = (.completed, s') ↔
      s.status = .running ∧ s' = s.withText (s.pendingText ++ t) := by
  rw [completed_receive_iff]
  constructor
  · rintro ⟨ha, s₁, hrun, rfl⟩
    obtain rfl := completed_nil_iff.mp hrun
    exact ⟨Input.running_of_accepted rfl ha, rfl⟩
  · rintro ⟨hs, rfl⟩
    exact ⟨by rw [hs]; rfl, _, completed_nil_iff.mpr rfl, rfl⟩

theorem receive_parameter {n : String} {v : Value} :
    s.receive env fuel (.parameter n v) =
      (.completed, { s with parameters := s.parameters.insert n v }) :=
  completed_receive_iff.mpr ⟨rfl, { s with parameters := s.parameters.insert n v },
    completed_nil_iff.mpr rfl, rfl⟩

/-- The runs stay apart by the text that is held back: the one that drops white space has all that
came of it, the other has nothing if the whole of it is white space. -/
theorem receiveAll_withoutSpace (h : s.receiveAll (env.dropping true) fuel is = (.completed, s'))
    (hs : s.status = .notStarted → s.pendingText = "") :
    ∃ text, (s.ahead is).receiveAll (env.dropping false) fuel
      (Input.withoutSpace s.pendingText is) = (.completed, s'.withText text) := by
  induction is generalizing s with
  | nil =>
    cases h
    exact ⟨_, rfl⟩
  | cons i is ih =>
    obtain ⟨s₁, hi, hrest⟩ := completed_receiveAll_iff.mp h
    by_cases hends : i.endsText = true
    · -- the text is complete, so it is known what the other run has of it
      have hspared : s.ahead (i :: is) = s.spared := by
        rw [State.ahead, Input.textAhead_of_endsText (by simpa using hends), String.append_empty,
          State.spared]
      obtain ⟨hi', hs₁⟩ := receive_spared hends hs hi
      obtain ⟨text, htext⟩ := ih hrest fun _ => hs₁
      refine ⟨text, ?_⟩
      have hahead : s₁.ahead is = s₁ := by
        rw [State.ahead, hs₁, ite_self, ← hs₁]
        rfl
      rw [hspared, Input.withoutSpace_of_endsText hends]
      rw [hahead, hs₁] at htext
      exact completed_receiveAll_iff.mpr ⟨s₁, hi', htext⟩
    · cases i with
      | characters t =>
        obtain ⟨hrunning, rfl⟩ := receive_characters_iff.mp hi
        obtain ⟨text, htext⟩ := ih hrest fun hnot => by cases hrunning.symm.trans hnot
        refine ⟨text, ?_⟩
        rw [State.ahead, State.pendingText_withText] at htext
        rw [State.ahead, Input.textAhead, ← String.append_assoc, Input.withoutSpace]
        by_cases hspace : isSpace (s.pendingText ++ t ++ Input.textAhead is)
        · rw [if_pos hspace, if_pos hspace]
          rwa [if_pos hspace] at htext
        · rw [if_neg hspace, if_neg hspace]
          rw [if_neg hspace] at htext
          exact completed_receiveAll_iff.mpr
            ⟨_, receive_characters_iff.mpr ⟨hrunning, rfl⟩, htext⟩
      | parameter n v =>
        obtain ⟨-, rfl⟩ := Prod.mk.inj (receive_parameter.symm.trans hi)
        obtain ⟨text, htext⟩ := ih hrest hs
        exact ⟨text, completed_receiveAll_iff.mpr ⟨_, receive_parameter, htext⟩⟩
      | _ => exact absurd rfl hends

end

/-- Where all calls are completed with white space dropped, they are so with it kept on the input
without it, and come to the same: the same record and, but for a text that is still collected, the
same state. -/
theorem dropping_is_filtering (env : Environment) {fuel : Nat} {is : List Input} {s : State}
    (h : (State.initial env.program).receiveAll (env.dropping true) fuel is = (.completed, s)) :
    ∃ s', (State.initial env.program).receiveAll (env.dropping false) fuel
        (Input.withoutSpace "" is) = (.completed, s') ∧
      s'.record = s.record ∧ s'.withText "" = s.withText "" := by
  obtain ⟨text, htext⟩ := receiveAll_withoutSpace h fun _ => rfl
  have hinitial : (State.initial env.program).ahead is = State.initial env.program := by
    rw [State.ahead]
    exact congrArg (State.withText · (State.initial env.program)) (ite_self "")
  rw [hinitial] at htext
  exact ⟨_, htext, rfl, rfl⟩

/-- Two texts of two calls each, the first of them white space alone. -/
def twoTexts : List Input :=
  [.startDocument, .opening (.simple "a") [], .characters " ", .characters " ", .comment "c",
    .characters " ", .characters "b", .closing (.simple "a"), .endDocument]

theorem dropping_is_filtering_two_texts : ∃ s s',
    (State.initial stripping.program).receiveAll (stripping.dropping true) 20 twoTexts =
      (.completed, s) ∧
    (State.initial stripping.program).receiveAll (stripping.dropping false) 20
        [.startDocument, .opening (.simple "a") [], .comment "c", .characters " ",
          .characters "b", .closing (.simple "a"), .endDocument] = (.completed, s') ∧
    s'.record = s.record ∧
    s.record.taken .main = [.startDocument, .characters " b", .endDocument] := by
  have hcompleted : ((State.initial stripping.program).receiveAll (stripping.dropping true) 20
      twoTexts).1.isCompleted = true := by decide +kernel
  have htaken : ((State.initial stripping.program).receiveAll (stripping.dropping true) 20
      twoTexts).2.record.taken .main = [.startDocument, .characters " b", .endDocument] := by
    decide +kernel
  have hfiltered : Input.withoutSpace "" twoTexts =
      [.startDocument, .opening (.simple "a") [], .comment "c", .characters " ",
        .characters "b", .closing (.simple "a"), .endDocument] := rfl
  have hrun := eq_of_isCompleted hcompleted
  obtain ⟨s', hrun', hrecord, -⟩ := dropping_is_filtering stripping hrun
  rw [hfiltered] at hrun'
  exact ⟨_, s', hrun, hrun', hrecord, htaken⟩

end StreamTransform
