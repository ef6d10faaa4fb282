import StreamTransform.Proofs.CapturedText
import StreamTransform.Proofs.NameProduction
import StreamTransform.Proofs.Spacing

/-!
# Comments and processing instructions are legal

A comment is emitted with its captured text pulled apart, a processing instruction with its data
pulled apart and with a target that was checked at its start. So whatever the content writes, and
whatever is suspended before it ends, the comments and the data that are emitted are legal. A
target is never the reserved one, but the check counts some characters as letters or digits that a
name may not have: with one of these the target is no name.
-/

namespace StreamTransform

open Output

/-- That generated markup is legal, and differs from the captured text by spaces only. -/
structure EmitsLegalMarkup (env : Environment) : Prop where
  /-- Passes over a text leave no two hyphens in a row. There are two of them at most, and none
  is made without need. -/
  passes : ∀ cs, Text.contains ['-', '-'] (Text.pullHyphensApart cs) = false ∧
    ∃ k ≤ 2, Text.pullHyphensApart cs = (Text.pullApart '-' '-')^[k] cs ∧
      ∀ j < k, Text.contains ['-', '-'] ((Text.pullApart '-' '-')^[j] cs) = true
  /-- The text of a comment is what the passes leave, with a space after a hyphen at the end. -/
  comment : ∀ text, (commentText text).toList =
    if (Text.pullHyphensApart text.toList).getLast? = some '-' then
      Text.pullHyphensApart text.toList ++ [' ']
    else Text.pullHyphensApart text.toList
  legal : ∀ text, LegalComment (commentText text)
  spaced : ∀ text, Text.Spaced text.toList (commentText text).toList
  kept : ∀ text, commentText text = text ↔ LegalComment text
  idempotent : ∀ text, commentText (commentText text) = commentText text
  /-- One pass makes the data of a processing instruction legal. -/
  data : ∀ text, (instructionData text).toList = Text.pullApart '?' '>' text.toList ∧
    Text.contains ['?', '>'] (instructionData text).toList = false ∧
    Text.Spaced text.toList (instructionData text).toList
  /-- The end of a comment emits the text that it finds captured. -/
  commentEnds : ∀ m a f b, Reached env m → m.Ends env a f b .comment →
    ∃ text, m.state.outlet.HasCaptured b text ∧ m.Emits env [.comment (commentText text)]
  /-- The end of a processing instruction emits the data that it finds captured, for a target that
  is not `xml` in any case, and that is a name of the production exactly if no character of it is
  stray. -/
  instructionEnds : ∀ m a f b t, Reached env m → m.Ends env a f b (.processingInstruction t) →
    ∃ text target, m.state.outlet.HasCaptured b text ∧
      target.toList.map Char.toLower ≠ ['x', 'm', 'l'] ∧ (NCName target ↔ ¬HasStray target) ∧
      m.Emits env [.instruction target (instructionData text)]

/-- At the end of a processing instruction its frame owes it a target that was accepted. -/
theorem Moment.Ends.target {env : Environment} {m : Moment} {a : Activation} {f : Frame}
    {b : NodeId} {t : Path.TextTemplate} (h : m.Ends env a f b (.processingInstruction t))
    (hw : env.program.WellNested) (hm : Reached env m) :
    ∃ target rest, f.owed = .simple target :: rest ∧ AcceptedTarget target := by
  obtain ⟨n, hn, hb⟩ := h.closing
  obtain ⟨o, ho, hc⟩ := h.container
  have hindebted := indebted_of_reached hw hm f h.mem_bodies
  rw [Frame.Indebted, (enclosing_of_closing hw.code hn hb).1] at hindebted
  obtain ⟨name, rest, howed, ⟨target, rfl, haccepted⟩, -⟩ := hindebted.of_owes ho hc rfl
  exact ⟨target, rest, howed, haccepted⟩

/-- Whatever is captured, the comments and processing instructions that are emitted are legal. -/
theorem emits_legal_markup {ds : List Script.Declaration} {env : Environment}
    (h : Script.build ds = .ok env.program) : EmitsLegalMarkup env := by
  have hw : env.program.WellNested := Script.wellNested_of_build h
  have hbalance : ScopesBalanced env := scopes_balance h
  constructor
  case passes => exact Text.passes_pullHyphensApart
  case comment => exact toList_commentText
  case legal => exact legal_commentText
  case spaced => exact spaced_commentText
  case kept => exact fun text => commentText_eq_iff
  case idempotent => exact commentText_commentText
  case data =>
    exact fun text =>
      ⟨toList_instructionData text, contains_instructionData text, spaced_instructionData text⟩
  case commentEnds =>
    intro m a f b hm hends
    obtain ⟨text, htext⟩ := hends.holds hbalance hm rfl
    refine ⟨text, htext, hends.emits htext rfl fun s => ?_⟩
    rw [← List.append_nil [_]]
    exact (Operation.emits_emit _ _ s).bind fun _ s' => Operation.emits_pure _ s'
  case instructionEnds =>
    intro m a f b t hm hends
    obtain ⟨text, htext⟩ := hends.holds hbalance hm rfl
    obtain ⟨target, rest, howed, haccepted, hreserved⟩ := hends.target hw hm
    refine ⟨text, target, htext, hreserved, ncName_iff_not_hasStray haccepted,
      hends.emits htext rfl fun s => ?_⟩
    have howed' : f.leave.owed = .simple target :: rest := howed
    simp only [howed']
    rw [← List.append_nil [_]]
    exact (Operation.emits_emit _ _ s).bind fun _ s' => Operation.emits_pure _ s'

/-- One template, for the root, with a processing instruction that holds an end mark and one whose
target has an ordinal sign. -/
def instructingProgram : Program where
  code := (⟨.unknown, [.enclose .unknown (.processingInstruction (.fixed "p"))
    [.act .unknown (.text "a?>b")] .unknown, .enclose .unknown (.processingInstruction (.fixed "aª"))
    [.act .unknown (.text "x")] .unknown], .unknown⟩ : Body).code 0 |>.toArray
  templates := #[⟨⟨true, []⟩, "/", 0, .group, false, 0, .unknown, 0⟩]
  procedures := #[]
  groups := #[{ (default : Group) with
    templates := [0], candidates := [0], ancestry := [Program.rootGroup] }]
  globals := []

theorem build_instructing : Script.build [.template "/" { priority := some 0 }
    [.processingInstruction "p" [.text "a?>b"], .processingInstruction "aª" [.text "x"]]] =
    .ok instructingProgram :=
  (Script.build_eq _).trans (by with_unfolding_all rfl)

def instructing : Environment := ⟨instructingProgram, {}, .plain fun _ => none⟩

theorem hasStray_ordinal : HasStray "aª" :=
  ⟨'a', ['ª'], rfl, .inr ⟨'ª', List.mem_cons_self, .inl rfl⟩⟩

set_option maxRecDepth 8000 in
/-- The end mark is pulled apart. The other instruction is emitted although its target is no
name. -/
theorem emits_legal_markup_instructing : EmitsLegalMarkup instructing ∧
    (∃ m a f t, Reached instructing m ∧ m.Ends instructing a f 1 (.processingInstruction t) ∧
      m.Emits instructing [.instruction "p" "a? >b"]) ∧
    ¬NCName "aª" ∧
    ∃ m a f t, Reached instructing m ∧ m.Ends instructing a f 4 (.processingInstruction t) ∧
      m.Emits instructing [.instruction "aª" "x"] := by
  have h₀ : Reached instructing _ := .first .startDocument rfl
  have h₁ := h₀.next (.task rfl)
  have h₂ := h₁.next (.task rfl)
  have h₃ := h₂.next (.task rfl)
  have h₄ := h₃.next (.task rfl)
  have h₅ := h₄.next (.task rfl)
  have h₆ := h₅.next (.task rfl)
  have h₇ := h₆.next (.task rfl)
  -- The check looks the ordinal sign up in the table of letters.
  have h₈ := h₇.next (.task (by with_unfolding_all rfl))
  have h₉ := h₈.next (.task (by with_unfolding_all rfl))
  exact ⟨emits_legal_markup build_instructing,
    ⟨_, _, _, .fixed "p", h₆, ⟨⟨_, rfl⟩, ⟨_, rfl⟩, ⟨_, rfl, rfl⟩, ⟨_, rfl, rfl⟩⟩, _, _, rfl, rfl⟩,
    hasStray_ordinal.not_ncName, _, _, _, .fixed "aª", h₉,
    by with_unfolding_all exact ⟨⟨_, rfl⟩, ⟨_, rfl⟩, ⟨_, rfl, rfl⟩, ⟨_, rfl, rfl⟩⟩,
    by with_unfolding_all exact ⟨_, _, rfl, rfl⟩⟩

end StreamTransform
