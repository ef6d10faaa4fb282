import StreamTransform.Proofs.CapturedText
import StreamTransform.Proofs.Spelling

/-!
# CDATA sections

The end of a CDATA instruction emits one section, with the captured text as it is: neither pulled
apart, as a comment is, nor split. So the data of the section is the captured text, and the section
is read back as this text exactly if the text does not hold the mark that ends a section. Otherwise
the section ends at the first mark within, and what follows in the text is read as markup.
-/

namespace StreamTransform

open Output

namespace Text

variable {key s p q : List Char}

theorem eq_of_splitAtFirst (h : splitAtFirst key s = some (p, q)) : s = p ++ (key ++ q) := by
  induction s generalizing p with
  | nil =>
    unfold splitAtFirst at h
    split at h
    · rename_i hprefix
      obtain rfl : key = [] := by simpa using hprefix
      cases h
      rfl
    · cases h
  | cons c s ih =>
    unfold splitAtFirst at h
    split at h
    · rename_i hprefix
      obtain ⟨r, hr⟩ := List.isPrefixOf_iff_prefix.mp hprefix
      cases h
      rw [← hr, List.drop_left, List.nil_append]
    · obtain ⟨⟨p', q'⟩, hrest, heq⟩ := Option.map_eq_some_iff.mp h
      cases heq
      rw [ih hrest, List.cons_append]

/-- The first occurrence in a text is the first one however the text goes on. -/
theorem splitAtFirst_append_right (h : splitAtFirst key s = some (p, q)) (w : List Char) :
    splitAtFirst key (s ++ w) = some (p, q ++ w) := by
  induction s generalizing p with
  | nil =>
    obtain ⟨rfl, hrest⟩ := List.append_eq_nil_iff.mp (eq_of_splitAtFirst h).symm
    obtain ⟨rfl, rfl⟩ := List.append_eq_nil_iff.mp hrest
    show splitAtFirst [] ([] ++ w) = _
    exact splitAtFirst_nil_append
  | cons c s ih =>
    unfold splitAtFirst at h
    split at h
    · rename_i hprefix
      obtain ⟨r, hr⟩ := List.isPrefixOf_iff_prefix.mp hprefix
      cases h
      rw [← hr, List.append_assoc, splitAtFirst_nil_append, List.drop_left]
    · rename_i hprefix
      obtain ⟨⟨p', q'⟩, hrest, heq⟩ := Option.map_eq_some_iff.mp h
      cases heq
      -- What occurs later in the text is too short to reach beyond its end from here.
      have hlength : key.length ≤ (c :: s).length := by
        rw [eq_of_splitAtFirst hrest]
        simp only [List.length_cons, List.length_append]
        omega
      have hlonger : key.isPrefixOf (c :: s ++ w) = false := by
        rw [List.isPrefixOf_iff_prefix] at hprefix
        rw [← Bool.not_eq_true, List.isPrefixOf_iff_prefix]
        exact fun hp => hprefix (List.prefix_of_prefix_length_le hp (List.prefix_append _ w) hlength)
      rw [List.cons_append] at hlonger ⊢
      rw [splitAtFirst, hlonger, if_neg Bool.false_ne_true, ih hrest]
      rfl

end Text

namespace Markup

variable {t p q : List Char}

/-- A section with some text, up to its end mark, and what follows it. -/
def sectionText (t rest : List Char) : List Char :=
  "![CDATA[".toList ++ (t ++ ("]]>".toList ++ rest))

theorem scan_sectionText (t rest : List Char) : scan '<' (sectionText t rest) =
    (Text.splitAtFirst "]]>".toList (t ++ ("]]>".toList ++ rest))).map
      fun p => (.cdata p.1, p.2) := by
  rfl

/-- A section ends at the first mark in its text. -/
theorem scan_sectionText_of_mark (h : Text.splitAtFirst "]]>".toList t = some (p, q))
    (rest : List Char) :
    scan '<' (sectionText t rest) = some (.cdata p, q ++ ("]]>".toList ++ rest)) := by
  rw [scan_sectionText, Text.splitAtFirst_append_right h]
  rfl

/-- A section is read back with its text exactly if the text does not hold the mark. -/
theorem scan_sectionText_iff (t rest : List Char) :
    scan '<' (sectionText t rest) = some (.cdata t, rest) ↔
      Text.contains "]]>".toList t = false := by
  constructor
  · intro h
    cases hmark : Text.splitAtFirst "]]>".toList t with
    | none => rw [Text.contains, hmark, Option.isSome_none]
    | some parts =>
      rw [scan_sectionText_of_mark hmark, Option.some.injEq, Prod.mk.injEq] at h
      obtain ⟨hdata, -⟩ := h
      have hshorter := congrArg List.length (Text.eq_of_splitAtFirst hmark)
      rw [Token.cdata.inj hdata] at hshorter
      simp at hshorter
  · exact fun h => scan_cdata h

end Markup

/-! ## Sections of a run -/

/-- The events of a section. -/
def Output.sectionOf (text : String) : List Output.Event := [.startCdata, .characters text, .endCdata]

/-- What CDATA instructions emit, and how it is read. -/
structure EmitsSections (env : Environment) : Prop where
  /-- The end of a CDATA instruction emits one section with the captured text. -/
  sectionEnds : ∀ m a f b, Reached env m → m.Ends env a f b .cdata →
    ∃ text, m.state.outlet.HasCaptured b text ∧ m.Emits env (sectionOf text)
  /-- Its character data is this text, -/
  whole : ∀ text, textOf (sectionOf text) = text
  /-- which stands between the marks as it is. -/
  rendered : ∀ text, '<' :: Markup.sectionText text.toList [] = (render (sectionOf text)).toList ∧
    render (recorded (sectionOf text)) = render (sectionOf text)
  /-- The section reads back as the text exactly if the text does not hold the end mark. -/
  legal : ∀ text rest, Markup.scan '<' (Markup.sectionText text rest) = some (.cdata text, rest) ↔
    Text.contains "]]>".toList text = false
  /-- If it does, the section is read up to the first mark, and the rest is read as markup. -/
  cut : ∀ text before after rest,
    Text.splitAtFirst "]]>".toList text = some (before, after) →
    Markup.scan '<' (Markup.sectionText text rest) =
      some (.cdata before, after ++ ("]]>".toList ++ rest))

/-- A recorder leaves empty text out, which shows nowhere. -/
theorem render_recorded_sectionOf (text : String) :
    render (recorded (sectionOf text)) = render (sectionOf text) := by
  cases htext : text.isEmpty with
  | true =>
    obtain rfl := String.isEmpty_iff.mp htext
    rfl
  | false => simp [recorded, sectionOf, record, htext]

/-- The end of a CDATA instruction emits its captured text unchanged, whatever the text holds. -/
theorem emits_sections {ds : List Script.Declaration} {env : Environment}
    (h : Script.build ds = .ok env.program) : EmitsSections env := by
  constructor
  case sectionEnds =>
    intro m a f b hm hends
    obtain ⟨text, htext⟩ := hends.holds (scopes_balance h) hm rfl
    refine ⟨text, htext, hends.emits htext rfl fun s => ?_⟩
    change Operation.Emits _ s ([.startCdata] ++ ([.characters text] ++ ([.endCdata] ++ [])))
    exact (Operation.emits_emit _ _ s).bind fun _ s₁ =>
      (Operation.emits_emit _ _ s₁).bind fun _ s₂ =>
        (Operation.emits_emit _ _ s₂).bind fun _ s₃ => Operation.emits_pure _ s₃
  case whole => exact fun text => by simp [textOf, sectionOf, TextSink.take, TextSink.empty]
  case rendered =>
    intro text
    refine ⟨?_, render_recorded_sectionOf text⟩
    have hrender : render (sectionOf text) = "<![CDATA[" ++ (text ++ ("]]>" ++ "")) := rfl
    rw [hrender, String.toList_append, String.toList_append, String.toList_append]
    rfl
  case legal => exact Markup.scan_sectionText_iff
  case cut => exact fun text before after rest h => Markup.scan_sectionText_of_mark h rest

/-- One template, for the root, with a section whose text holds the mark of its end. -/
def markedProgram : Program where
  code := (⟨.unknown, [.enclose .unknown .cdata [.act .unknown (.text "a]]>b")] .unknown],
    .unknown⟩ : Body).code 0 |>.toArray
  templates := #[⟨⟨true, []⟩, "/", 0, .group, false, 0, .unknown, 0⟩]
  procedures := #[]
  groups := #[{ (default : Group) with
    templates := [0], candidates := [0], ancestry := [Program.rootGroup] }]
  globals := []

theorem build_marked : Script.build [.template "/" { priority := some 0 }
    [.cdata [.text "a]]>b"]]] = .ok markedProgram :=
  (Script.build_eq _).trans (by with_unfolding_all rfl)

def marked : Environment := ⟨markedProgram, {}, .plain fun _ => none⟩

/-- The mark is emitted as it is, and the section is read back without what follows it. -/
theorem emits_sections_marked : EmitsSections marked ∧
    (∃ m a f, Reached marked m ∧ m.Ends marked a f 1 .cdata ∧
      m.Emits marked (sectionOf "a]]>b")) ∧
    Markup.scan '<' (Markup.sectionText "a]]>b".toList []) =
      some (.cdata ['a'], ['b', ']', ']', '>']) := by
  have h₀ : Reached marked _ := .first .startDocument rfl
  have h₁ := h₀.next (.task rfl)
  have h₂ := h₁.next (.task rfl)
  have h₃ := h₂.next (.task rfl)
  have h₄ := h₃.next (.task rfl)
  have h₅ := h₄.next (.task rfl)
  have h₆ := h₅.next (.task rfl)
  have hsections : EmitsSections marked := emits_sections build_marked
  exact ⟨hsections, ⟨_, _, _, h₆, ⟨⟨_, rfl⟩, ⟨_, rfl⟩, ⟨_, rfl, rfl⟩, ⟨_, rfl, rfl⟩⟩, _, _, rfl, rfl⟩,
    hsections.cut _ ['a'] ['b'] [] (by decide)⟩

end StreamTransform
