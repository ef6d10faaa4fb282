import StreamTransform.Proofs.CdataSections
import StreamTransform.Proofs.Phrase

/-!
# First occurrences

A text is looked for from left to right, one character after the other. So the part before what is
found is a prefix of every part that stands before an occurrence, also where occurrences overlap or
the text looked for is empty. What the string functions say of two texts is stated here on the
texts as a whole: they are put together again by `concat`, and a text starts with another exactly
if it holds it with nothing before.
-/

namespace StreamTransform

namespace Text

variable {key s p q p' q' : List Char}

/-- What stands anywhere in a text is found. -/
theorem exists_splitAtFirst (p' key q' : List Char) :
    ∃ p q, splitAtFirst key (p' ++ (key ++ q')) = some (p, q) := by
  induction p' with
  | nil => exact ⟨[], q', splitAtFirst_nil_append⟩
  | cons c p' ih =>
    rw [List.cons_append, splitAtFirst]
    by_cases hprefix : key.isPrefixOf (c :: (p' ++ (key ++ q'))) = true
    · exact ⟨_, _, if_pos hprefix⟩
    · obtain ⟨p, q, hrest⟩ := ih
      refine ⟨c :: p, q, ?_⟩
      rw [if_neg hprefix, hrest]
      rfl

/-- Nothing is found later than it stands. -/
theorem prefix_of_splitAtFirst (h : splitAtFirst key s = some (p, q))
    (hs : s = p' ++ (key ++ q')) : p <+: p' := by
  induction p' generalizing s p with
  | nil =>
    rw [hs, List.nil_append, splitAtFirst_nil_append] at h
    cases h
    exact List.nil_prefix
  | cons c p' ih =>
    subst hs
    rw [List.cons_append, splitAtFirst] at h
    split at h
    · cases h
      exact List.nil_prefix
    · obtain ⟨⟨p₁, q₁⟩, hrest, heq⟩ := Option.map_eq_some_iff.mp h
      cases heq
      exact (List.prefix_cons_inj c).mpr (ih hrest rfl)

theorem contains_iff : contains key s = true ↔ ∃ p q, s = p ++ (key ++ q) := by
  rw [contains, Option.isSome_iff_exists]
  constructor
  · rintro ⟨⟨p, q⟩, h⟩
    exact ⟨p, q, eq_of_splitAtFirst h⟩
  · rintro ⟨p', q', rfl⟩
    obtain ⟨p, q, h⟩ := exists_splitAtFirst p' key q'
    exact ⟨(p, q), h⟩

end Text

namespace Path

theorem callFunction_title {f : Function} {args : List Value} (h : f.arity.admits args.length)
    (ctx : Context) (top : Nat) : callFunction f.title args ctx top = f.apply args ctx top := by
  rw [callFunction, Function.resolve, Function.named_title]
  simp only [h, if_true]
  rfl

/-! ## Texts -/

section
variable {s t : String}

theorem contains_text_iff : Text.contains t.toList s.toList = true ↔ ∃ p q, s = p ++ t ++ q := by
  rw [Text.contains_iff]
  constructor
  · rintro ⟨p, q, h⟩
    refine ⟨String.ofList p, String.ofList q, String.toList_inj.mp ?_⟩
    simp only [String.toList_append, String.toList_ofList, h, List.append_assoc]
  · rintro ⟨p, q, rfl⟩
    exact ⟨p.toList, q.toList, by simp only [String.toList_append, List.append_assoc]⟩

theorem isPrefixOf_text_iff : t.toList.isPrefixOf s.toList = true ↔ ∃ q, s = t ++ q := by
  rw [List.isPrefixOf_iff_prefix]
  constructor
  · rintro ⟨q, h⟩
    refine ⟨String.ofList q, String.toList_inj.mp ?_⟩
    rw [String.toList_append, String.toList_ofList, h]
  · rintro ⟨q, rfl⟩
    exact ⟨q.toList, (String.toList_append ..).symm⟩

theorem isSuffixOf_text_iff : t.toList.isSuffixOf s.toList = true ↔ ∃ p, s = p ++ t := by
  rw [List.isSuffixOf_iff_suffix]
  constructor
  · rintro ⟨p, h⟩
    refine ⟨String.ofList p, String.toList_inj.mp ?_⟩
    rw [String.toList_append, String.toList_ofList, h]
  · rintro ⟨p, rfl⟩
    exact ⟨p.toList, (String.toList_append ..).symm⟩

/-- The parts around what is found make up the text. -/
theorem textBefore_append (h : Text.contains t.toList s.toList = true) :
    s = textBefore s t ++ t ++ textAfter s t := by
  obtain ⟨⟨p, q⟩, hsplit⟩ := Option.isSome_iff_exists.mp h
  rw [textBefore, textAfter, hsplit]
  apply String.toList_inj.mp
  simp only [String.toList_append, String.toList_ofList, Text.eq_of_splitAtFirst hsplit,
    List.append_assoc]

/-- The part before what is found is the shortest before any occurrence. -/
theorem textBefore_length_le {p q : String} (h : s = p ++ t ++ q) :
    (textBefore s t).length ≤ p.length := by
  obtain ⟨⟨p₁, q₁⟩, hsplit⟩ := Option.isSome_iff_exists.mp (contains_text_iff.mpr ⟨p, q, h⟩)
  have hlist : s.toList = p.toList ++ (t.toList ++ q.toList) := by
    rw [h, String.toList_append, String.toList_append, List.append_assoc]
  have hprefix := Text.prefix_of_splitAtFirst hsplit hlist
  rw [textBefore, hsplit, ← String.length_toList, ← String.length_toList, String.toList_ofList]
  exact hprefix.length_le

theorem text_parts_of_absent (h : Text.contains t.toList s.toList = false) :
    textBefore s t = "" ∧ textAfter s t = "" := by
  rw [Text.contains, Option.isSome_eq_false_iff, Option.isNone_iff_eq_none] at h
  simp only [textBefore, textAfter, h, and_self]

end

/-! ## Calls -/

/-- The answers of the string functions for two values are about their texts: `before` and `after`
are the parts around the first occurrence of the second text in the first one. -/
structure SplitAtFirst (v w : Value) (ctx : Context) (top : Nat) (before after : String)
    (contained starts ends : Bool) : Prop where
  contains : callFunction "contains" [v, w] ctx top = .ok (.boolean contained)
  startsWith : callFunction "starts-with" [v, w] ctx top = .ok (.boolean starts)
  endsWith : callFunction "ends-with" [v, w] ctx top = .ok (.boolean ends)
  substringBefore : callFunction "substring-before" [v, w] ctx top = .ok (.text before)
  substringAfter : callFunction "substring-after" [v, w] ctx top = .ok (.text after)
  contained_iff : contained = true ↔ ∃ p q, v.toText = p ++ w.toText ++ q
  starts_iff : starts = true ↔ ∃ q, v.toText = w.toText ++ q
  ends_iff : ends = true ↔ ∃ p, v.toText = p ++ w.toText
  /-- The parts and what was looked for make up the text again, -/
  rejoined : contained = true → v.toText = before ++ w.toText ++ after ∧
    callFunction "concat" [.text before, w, .text after] ctx top = .ok (.text v.toText)
  /-- and no occurrence has a shorter part before it. -/
  shortest : ∀ p q, v.toText = p ++ w.toText ++ q → before.length ≤ p.length
  absent : contained = false → before = "" ∧ after = ""
  starts_iff_first : starts = true ↔ contained = true ∧ before = ""
  contained_of_starts : starts = true → contained = true
  contained_of_ends : ends = true → contained = true

/-- The string functions split a text at the first occurrence of another, whatever the texts. -/
theorem split_at_first (v w : Value) (ctx : Context) (top : Nat) :
    ∃ before after contained starts ends,
      SplitAtFirst v w ctx top before after contained starts ends := by
  have hbegins : w.toText.toList.isPrefixOf v.toText.toList = true →
      Text.contains w.toText.toList v.toText.toList = true := by
    rw [isPrefixOf_text_iff, contains_text_iff]
    rintro ⟨q, h⟩
    exact ⟨"", q, by rw [h, String.empty_append]⟩
  refine ⟨textBefore v.toText w.toText, textAfter v.toText w.toText,
    Text.contains w.toText.toList v.toText.toList, w.toText.toList.isPrefixOf v.toText.toList,
    w.toText.toList.isSuffixOf v.toText.toList, ?_⟩
  constructor
  case contains => exact callFunction_title (f := .contains) rfl ctx top
  case startsWith => exact callFunction_title (f := .startsWith) rfl ctx top
  case endsWith => exact callFunction_title (f := .endsWith) rfl ctx top
  case substringBefore => exact callFunction_title (f := .substringBefore) rfl ctx top
  case substringAfter => exact callFunction_title (f := .substringAfter) rfl ctx top
  case contained_iff => exact contains_text_iff
  case starts_iff => exact isPrefixOf_text_iff
  case ends_iff => exact isSuffixOf_text_iff
  case rejoined =>
    intro h
    have hwhole := textBefore_append h
    refine ⟨hwhole, (callFunction_title (f := .concat) rfl ctx top).trans ?_⟩
    have hjoined (a b c : String) : "".intercalate [a, b, c] = a ++ b ++ c := by
      change a ++ "" ++ b ++ "" ++ c = a ++ b ++ c
      simp only [String.append_empty]
    have htext := (hjoined _ _ _).trans hwhole.symm
    exact congrArg (fun s => Except.ok (Value.text s)) htext
  case shortest => exact fun p q h => textBefore_length_le h
  case absent => exact text_parts_of_absent
  case starts_iff_first =>
    constructor
    · intro h
      obtain ⟨q, hq⟩ := isPrefixOf_text_iff.mp h
      have hlength : (textBefore v.toText w.toText).length ≤ "".length :=
        textBefore_length_le (q := q) (by rw [hq, String.empty_append])
      exact ⟨hbegins h, String.length_eq_zero_iff.mp (Nat.le_zero.mp hlength)⟩
    · rintro ⟨h, hnothing⟩
      have hwhole := textBefore_append h
      rw [hnothing, String.empty_append] at hwhole
      exact isPrefixOf_text_iff.mpr ⟨_, hwhole⟩
  case contained_of_starts => exact hbegins
  case contained_of_ends =>
    rw [isSuffixOf_text_iff, contains_text_iff]
    rintro ⟨p, h⟩
    exact ⟨p, "", by rw [h, String.append_empty]⟩

/-- Where occurrences overlap, the first one counts. -/
example : textBefore "xaaab" "aa" = "x" ∧ textAfter "xaaab" "aa" = "ab" := by decide

end Path

end StreamTransform
