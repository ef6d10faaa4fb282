import StreamTransform.Name

/-!
# The production of names

The recommendation for XML draws the characters of a name by ranges of code points, and a name is
checked here by the tables of letters and digits. Nearly all letters and digits lie in those
ranges. What the check lets through beside the names of the production has one of the stray
characters that are listed here, and nothing else is of that kind.
-/

namespace StreamTransform

/-! ## The production -/

/-- The code points of `NameStartChar`, the colon left out. -/
def NameStartCode (n : Nat) : Prop :=
  (0x41 ≤ n ∧ n ≤ 0x5A) ∨ n = 0x5F ∨ (0x61 ≤ n ∧ n ≤ 0x7A) ∨ (0xC0 ≤ n ∧ n ≤ 0xD6) ∨
  (0xD8 ≤ n ∧ n ≤ 0xF6) ∨ (0xF8 ≤ n ∧ n ≤ 0x2FF) ∨ (0x370 ≤ n ∧ n ≤ 0x37D) ∨
  (0x37F ≤ n ∧ n ≤ 0x1FFF) ∨ (0x200C ≤ n ∧ n ≤ 0x200D) ∨ (0x2070 ≤ n ∧ n ≤ 0x218F) ∨
  (0x2C00 ≤ n ∧ n ≤ 0x2FEF) ∨ (0x3001 ≤ n ∧ n ≤ 0xD7FF) ∨ (0xF900 ≤ n ∧ n ≤ 0xFDCF) ∨
  (0xFDF0 ≤ n ∧ n ≤ 0xFFFD) ∨ (0x10000 ≤ n ∧ n ≤ 0xEFFFF)

/-- The code points of `NameChar`, the colon left out. -/
def NameCode (n : Nat) : Prop :=
  NameStartCode n ∨ n = 0x2D ∨ n = 0x2E ∨ (0x30 ≤ n ∧ n ≤ 0x39) ∨ n = 0xB7 ∨
  (0x300 ≤ n ∧ n ≤ 0x36F) ∨ (0x203F ≤ n ∧ n ≤ 0x2040)

/-- The production `NCName`. -/
def NCName (text : String) : Prop :=
  ∃ c rest, text.toList = c :: rest ∧ NameStartCode c.toNat ∧ ∀ d ∈ rest, NameCode d.toNat

/-! ## Stray characters -/

/-- Letters that no name of the production starts with: the ordinals and the micro sign, marks
that count as letters, and letters in circles. -/
def StrayStartCode (n : Nat) : Prop :=
  n = 0xAA ∨ n = 0xB5 ∨ n = 0xBA ∨ n = 0x345 ∨ (0x363 ≤ n ∧ n ≤ 0x36F) ∨
  (0x24B6 ≤ n ∧ n ≤ 0x24E9)

/-- Letters and digits that stand nowhere in a name of the production: besides the ordinals, the
micro sign and letters in circles these are superscript digits, fractions and digits in circles,
in parentheses or with a full stop. -/
def StrayCode (n : Nat) : Prop :=
  n = 0xAA ∨ (0xB2 ≤ n ∧ n ≤ 0xB3) ∨ n = 0xB5 ∨ (0xB9 ≤ n ∧ n ≤ 0xBA) ∨ (0xBC ≤ n ∧ n ≤ 0xBE) ∨
  (0x2460 ≤ n ∧ n ≤ 0x249B) ∨ (0x24B6 ≤ n ∧ n ≤ 0x24FF) ∨ (0x2776 ≤ n ∧ n ≤ 0x2793)

/-- Some character of the text stands where the production does not allow it. -/
def HasStray (text : String) : Prop :=
  ∃ c rest, text.toList = c :: rest ∧ (StrayStartCode c.toNat ∨ ∃ d ∈ rest, StrayCode d.toNat)

/-- A text with a stray character is no name of the production. -/
theorem HasStray.not_ncName {text : String} (h : HasStray text) : ¬NCName text := by
  obtain ⟨c, rest, htext, hstray⟩ := h
  rintro ⟨c', rest', htext', hstart, hrest⟩
  obtain ⟨rfl, rfl⟩ := List.cons.inj (htext.symm.trans htext')
  rcases hstray with hstray | ⟨d, hd, hstray⟩
  · unfold StrayStartCode at hstray
    unfold NameStartCode at hstart
    omega
  · have hname := hrest d hd
    unfold StrayCode at hstray
    unfold NameCode NameStartCode at hname
    omega

/-! ## Letters and digits -/

namespace Text

/-- Ranges that hold the letters, each of them of the production or stray as a whole but for the
one where stray marks stand before Greek letters. -/
def letterRanges : List (Nat × Nat) :=
  [(0x41, 0x5A), (0x61, 0x7A), (0xAA, 0xAA), (0xB5, 0xB5), (0xBA, 0xBA), (0xC0, 0xD6),
    (0xD8, 0xF6), (0xF8, 0x2FF), (0x345, 0x345), (0x363, 0x37D), (0x37F, 0x1FFF),
    (0x2070, 0x218F), (0x24B6, 0x24E9), (0x2C00, 0x2FEF), (0x3001, 0xD7FF), (0xF900, 0xFDCF),
    (0xFDF0, 0xFFFD), (0x10000, 0xEFFFF)]

/-- Ranges that hold the digits. -/
def digitRanges : List (Nat × Nat) :=
  [(0x30, 0x39), (0xB2, 0xB3), (0xB9, 0xB9), (0xBC, 0xBE), (0x37F, 0x1FFF), (0x2070, 0x218F),
    (0x2460, 0x249B), (0x24EA, 0x24FF), (0x2776, 0x2793), (0x2C00, 0x2FEF), (0x3001, 0xD7FF),
    (0xFDF0, 0xFFFD), (0x10000, 0xEFFFF)]

/-- Each range of a table lies in a range of the list. -/
def CoveredBy (table : Array (Nat × Nat)) (ranges : List (Nat × Nat)) : Prop :=
  ∀ r ∈ table.toList, ∃ q ∈ ranges, q.1 ≤ r.1 ∧ r.2 ≤ q.2

instance (table : Array (Nat × Nat)) (ranges : List (Nat × Nat)) :
    Decidable (CoveredBy table ranges) :=
  inferInstanceAs (Decidable (∀ r ∈ table.toList, ∃ q ∈ ranges, q.1 ≤ r.1 ∧ r.2 ≤ q.2))

theorem CoveredBy.of_inRanges {table : Array (Nat × Nat)} {ranges : List (Nat × Nat)}
    (h : CoveredBy table ranges) {n : Nat} (hn : inRanges table n = true) :
    ∃ q ∈ ranges, q.1 ≤ n ∧ n ≤ q.2 := by
  obtain ⟨r, hr, hrn⟩ := Array.any_eq_true'.mp hn
  simp only [Bool.and_eq_true, decide_eq_true_eq] at hrn
  obtain ⟨q, hq, hqr⟩ := h r (Array.mem_def.mp hr)
  exact ⟨q, hq, by omega⟩

theorem letters_covered : CoveredBy Table.alphabetic letterRanges := by decide +kernel

theorem digits_covered : CoveredBy Table.numeric digitRanges := by decide +kernel

variable {c : Char}

theorem toNat_of_isAsciiLetter (h : isAsciiLetter c = true) :
    (0x41 ≤ c.toNat ∧ c.toNat ≤ 0x5A) ∨ (0x61 ≤ c.toNat ∧ c.toNat ≤ 0x7A) := by
  simp only [isAsciiLetter, Bool.or_eq_true, Bool.and_eq_true, decide_eq_true_eq] at h
  exact h.symm

/-- A letter starts a name of the production, or is one of the strays. -/
theorem nameStartCode_of_isAlphabetic (h : isAlphabetic c = true) :
    NameStartCode c.toNat ∨ StrayStartCode c.toNat := by
  unfold isAlphabetic at h
  split at h
  · have hletter := toNat_of_isAsciiLetter h
    unfold NameStartCode
    omega
  · have hranges := letters_covered.of_inRanges h
    simp only [letterRanges, List.mem_cons, List.not_mem_nil, or_false, exists_eq_or_imp,
      exists_eq_left] at hranges
    unfold NameStartCode StrayStartCode
    omega

/-- A digit continues a name of the production, or is one of the strays. -/
theorem nameCode_of_numeric (h : inRanges Table.numeric c.toNat = true) :
    NameCode c.toNat ∨ StrayCode c.toNat := by
  have hranges := digits_covered.of_inRanges h
  simp only [digitRanges, List.mem_cons, List.not_mem_nil, or_false, exists_eq_or_imp,
    exists_eq_left] at hranges
  unfold NameCode NameStartCode StrayCode
  omega

/-- A letter continues a name of the production, or is one of the strays. -/
theorem nameCode_of_isAlphabetic (h : isAlphabetic c = true) :
    NameCode c.toNat ∨ StrayCode c.toNat := by
  have hstart := nameStartCode_of_isAlphabetic h
  unfold NameStartCode StrayStartCode at hstart
  unfold NameCode NameStartCode StrayCode
  omega

theorem nameCode_of_isAlphanumeric (h : isAlphanumeric c = true) :
    NameCode c.toNat ∨ StrayCode c.toNat := by
  unfold isAlphanumeric at h
  split at h
  · rename_i hascii
    rcases Bool.or_eq_true_iff.mp h with hletter | hdigit
    · exact nameCode_of_isAlphabetic (by rwa [isAlphabetic, if_pos hascii])
    · simp only [isAsciiDigit, Bool.and_eq_true, decide_eq_true_eq] at hdigit
      exact .inl (.inr (.inr (.inr (.inl hdigit))))
  · rename_i hascii
    rcases Bool.or_eq_true_iff.mp h with hletter | hdigit
    · exact nameCode_of_isAlphabetic (by rwa [isAlphabetic, if_neg hascii])
    · exact nameCode_of_numeric hdigit

end Text

/-! ## Names that are let through -/

theorem nameStartCode_of_isNameStart {c : Char} (h : isNameStart c = true) :
    NameStartCode c.toNat ∨ StrayStartCode c.toNat := by
  rcases Bool.or_eq_true_iff.mp h with hletter | hmark
  · exact Text.nameStartCode_of_isAlphabetic hletter
  · obtain rfl := eq_of_beq hmark
    exact .inl (.inr (.inl rfl))

theorem nameCode_of_isNameChar {c : Char} (h : isNameChar c = true) :
    NameCode c.toNat ∨ StrayCode c.toNat := by
  simp only [isNameChar, Bool.or_eq_true, beq_iff_eq] at h
  rcases h with ((hletter | rfl) | rfl) | rfl
  · exact Text.nameCode_of_isAlphanumeric hletter
  · exact .inl (.inl (.inr (.inl rfl)))
  · exact .inl (.inr (.inl rfl))
  · exact .inl (.inr (.inr (.inl rfl)))

/-- What the check of a name lets through is a name of the production exactly if it has no stray
character. -/
theorem ncName_iff_not_hasStray {text : String} (h : isNCName text = true) :
    NCName text ↔ ¬HasStray text := by
  refine ⟨fun hname hstray => hstray.not_ncName hname, fun hstray => ?_⟩
  unfold isNCName at h
  split at h
  · cases h
  · rename_i c rest htext
    obtain ⟨hstart, hrest⟩ := Bool.and_eq_true_iff.mp h
    refine ⟨c, rest, htext, ?_, fun d hd => ?_⟩
    · exact (nameStartCode_of_isNameStart hstart).resolve_right fun hc =>
        hstray ⟨c, rest, htext, .inl hc⟩
    · exact (nameCode_of_isNameChar (List.all_eq_true.mp hrest d hd)).resolve_right fun hd' =>
        hstray ⟨c, rest, htext, .inr ⟨d, hd, hd'⟩⟩

end StreamTransform
