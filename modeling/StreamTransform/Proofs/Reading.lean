import StreamTransform.Proofs.Phrase

/-!
# Reading words, numerals and node tests

Every word of a phrase is read back from the front of a text if what follows
cannot go on with it. What may follow a word is said by predicates on the rest;
the same ones tell why the alternatives that come before the right one fail.
-/

namespace StreamTransform

/-! ## Blanks and names -/

namespace Text

/-- The blanks outside ASCII. -/
def wideBlanks : List (Nat × Nat) :=
  [(0x85, 0x85), (0xA0, 0xA0), (0x1680, 0x1680), (0x2000, 0x200A), (0x2028, 0x2029),
    (0x202F, 0x202F), (0x205F, 0x205F), (0x3000, 0x3000)]

/-- No range of the table meets a blank outside ASCII. -/
def avoidsBlanks (table : Array (Nat × Nat)) : Bool :=
  table.toList.all fun r => wideBlanks.all fun b => Nat.blt b.2 r.1 || Nat.blt r.2 b.1

theorem avoidsBlanks_alphabetic : avoidsBlanks Table.alphabetic = true := by decide +kernel

theorem avoidsBlanks_numeric : avoidsBlanks Table.numeric = true := by decide +kernel

theorem inRanges_of_avoidsBlanks {table : Array (Nat × Nat)} (h : avoidsBlanks table = true)
    {b : Nat × Nat} (hb : b ∈ wideBlanks) {n : Nat} (low : b.1 ≤ n) (high : n ≤ b.2) :
    inRanges table n = false := by
  simp only [inRanges, Array.any_eq_false', Bool.and_eq_true, decide_eq_true_eq, not_and]
  intro r hr first
  have := List.all_eq_true.mp (List.all_eq_true.mp h r (Array.mem_toList_iff.mpr hr)) b hb
  simp only [Bool.or_eq_true, Nat.blt_eq] at this
  omega

theorem wide_of_isBlank {c : Char} (h : isBlank c = true) (wide : ¬ c.toNat < 0x80) :
    ∃ b ∈ wideBlanks, b.1 ≤ c.toNat ∧ c.toNat ≤ b.2 := by
  simp only [isBlank, Bool.or_eq_true, Bool.and_eq_true, decide_eq_true_eq, beq_iff_eq] at h
  simp only [wideBlanks, List.mem_cons, List.not_mem_nil, or_false, exists_eq_or_imp,
    exists_eq_left]
  omega

/-- A blank is neither a letter nor a digit. -/
theorem isAlphanumeric_of_isBlank {c : Char} (h : isBlank c = true) : isAlphanumeric c = false := by
  unfold isAlphanumeric
  split
  · rename_i narrow
    simp only [isBlank, Bool.or_eq_true, Bool.and_eq_true, decide_eq_true_eq, beq_iff_eq] at h
    simp only [isAsciiLetter, isAsciiDigit, Bool.or_eq_false_iff, Bool.and_eq_false_iff,
      decide_eq_false_iff_not, Char.le_def, UInt32.le_iff_toNat_le]
    have : c.toNat = c.val.toNat := rfl
    simp
    omega
  · rename_i wide
    obtain ⟨b, hb, low, high⟩ := wide_of_isBlank h wide
    simp [inRanges_of_avoidsBlanks avoidsBlanks_alphabetic hb low high,
      inRanges_of_avoidsBlanks avoidsBlanks_numeric hb low high]

end Text

theorem isBlank_of_isNameChar {c : Char} (h : isNameChar c = true) : Text.isBlank c = false := by
  refine Bool.eq_false_iff.mpr fun blank => ?_
  simp only [isNameChar, Text.isAlphanumeric_of_isBlank blank, Bool.false_or, Bool.or_eq_true,
    beq_iff_eq] at h
  rcases h with (rfl | rfl) | rfl <;> exact absurd blank (by decide)

/-- The text is not empty and has no blank at either end. -/
structure Solid (t : List Char) : Prop where
  starts : ∃ c ∈ t.head?, Text.isBlank c = false
  ends : ∃ c ∈ t.getLast?, Text.isBlank c = false

theorem Solid.of_all {t : List Char} (some : t ≠ []) (h : ∀ c ∈ t, Text.isBlank c = false) :
    Solid t where
  starts := ⟨t.head some, List.head?_eq_some_head some, h _ (List.head_mem some)⟩
  ends := ⟨t.getLast some, List.getLast?_eq_some_getLast some, h _ (List.getLast_mem some)⟩

theorem Solid.append {a b : List Char} (ha : Solid a) (m : List Char) (hb : Solid b) :
    Solid (a ++ (m ++ b)) := by
  obtain ⟨c, hc, first⟩ := ha.starts
  obtain ⟨d, hd, last⟩ := hb.ends
  obtain ⟨r, rfl⟩ := List.head?_eq_some_iff.mp hc
  obtain ⟨s, rfl⟩ := List.getLast?_eq_some_iff.mp hd
  exact ⟨⟨c, rfl, first⟩, ⟨d, List.getLast?_eq_some_iff.mpr ⟨c :: r ++ (m ++ s), by simp⟩, last⟩⟩

theorem Solid.single {c : Char} (h : Text.isBlank c = false) : Solid [c] :=
  ⟨⟨c, rfl, h⟩, ⟨c, rfl, h⟩⟩

theorem Solid.trim {t : List Char} (h : Solid t) : Text.trim t = t := by
  obtain ⟨c, hc, first⟩ := h.starts
  obtain ⟨d, hd, last⟩ := h.ends
  obtain ⟨r, rfl⟩ := List.head?_eq_some_iff.mp hc
  have start : Text.trimStart (c :: r) = c :: r := by simp [Text.trimStart, first]
  obtain ⟨s, whole⟩ := List.getLast?_eq_some_iff.mp hd
  rw [Text.trim, start, Text.trimEnd, whole]
  simp [last]

theorem isXmlSpace_of_not_isBlank {c : Char} (h : Text.isBlank c = false) :
    Text.isXmlSpace c = false :=
  Bool.eq_false_iff.mpr fun space => by simp [Text.isBlank_of_isXmlSpace space] at h

theorem isXmlSpace_of_isNameChar {c : Char} (h : isNameChar c = true) :
    Text.isXmlSpace c = false :=
  isXmlSpace_of_not_isBlank (isBlank_of_isNameChar h)

theorem isNameChar_of_isNameStart {c : Char} (h : isNameStart c = true) : isNameChar c = true := by
  grind [isNameStart, isNameChar, Text.isAlphabetic, Text.isAlphanumeric]

theorem isNameChar_of_isAsciiDigit {c : Char} (h : Text.isAsciiDigit c = true) :
    isNameChar c = true := by
  have narrow : c.toNat < 0x80 := by
    simp only [Text.isAsciiDigit, Bool.and_eq_true, decide_eq_true_eq, Char.le_def,
      UInt32.le_iff_toNat_le] at h
    have : c.toNat = c.val.toNat := rfl
    simp at h
    omega
  simp [isNameChar, Text.isAlphanumeric, narrow, h]

theorem isAsciiDigit_of_isNameStart {c : Char} (h : isNameStart c = true) :
    Text.isAsciiDigit c = false := by
  refine Bool.eq_false_iff.mpr fun digit => ?_
  have : c.toNat = c.val.toNat := rfl
  simp only [Text.isAsciiDigit, Bool.and_eq_true, decide_eq_true_eq, Char.le_def,
    UInt32.le_iff_toNat_le] at digit
  simp only [isNameStart, Text.isAlphabetic, Text.isAsciiLetter, Bool.or_eq_true, beq_iff_eq,
    Char.le_def, UInt32.le_iff_toNat_le] at h
  rcases h with h | rfl
  · split at h <;> simp at h digit <;> omega
  · exact absurd digit (by decide)

namespace Path

open Reader

/-! ## Readers whose parts are known to succeed or to fail -/

section Combinators

variable {α β : Type} {p : Reader α} {q : Reader β} {s r r' : List Char} {a : α} {b : β}

theorem map_of_some (f : α → β) (h : p s = some (a, r)) : map f p s = some (f a, r) := by
  simp [map, h]

theorem map_of_none (f : α → β) (h : p s = none) : map f p s = none := by
  simp [map, h]

theorem seq_of_some (h : p s = some (a, r)) (h' : q r = some (b, r')) :
    seq p q s = some ((a, b), r') := by
  simp [seq, h, h']

theorem after_of_some (h : p s = some (a, r)) : after p q s = q r := by
  cases second : q r <;> simp [after, map, seq, h, second]

theorem after_of_none (q : Reader β) (h : p s = none) : after p q s = none := by
  simp [after, map, seq, h]

theorem before_of_some (h : p s = some (a, r)) (h' : q r = some (b, r')) :
    before p q s = some (a, r') := by
  simp [before, map, seq, h, h']

theorem before_of_none (q : Reader β) (h : p s = none) : before p q s = none := by
  simp [before, map, seq, h]

theorem before_of_none_after (h : p s = some (a, r)) (h' : q r = none) : before p q s = none := by
  simp [before, map, seq, h, h']

theorem firstOf_of_some (ps : List (Reader α)) (h : p s = some (a, r)) :
    firstOf (p :: ps) s = some (a, r) := by
  simp [firstOf, h]

theorem firstOf_of_none (ps : List (Reader α)) (h : p s = none) :
    firstOf (p :: ps) s = firstOf ps s := by
  simp [firstOf, h]

end Combinators

theorem skipSpace_of_not_space {c : Char} (r : List Char) (h : Text.isXmlSpace c = false) :
    skipSpace (c :: r) = c :: r := by
  simp [skipSpace, h]

theorem skipSpace_space (r : List Char) : skipSpace (' ' :: r) = skipSpace r := rfl

theorem skipSpace_skipSpace (s : List Char) : skipSpace (skipSpace s) = skipSpace s := by
  induction s with
  | nil => rfl
  | cons c r ih => by_cases hc : Text.isXmlSpace c <;> simp_all [skipSpace]

theorem length_skipSpace_le (s : List Char) : (skipSpace s).length ≤ s.length :=
  (List.dropWhile_suffix _).length_le

theorem skipSpace_solid {t : List Char} (h : Solid t) (rest : List Char) :
    skipSpace (t ++ rest) = t ++ rest := by
  obtain ⟨c, hc, first⟩ := h.starts
  obtain ⟨r, rfl⟩ := List.head?_eq_some_iff.mp hc
  exact skipSpace_of_not_space _ (isXmlSpace_of_not_isBlank first)

theorem spaced_char {c : Char} (r : List Char) (h : Text.isXmlSpace c = false) :
    spaced (char c) (c :: r) = some ((), skipSpace r) := by
  simp [spaced, skipSpace_of_not_space r h, char]

theorem literally_append (w r : List Char) : literally w (w ++ r) = some ((), r) := by
  simp [literally]

theorem literally_eq_some {w s r : List Char} (h : literally w s = some ((), r)) : s = w ++ r := by
  unfold literally at h
  split at h
  · rename_i start
    obtain ⟨t, rfl⟩ := List.isPrefixOf_iff_prefix.mp start
    simp_all
  · cases h

theorem char_of_head {c : Char} {s : List Char} (h : s.head? ≠ some c) : char c s = none := by
  cases s with
  | nil => rfl
  | cons d r =>
    have : c ≠ d := fun e => h (by rw [e]; rfl)
    simp [char, this]

theorem literally_of_head {c : Char} {w s : List Char} (h : s.head? ≠ some c) :
    literally (c :: w) s = none := by
  cases s with
  | nil => rfl
  | cons d r =>
    have : c ≠ d := fun e => h (by rw [e]; rfl)
    simp [literally, this]

theorem keyword_of_head {c : Char} {w s : List Char} (h : s.head? ≠ some c) :
    keyword (c :: w) s = none := by
  rw [keyword, literally_of_head h]

theorem keyword_append (w : List Char) {r : List Char} (h : ∀ c ∈ r.head?, isNameChar c = false) :
    keyword w (w ++ r) = some ((), r) := by
  simp only [keyword, literally_append]
  cases r <;> simp_all

/-! ## Names -/

/-- The text does not go on with a name: neither with a name character nor with a colon. -/
def EndsName (rest : List Char) : Prop := ∀ c ∈ rest.head?, isNameChar c = false ∧ c ≠ ':'

theorem NcName.spelled (n : NcName) :
    ∃ c r, n.text.toList = c :: r ∧ isNameStart c = true ∧ ∀ d ∈ r, isNameChar d = true := by
  have legal := n.legal
  unfold isNCName at legal
  split at legal
  · cases legal
  · rename_i c r spelled
    simp only [Bool.and_eq_true, List.all_eq_true] at legal
    exact ⟨c, r, spelled, legal⟩

theorem NcName.isNameChar_of_mem (n : NcName) : ∀ c ∈ n.text.toList, isNameChar c = true := by
  obtain ⟨c, r, spelled, start, others⟩ := n.spelled
  rw [spelled]
  exact List.forall_mem_cons.mpr ⟨isNameChar_of_isNameStart start, others⟩

theorem takeWhile_of_head {p : Char → Bool} {rest : List Char} (h : ∀ c ∈ rest.head?, p c = false) :
    rest.takeWhile p = [] ∧ rest.dropWhile p = rest := by
  cases rest <;> simp_all

theorem ncName_append (n : NcName) {rest : List Char}
    (h : ∀ c ∈ rest.head?, isNameChar c = false) :
    ncName (n.text.toList ++ rest) = some (n.text.toList, rest) := by
  obtain ⟨c, r, spelled, start, others⟩ := n.spelled
  simp [spelled, ncName, start, List.takeWhile_append_of_pos others,
    List.dropWhile_append_of_pos others, takeWhile_of_head h]

/-- A name before a text that is no second part of a name. -/
theorem name_of_not_qualified (n : NcName) {rest : List Char}
    (h : ∀ c ∈ rest.head?, isNameChar c = false) (h' : after (char ':') ncName rest = none) :
    name (n.text.toList ++ rest) = some ((none, n.text.toList), rest) := by
  simp [name, ncName_append n h, h']

theorem name_plain (n : NcName) {rest : List Char} (h : EndsName rest) :
    name (n.text.toList ++ rest) = some ((none, n.text.toList), rest) := by
  refine name_of_not_qualified n (fun c hc => (h c hc).1) ?_
  cases rest with
  | nil => rfl
  | cons c r =>
    have : ¬ ':' = c := fun e => (h c rfl).2 e.symm
    simp [after, seq, map, char, this]

theorem name_qualified (q l : NcName) {rest : List Char} (h : EndsName rest) :
    name (q.text.toList ++ ':' :: (l.text.toList ++ rest)) =
      some ((some q.text.toList, l.text.toList), rest) := by
  have second : ncName (l.text.toList ++ rest) = some (l.text.toList, rest) :=
    ncName_append l fun c hc => (h c hc).1
  have first : ncName (q.text.toList ++ ':' :: (l.text.toList ++ rest)) =
      some (q.text.toList, ':' :: (l.text.toList ++ rest)) :=
    ncName_append q (by simp; decide)
  simp [name, first, after, seq, map, char, second]

theorem writtenName_append (n : LexicalName) {rest : List Char} (h : EndsName rest) :
    writtenName (n.print ++ rest) = some (String.ofList n.print, rest) := by
  cases n with
  | plain n => simp [writtenName, map, LexicalName.print, name_plain n h, writtenName.written]
  | qualified q l =>
    simp [writtenName, map, LexicalName.print, name_qualified q l h, writtenName.written]

/-! ## Numerals -/

/-- A point after the last digit of a numeral adds no digit. -/
theorem count?_point {ds : List Char} (h : ∀ c ∈ ds, Text.isAsciiDigit c = true)
    (t : Decimal.Tally) :
    ∃ u, t.count? ds = some u ∧ u.points = t.points ∧
      t.count? (ds ++ ['.']) = some { u with points := u.points + 1 } := by
  induction ds generalizing t with
  | nil => exact ⟨t, rfl, rfl, by simp [Decimal.Tally.count?]; decide⟩
  | cons c r ih =>
    obtain ⟨hc, hr⟩ := List.forall_mem_cons.mp h
    simp only [Decimal.Tally.count?, List.cons_append, hc, if_true]
    exact ih hr _

theorem unsigned?_point {ds : List Char} (h : ∀ c ∈ ds, Text.isAsciiDigit c = true) :
    Decimal.unsigned? (ds ++ ['.']) = Decimal.unsigned? ds := by
  obtain ⟨u, plain, points, pointed⟩ := count?_point h ⟨0, 0, 0, 0⟩
  simp [Decimal.unsigned?, plain, pointed, points]

/-- Digits and points are read as an unsigned numeral. -/
theorem read_unsigned {cs : List Char} (some : cs ≠ [])
    (h : ∀ c ∈ cs, Text.isAsciiDigit c = true ∨ c = '.') :
    Decimal.read (String.ofList cs) = (Decimal.unsigned? cs).getD Decimal.nan := by
  have solid : Solid cs := .of_all some fun c hc => isBlank_of_isNameChar <| by
    rcases h c hc with digit | rfl
    · exact isNameChar_of_isAsciiDigit digit
    · decide
  have signless : ∀ r, cs = '-' :: r → False := by
    rintro r rfl
    exact absurd (h '-' List.mem_cons_self) (by decide)
  unfold Decimal.read
  rw [String.toList_ofList, solid.trim]
  split
  · exact (signless _ rfl).elim
  · rfl

namespace Numeral

theorem print_ne_nil (n : Numeral) : n.print ≠ [] := by
  intro none
  obtain ⟨whole, places⟩ := List.append_eq_nil_iff.mp none
  obtain ⟨c, ds, h⟩ := n.someDigit whole
  simp [h] at places

theorem mem_print (n : Numeral) : ∀ c ∈ n.print, Text.isAsciiDigit c = true ∨ c = '.' := by
  intro c hc
  unfold print at hc
  rcases List.mem_append.mp hc with hc | hc
  · exact .inl (n.wholeDigits c hc)
  · cases h : n.places with
    | none => simp [h] at hc
    | some ds =>
      simp only [h, List.mem_cons] at hc
      exact hc.symm.imp_left fun hc => n.placeDigits ds h c hc

/-- The value of the whole lexeme. -/
theorem value_false (n : Numeral) :
    n.value false = (Decimal.unsigned? n.print).getD Decimal.nan := by
  simp [value, counted, read_unsigned n.print_ne_nil n.mem_print]

/-- At the end of the text only the whole digits count. -/
theorem value_true (n : Numeral) (some : n.whole ≠ []) :
    n.value true = (Decimal.unsigned? n.whole).getD Decimal.nan := by
  simp [value, counted, some, read_unsigned some fun c hc => .inl (n.wholeDigits c hc)]

theorem value_of_no_whole (n : Numeral) (h : n.whole = []) : n.value true = n.value false := by
  simp [value, counted, h]

theorem value_of_not_isMixed {n : Numeral} (h : n.isMixed = false) :
    n.value true = n.value false := by
  by_cases whole : n.whole = []
  · exact n.value_of_no_whole whole
  rw [n.value_true whole, n.value_false]
  cases places : n.places with
  | none => simp [print, places]
  | some ds =>
    obtain rfl : ds = [] := by simpa [isMixed, whole, places] using h
    simp [print, places, unsigned?_point n.wholeDigits]

end Numeral

theorem EndsName.not_digit {rest : List Char} (h : EndsName rest) :
    ∀ c ∈ rest.head?, Text.isAsciiDigit c = false :=
  fun c hc => Bool.eq_false_iff.mpr fun digit =>
    Bool.false_ne_true ((h c hc).1.symm.trans (isNameChar_of_isAsciiDigit digit))

/-- Digits are taken up to the first other character. -/
theorem span_digits {ds rest : List Char} (h : ∀ c ∈ ds, Text.isAsciiDigit c = true)
    (h' : ∀ c ∈ rest.head?, Text.isAsciiDigit c = false) :
    (ds ++ rest).takeWhile Text.isAsciiDigit = ds ∧
      (ds ++ rest).dropWhile Text.isAsciiDigit = rest := by
  simp [List.takeWhile_append_of_pos h, List.dropWhile_append_of_pos h, takeWhile_of_head h']

/-- A numeral is read whole, and valued by what of it counts. -/
theorem numeral_append (n : Numeral) {rest : List Char} (h : EndsName rest) :
    numeral (n.print ++ rest) = some (n.value rest.isEmpty, rest) := by
  have point : ∀ t, ∀ c ∈ ('.' :: t).head?, Text.isAsciiDigit c = false := by
    rintro t _ ⟨⟩
    decide
  cases places : n.places with
  | none =>
    have whole : n.whole ≠ [] := fun none => by simpa [places] using n.someDigit none
    obtain ⟨digits, others⟩ := span_digits n.wholeDigits h.not_digit
    have value : n.value rest.isEmpty = n.value true := by
      cases rest.isEmpty <;> simp [n.value_of_not_isMixed, Numeral.isMixed, places]
    simp only [numeral, Numeral.print, places, List.append_nil, digits, others, value,
      n.value_true whole, List.isEmpty_eq_false_iff.mpr whole]
    cases rest with
    | nil => rfl
    | cons c r =>
      have noPoint : c ≠ '.' := by
        rintro rfl
        exact absurd (h '.' rfl).1 (by decide)
      split <;> simp_all
  | some ds =>
    obtain ⟨digits, others⟩ := span_digits n.wholeDigits (point (ds ++ rest))
    obtain ⟨fraction, beyond⟩ := span_digits (n.placeDigits _ places) h.not_digit
    have print : n.print = n.whole ++ '.' :: ds := by simp [Numeral.print, places]
    by_cases whole : n.whole = []
    · obtain ⟨c, cs, someDigit⟩ := n.someDigit whole
      obtain rfl : ds = c :: cs := by simpa [places] using someDigit
      have value : n.value rest.isEmpty = n.value false := by
        cases rest.isEmpty <;> simp [n.value_of_no_whole whole]
      rw [value, n.value_false, print, whole]
      rw [whole] at digits others
      simp only [List.nil_append, List.cons_append] at digits others fraction beyond ⊢
      simp [numeral, digits, others, fraction, beyond]
    · simp only [numeral, print, List.append_assoc, List.cons_append, digits, others, fraction,
        beyond, List.isEmpty_eq_false_iff.mpr whole]
      cases rest with
      | nil => simp [countedPlaces, n.value_true whole, unsigned?_point n.wholeDigits]
      | cons c r => simp [countedPlaces, n.value_false, print]

/-! ## Literals -/

theorem quotedBy_append {q : Char} {cs : List Char} (free : q ∉ cs) (rest : List Char) :
    quotedBy q (q :: (cs ++ q :: rest)) = some (String.ofList cs, rest) := by
  have others : ∀ c ∈ cs, (c != q) = true := fun c hc => by
    simp only [bne_iff_ne]
    rintro rfl
    exact free hc
  simp [quotedBy, List.takeWhile_append_of_pos others, List.dropWhile_append_of_pos others]

theorem stringLiteral_append (t : Quotable) (rest : List Char) :
    stringLiteral (t.print ++ rest) = some (t.text, rest) := by
  have read := quotedBy_append t.free rest
  rcases t.isQuote with double | single
  · rw [double] at read
    simp [stringLiteral, firstOf, Quotable.print, double, read]
  · rw [single] at read
    have other : quotedBy '"' (Char.ofNat 39 :: (t.text.toList ++ Char.ofNat 39 :: rest)) = none :=
      rfl
    simp [stringLiteral, firstOf, Quotable.print, single, read, other]

/-! ## Node tests -/

/-- The text goes on neither with the name before it nor with an argument list of that name. -/
structure EndsTest (rest : List Char) : Prop where
  apart : EndsName rest
  uncalled : ∀ c ∈ (skipSpace rest).head?, c ≠ '('

theorem spaced_char_of_head {c : Char} {s : List Char} (h : ∀ d ∈ (skipSpace s).head?, d ≠ c) :
    spaced (char c) s = none := by
  unfold spaced
  cases front : skipSpace s with
  | nil => rfl
  | cons d r =>
    have : c ≠ d := fun e => h d (by simp [front]) e.symm
    simp [char, this]

theorem head_of_name_append {n rest : List Char} (hn : ∀ c ∈ n, isNameChar c = true)
    (h : ∀ c ∈ (skipSpace rest).head?, c ≠ '(') :
    ∀ c ∈ (skipSpace (n ++ rest)).head?, c ≠ '(' := by
  cases n with
  | nil => exact h
  | cons d r =>
    have start := (List.forall_mem_cons.mp hn).1
    rw [List.cons_append, skipSpace_of_not_space _ (isXmlSpace_of_isNameChar start)]
    rintro _ ⟨⟩ rfl
    exact absurd start (by decide)

/-- A word at the front of a name that is not called is not called either. -/
theorem not_called {w n rest r : List Char} (hw : w.all isNameChar)
    (hn : ∀ c ∈ n, isNameChar c = true) (ends : ∀ c ∈ rest.head?, isNameChar c = false)
    (uncalled : ∀ c ∈ (skipSpace rest).head?, c ≠ '(')
    (h : literally w (n ++ rest) = some ((), r)) : spaced (char '(') r = none := by
  have whole := literally_eq_some h
  refine spaced_char_of_head ?_
  rcases List.append_eq_append_iff.mp whole with ⟨m, rfl, rfl⟩ | ⟨m, rfl, rfl⟩
  · cases m with
    | nil => exact uncalled
    | cons c m =>
      have := ends c rfl
      have := List.all_eq_true.mp hw
      simp_all
  · exact head_of_name_append (fun c hc => hn c (List.mem_append_right _ hc)) uncalled

section NotCalled

variable {n rest : List Char} (hn : ∀ c ∈ n, isNameChar c = true)
  (ends : ∀ c ∈ rest.head?, isNameChar c = false)
  (uncalled : ∀ c ∈ (skipSpace rest).head?, c ≠ '(')

include hn ends uncalled

theorem kindTest_of_not_called {w : List Char} (hw : w.all isNameChar) :
    kindTest w (n ++ rest) = none := by
  cases front : literally w (n ++ rest) with
  | none => exact after_of_none _ front
  | some p =>
    rw [kindTest, after_of_some front]
    exact after_of_none _ (not_called hw hn ends uncalled front)

theorem instructionTest_of_not_called : instructionTest (n ++ rest) = none := by
  refine map_of_none _ (after_of_none _ ?_)
  cases front : literally "processing-instruction".toList (n ++ rest) with
  | none => simp only [seq, front]
  | some p => simp only [seq, front, not_called (by decide) hn ends uncalled front]

/-- A name that is not called is no test of the kind of a node. -/
theorem nodeTest_of_not_called (notStar : n ≠ []) :
    nodeTest (n ++ rest) = firstOf
      [map (fun q => .inNamespace (String.ofList q) "") (before ncName (literally [':', '*'])),
        map (fun _ => .wildcard) (char '*'),
        map (fun n => .name (n.1.map String.ofList) (String.ofList n.2) "") name] (n ++ rest) := by
  have kind {w : List Char} := kindTest_of_not_called hn ends uncalled (w := w)
  have starred : literally ['*', ':'] (n ++ rest) = none := by
    cases n with
    | nil => exact absurd rfl notStar
    | cons c r =>
      have : '*' ≠ c := by
        rintro rfl
        exact absurd (List.forall_mem_cons.mp hn).1 (by decide)
      simp [literally, this]
  rw [nodeTest, firstOf_of_none _ (map_of_none _ (kind (by decide))),
    firstOf_of_none _ (map_of_none _ (kind (by decide))),
    firstOf_of_none _ (map_of_none _ (kind (by decide))),
    firstOf_of_none _ (instructionTest_of_not_called hn ends uncalled),
    firstOf_of_none _ (map_of_none _ (after_of_none _ starred))]

end NotCalled

theorem char_of_name (n : NcName) {c : Char} (h : isNameChar c = false) (rest : List Char) :
    char c (n.text.toList ++ rest) = none := by
  obtain ⟨d, r, spelled, start, -⟩ := n.spelled
  have : c ≠ d := by
    rintro rfl
    simp [isNameChar_of_isNameStart start] at h
  simp [spelled, char, this]

theorem NcName.toList_ne_nil (n : NcName) : n.text.toList ≠ [] := by
  obtain ⟨c, r, spelled, -⟩ := n.spelled
  simp [spelled]

theorem nodeTest_name (l : NcName) {rest : List Char} (h : EndsTest rest) :
    nodeTest (l.text.toList ++ rest) = some (.name none l.text "", rest) := by
  have apart : ∀ c ∈ rest.head?, isNameChar c = false := fun c hc => (h.apart c hc).1
  have colon : literally [':', '*'] rest = none := by
    cases rest with
    | nil => rfl
    | cons c r =>
      have : ¬ ':' = c := fun e => (h.apart c rfl).2 e.symm
      simp [literally, this]
  rw [nodeTest_of_not_called l.isNameChar_of_mem apart h.uncalled l.toList_ne_nil,
    firstOf_of_none _ (map_of_none _ (before_of_none_after (ncName_append l apart) colon)),
    firstOf_of_none _ (map_of_none _ (char_of_name l (by decide) rest)),
    firstOf_of_some _ (map_of_some _ (name_plain l h.apart))]
  simp

theorem nodeTest_qualified (q l : NcName) {rest : List Char} (h : EndsTest rest) :
    nodeTest (q.text.toList ++ ':' :: (l.text.toList ++ rest)) =
      some (.name (some q.text) l.text "", rest) := by
  obtain ⟨d, r, spelled, start, -⟩ := l.spelled
  have notStar : '*' ≠ d := by
    rintro rfl
    exact absurd start (by decide)
  have apart : ∀ c ∈ (':' :: (l.text.toList ++ rest)).head?, isNameChar c = false := by
    rintro _ ⟨⟩
    decide
  have colon : literally [':', '*'] (':' :: (l.text.toList ++ rest)) = none := by
    simp [literally, spelled, notStar]
  rw [nodeTest_of_not_called q.isNameChar_of_mem apart (by rintro _ ⟨⟩; decide) q.toList_ne_nil,
    firstOf_of_none _ (map_of_none _ (before_of_none_after (ncName_append q apart) colon)),
    firstOf_of_none _ (map_of_none _ (char_of_name q (by decide) _)),
    firstOf_of_some _ (map_of_some _ (name_qualified q l h.apart))]
  simp

theorem nodeTest_inNamespace (q : NcName) (rest : List Char) :
    nodeTest (q.text.toList ++ ':' :: '*' :: rest) = some (.inNamespace q.text "", rest) := by
  have apart : ∀ c ∈ (':' :: '*' :: rest).head?, isNameChar c = false := by
    rintro _ ⟨⟩
    decide
  rw [nodeTest_of_not_called q.isNameChar_of_mem apart (by rintro _ ⟨⟩; decide) q.toList_ne_nil,
    firstOf_of_some _ (map_of_some _ (before_of_some (ncName_append q apart)
      (literally_append [':', '*'] rest)))]
  simp

theorem nodeTest_anyNamespace (l : NcName) {rest : List Char} (h : EndsTest rest) :
    nodeTest ('*' :: ':' :: (l.text.toList ++ rest)) = some (.anyNamespace l.text, rest) := by
  have read : after (literally ['*', ':']) ncName ('*' :: ':' :: (l.text.toList ++ rest)) =
      some (l.text.toList, rest) :=
    (after_of_some rfl).trans (ncName_append l fun c hc => (h.apart c hc).1)
  rw [nodeTest, firstOf_of_none _ rfl, firstOf_of_none _ rfl, firstOf_of_none _ rfl,
    firstOf_of_none _ rfl, firstOf_of_some _ (map_of_some _ read)]
  simp

theorem nodeTest_wildcard {rest : List Char} (h : EndsTest rest) :
    nodeTest ('*' :: rest) = some (.wildcard, rest) := by
  have colon : literally ['*', ':'] ('*' :: rest) = none := by
    cases rest with
    | nil => rfl
    | cons c r =>
      have : ¬ ':' = c := fun e => (h.apart c rfl).2 e.symm
      simp [literally, this]
  rw [nodeTest, firstOf_of_none _ rfl, firstOf_of_none _ rfl, firstOf_of_none _ rfl,
    firstOf_of_none _ rfl, firstOf_of_none _ (map_of_none _ (after_of_none _ colon)),
    firstOf_of_none _ rfl, firstOf_of_some _ rfl]

/-- An optional text with an opening quote is there or not, and then `)` follows. -/
theorem target_append (target : Option Quotable) (rest : List Char) :
    spaced (char '(') ('(' :: (target.elim [] Quotable.print ++ ')' :: rest)) =
        some ((), target.elim [] Quotable.print ++ ')' :: rest) ∧
      Reader.optional (spaced stringLiteral) (target.elim [] Quotable.print ++ ')' :: rest) =
        some (target.map (·.text), ')' :: rest) := by
  cases target with
  | none => exact ⟨rfl, rfl⟩
  | some t =>
    have quote : Text.isXmlSpace t.quote = false := by
      rcases t.isQuote with h | h <;> rw [h] <;> decide
    have start : skipSpace (t.print ++ ')' :: rest) = t.print ++ ')' :: rest :=
      skipSpace_of_not_space _ quote
    have close : skipSpace (')' :: rest) = ')' :: rest := rfl
    constructor
    · rw [Option.elim_some, spaced_char _ (by decide), start]
    · simp only [Option.elim_some, Option.map_some, Reader.optional, spaced, start,
        stringLiteral_append, close]

theorem kindTest_append (w : String) (rest : List Char) :
    kindTest w.toList (kindText w [] ++ rest) = some ((), rest) := by
  rw [kindText, List.append_assoc]
  exact (after_of_some (literally_append _ _)).trans rfl

theorem kindTest_of_head {w v : List Char} (h : w.head? ≠ v.head?)
    (hw : w ≠ []) (hv : v ≠ []) (rest : List Char) : kindTest w (v ++ rest) = none := by
  refine after_of_none _ ?_
  cases w <;> cases v <;> simp_all [literally]

theorem instructionTest_append (target : Option Quotable) (rest : List Char) :
    instructionTest
        (kindText "processing-instruction" (target.elim [] Quotable.print) ++ rest) =
      some (.instruction (target.map (·.text)), rest) := by
  obtain ⟨opened, read⟩ := target_append target rest
  rw [kindText, List.append_assoc, List.cons_append, List.append_assoc]
  exact map_of_some _ <| (after_of_some (seq_of_some (literally_append _ _) opened)).trans
    (before_of_some read rfl)

/-- A node test is read back, its qualifier still without a namespace. -/
theorem nodeTest_append {ns : Namespaces} (t : TestPhrase ns) {rest : List Char}
    (h : EndsTest rest) : nodeTest (t.print ++ rest) = some (t.test Qualifier.pending, rest) := by
  have other (w v : String) (h : w.toList.head? ≠ v.toList.head?)
      (hw : w.toList ≠ []) (hv : v.toList ≠ []) (argument : List Char) :
      kindTest w.toList (kindText v argument ++ rest) = none := by
    rw [kindText, List.append_assoc]
    exact kindTest_of_head h hw hv _
  cases t with
  | name l => exact nodeTest_name l h
  | qualified q l =>
    rw [TestPhrase.print, List.append_assoc]
    exact nodeTest_qualified q.name l h
  | anyNamespace l => exact nodeTest_anyNamespace l h
  | inNamespace q =>
    rw [TestPhrase.print, List.append_assoc]
    exact nodeTest_inNamespace q.name rest
  | wildcard => exact nodeTest_wildcard h
  | node => exact firstOf_of_some _ (map_of_some _ (kindTest_append _ rest))
  | text =>
    rw [TestPhrase.print, nodeTest,
      firstOf_of_none _ (map_of_none _ (other _ _ (by decide) (by decide) (by decide) _)),
      firstOf_of_some _ (map_of_some _ (kindTest_append _ rest))]
    rfl
  | comment =>
    rw [TestPhrase.print, nodeTest,
      firstOf_of_none _ (map_of_none _ (other _ _ (by decide) (by decide) (by decide) _)),
      firstOf_of_none _ (map_of_none _ (other _ _ (by decide) (by decide) (by decide) _)),
      firstOf_of_some _ (map_of_some _ (kindTest_append _ rest))]
    rfl
  | instruction target =>
    rw [TestPhrase.print, nodeTest,
      firstOf_of_none _ (map_of_none _ (other _ _ (by decide) (by decide) (by decide) _)),
      firstOf_of_none _ (map_of_none _ (other _ _ (by decide) (by decide) (by decide) _)),
      firstOf_of_none _ (map_of_none _ (other _ _ (by decide) (by decide) (by decide) _)),
      firstOf_of_some _ (instructionTest_append target rest)]
    rfl

end Path

end StreamTransform
