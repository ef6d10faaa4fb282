import Mathlib.Logic.Function.Iterate
import StreamTransform.Processor.Execution

/-!
# Texts that are made legal

A comment may not hold two hyphens in a row nor end in one, and the data of a processing instruction
may not hold its end mark. Spaces that are put between make any text legal. One walk over the text
does what passes do that replace pairs from the left until none is left; pairs of hyphens can
overlap, so that one pass may leave some, but no text needs more than two.
-/

namespace StreamTransform

namespace Text

variable {a b c d : Char} {cs ds : List Char}

/-- The text with spaces inserted, and nothing else done to it. -/
inductive Spaced : List Char → List Char → Prop
  | nil : Spaced [] []
  | keep (c : Char) {cs ds : List Char} : Spaced cs ds → Spaced (c :: cs) (c :: ds)
  | space {cs ds : List Char} : Spaced cs ds → Spaced cs (' ' :: ds)

theorem Spaced.append (h : Spaced cs ds) : Spaced cs (ds ++ [' ']) := by
  induction h with
  | nil => exact .space .nil
  | keep c _ ih => exact .keep c ih
  | space _ ih => exact .space ih

/-! ## Pairs -/

/-- How many characters `a` are directly followed by a `b`. -/
def pairs (a b : Char) : List Char → Nat
  | [] | [_] => 0
  | c :: d :: r => (if c == a && d == b then 1 else 0) + pairs a b (d :: r)

theorem pairs_pair (r : List Char) : pairs a b (a :: b :: r) = 1 + pairs a b (b :: r) := by
  simp [pairs]

theorem pairs_cons (h : ¬ (c = a ∧ cs.head? = some b)) : pairs a b (c :: cs) = pairs a b cs := by
  cases cs with
  | nil => rfl
  | cons d r =>
    have hne : (c == a && d == b) = false := by simpa using h
    rw [pairs, hne, if_neg Bool.false_ne_true, Nat.zero_add]

theorem contains_nil : contains [a, b] [] = false := rfl

theorem contains_cons : contains [a, b] (c :: cs) = (([a, b].isPrefixOf (c :: cs)) ||
    contains [a, b] cs) := by
  rw [contains, splitAtFirst]
  split
  · rename_i h
    rw [h]
    rfl
  · rename_i h
    rw [Bool.not_eq_true] at h
    rw [h, Bool.false_or, contains, Option.isSome_map]

/-- A pair occurs exactly if there is one to be counted. -/
theorem contains_iff_pairs : contains [a, b] cs = true ↔ 0 < pairs a b cs := by
  induction cs with
  | nil => simp [contains_nil, pairs]
  | cons c cs ih =>
    rw [contains_cons]
    cases cs with
    | nil => simp [pairs, contains_nil, List.isPrefixOf]
    | cons d r =>
      by_cases h : c = a ∧ d = b
      · obtain ⟨rfl, rfl⟩ := h
        have hstarts : [c, d].isPrefixOf (c :: d :: r) = true := by simp [List.isPrefixOf]
        rw [hstarts, Bool.true_or, pairs_pair]
        exact iff_of_true rfl (Nat.add_pos_left Nat.one_pos _)
      · rw [pairs_cons (by simpa using h), ← ih]
        have hne : [a, b].isPrefixOf (c :: d :: r) = false := by
          simp only [List.isPrefixOf, Bool.and_true, Bool.and_eq_false_iff, beq_eq_false_iff_ne]
          by_cases hc : a = c
          · exact .inr fun hd => h ⟨hc.symm, hd.symm⟩
          · exact .inl hc
        rw [hne, Bool.false_or]

theorem contains_eq_false_iff : contains [a, b] cs = false ↔ pairs a b cs = 0 := by
  rw [← Bool.not_eq_true, contains_iff_pairs, Nat.pos_iff_ne_zero, Decidable.not_not]

/-! ## One walk -/

theorem spaceBetween_pair (r : List Char) :
    spaceBetween a b (a :: b :: r) = a :: ' ' :: spaceBetween a b (b :: r) := by
  simp [spaceBetween]

theorem spaceBetween_cons (h : ¬ (c = a ∧ cs.head? = some b)) :
    spaceBetween a b (c :: cs) = c :: spaceBetween a b cs := by
  cases cs with
  | nil => rfl
  | cons d r =>
    have hne : (c == a && d == b) = false := by simpa using h
    rw [spaceBetween, hne, if_neg Bool.false_ne_true]

theorem head?_spaceBetween (cs : List Char) : (spaceBetween a b cs).head? = cs.head? := by
  cases cs with
  | nil => rfl
  | cons c cs =>
    by_cases h : c = a ∧ cs.head? = some b
    · obtain ⟨rfl, hd⟩ := h
      obtain ⟨r, rfl⟩ := List.head?_eq_some_iff.mp hd
      rw [spaceBetween_pair]
      rfl
    · rw [spaceBetween_cons h]
      rfl

theorem spaced_spaceBetween (cs : List Char) : Spaced cs (spaceBetween a b cs) := by
  induction cs with
  | nil => exact .nil
  | cons c cs ih =>
    by_cases h : c = a ∧ cs.head? = some b
    · obtain ⟨rfl, hd⟩ := h
      obtain ⟨r, rfl⟩ := List.head?_eq_some_iff.mp hd
      rw [spaceBetween_pair]
      exact .keep _ (.space ih)
    · rw [spaceBetween_cons h]
      exact .keep c ih

/-- A text without pairs stays as it is. -/
theorem spaceBetween_of_pairs (h : pairs a b cs = 0) : spaceBetween a b cs = cs := by
  induction cs with
  | nil => rfl
  | cons c cs ih =>
    by_cases hc : c = a ∧ cs.head? = some b
    · obtain ⟨rfl, hd⟩ := hc
      obtain ⟨r, rfl⟩ := List.head?_eq_some_iff.mp hd
      rw [pairs_pair] at h
      omega
    · rw [pairs_cons hc] at h
      rw [spaceBetween_cons hc, ih h]

/-- A space is no second character of a pair, -/
theorem not_pair_space (hb : b ≠ ' ') : ¬ (c = a ∧ (' ' :: cs).head? = some b) :=
  fun h => hb (Option.some.inj h.2).symm

/-- and no first one. -/
theorem not_space_pair (ha : a ≠ ' ') : ¬ (' ' = a ∧ cs.head? = some b) := fun h => ha h.1.symm

theorem pairs_space (ha : a ≠ ' ') (hb : b ≠ ' ') (c : Char) (cs : List Char) :
    pairs a b (c :: ' ' :: cs) = pairs a b cs := by
  rw [pairs_cons (not_pair_space hb), pairs_cons (not_space_pair ha)]

theorem pairs_append_space (hb : b ≠ ' ') (cs : List Char) :
    pairs a b (cs ++ [' ']) = pairs a b cs := by
  induction cs with
  | nil => rfl
  | cons c cs ih =>
    cases cs with
    | nil => exact pairs_cons (not_pair_space hb)
    | cons d r => exact congrArg ((if c == a && d == b then 1 else 0) + ·) ih

theorem pairs_spaceBetween (ha : a ≠ ' ') (hb : b ≠ ' ') (cs : List Char) :
    pairs a b (spaceBetween a b cs) = 0 := by
  induction cs with
  | nil => rfl
  | cons c cs ih =>
    by_cases h : c = a ∧ cs.head? = some b
    · obtain ⟨rfl, hd⟩ := h
      obtain ⟨r, rfl⟩ := List.head?_eq_some_iff.mp hd
      rw [spaceBetween_pair, pairs_space ha hb, ih]
    · rw [spaceBetween_cons h, pairs_cons (by rwa [head?_spaceBetween]), ih]

/-! ## Passes -/

/-- One pass: the pairs that do not overlap are pulled apart, from the left. -/
def pullApart (a b : Char) : List Char → List Char
  | [] => []
  | [c] => [c]
  | c :: d :: r =>
    if c == a && d == b then c :: ' ' :: d :: pullApart a b r else c :: pullApart a b (d :: r)

theorem pullApart_pair (r : List Char) :
    pullApart a b (a :: b :: r) = a :: ' ' :: b :: pullApart a b r := by
  simp [pullApart]

theorem pullApart_cons (h : ¬ (c = a ∧ cs.head? = some b)) :
    pullApart a b (c :: cs) = c :: pullApart a b cs := by
  cases cs with
  | nil => rfl
  | cons d r =>
    have hne : (c == a && d == b) = false := by simpa using h
    rw [pullApart, hne, if_neg Bool.false_ne_true]

/-- A text is gone through pair by pair, and character by character where there is no pair. -/
theorem pullApart_induction {P : List Char → Prop} (nil : P [])
    (pair : ∀ r, P r → P (a :: b :: r))
    (cons : ∀ c cs, ¬ (c = a ∧ cs.head? = some b) → P cs → P (c :: cs)) (cs : List Char) : P cs := by
  induction cs using pullApart.induct (a := a) (b := b) with
  | case1 => exact nil
  | case2 c => exact cons c [] (by simp) nil
  | case3 c d r h ih =>
    obtain ⟨rfl, rfl⟩ : c = a ∧ d = b := by simpa using h
    exact pair r ih
  | case4 c d r h ih => exact cons c (d :: r) (by simpa using h) ih

theorem head?_pullApart (cs : List Char) : (pullApart a b cs).head? = cs.head? := by
  induction cs using pullApart_induction (a := a) (b := b) with
  | nil => rfl
  | pair r _ =>
    rw [pullApart_pair]
    rfl
  | cons c cs h _ =>
    rw [pullApart_cons h]
    rfl

/-- A pass neither makes a pair with the character before the text nor takes one away. -/
theorem cons_pullApart_cases (c : Char) (cs : List Char) :
    (c = a ∧ ∃ r r', cs = b :: r ∧ pullApart a b cs = b :: r') ∨
      ¬ (c = a ∧ cs.head? = some b) ∧ ¬ (c = a ∧ (pullApart a b cs).head? = some b) := by
  rw [head?_pullApart]
  by_cases h : c = a ∧ cs.head? = some b
  · obtain ⟨rfl, hd⟩ := h
    obtain ⟨r, hr⟩ := List.head?_eq_some_iff.mp hd
    obtain ⟨r', hr'⟩ := List.head?_eq_some_iff.mp ((head?_pullApart (a := c) cs).trans hd)
    exact .inl ⟨rfl, r, r', hr, hr'⟩
  · exact .inr ⟨h, h⟩

section
variable (ha : a ≠ ' ') (hb : b ≠ ' ')
include ha hb

/-- What one walk does to a text is not changed by a pass over it before. -/
theorem spaceBetween_pullApart (cs : List Char) :
    spaceBetween a b (pullApart a b cs) = spaceBetween a b cs := by
  have after : ∀ c cs, spaceBetween a b (pullApart a b cs) = spaceBetween a b cs →
      spaceBetween a b (c :: pullApart a b cs) = spaceBetween a b (c :: cs) := by
    intro c cs ih
    rcases cons_pullApart_cases (a := a) (b := b) c cs with ⟨rfl, r, r', hr, hr'⟩ | ⟨h, h'⟩
    · rw [hr'] at ih ⊢
      rw [hr] at ih ⊢
      rw [spaceBetween_pair, spaceBetween_pair, ih]
    · rw [spaceBetween_cons h, spaceBetween_cons h', ih]
  induction cs using pullApart_induction (a := a) (b := b) with
  | nil => rfl
  | pair r ih =>
    rw [pullApart_pair, spaceBetween_cons (not_pair_space hb), spaceBetween_cons (not_space_pair ha),
      after b r ih, spaceBetween_pair]
  | cons c cs h ih => rw [pullApart_cons h, after c cs ih]

omit ha hb in
theorem pairs_cons_pullApart_le (c : Char) (h : pairs a b (pullApart a b cs) ≤ pairs a b cs) :
    pairs a b (c :: pullApart a b cs) ≤ pairs a b (c :: cs) := by
  rcases cons_pullApart_cases (a := a) (b := b) c cs with ⟨rfl, r, r', hr, hr'⟩ | ⟨hc, hc'⟩
  · rw [hr'] at h ⊢
    rw [hr] at h ⊢
    rw [pairs_pair, pairs_pair]
    omega
  · rwa [pairs_cons hc, pairs_cons hc']

theorem pairs_pullApart_le (cs : List Char) : pairs a b (pullApart a b cs) ≤ pairs a b cs := by
  induction cs using pullApart_induction (a := a) (b := b) with
  | nil => exact Nat.le_refl 0
  | pair r ih =>
    rw [pullApart_pair, pairs_space ha hb, pairs_pair]
    exact Nat.le_add_left_of_le (pairs_cons_pullApart_le b ih)
  | cons c cs h ih =>
    rw [pullApart_cons h]
    exact pairs_cons_pullApart_le c ih

/-- A pass over a text with pairs leaves fewer of them. -/
theorem pairs_pullApart_lt (h : 0 < pairs a b cs) : pairs a b (pullApart a b cs) < pairs a b cs := by
  induction cs using pullApart_induction (a := a) (b := b) with
  | nil => cases h
  | pair r _ =>
    rw [pullApart_pair, pairs_space ha hb, pairs_pair]
    have hle := pairs_cons_pullApart_le b (pairs_pullApart_le ha hb r)
    omega
  | cons c cs hc ih =>
    rw [pairs_cons hc] at h ⊢
    rw [pullApart_cons hc, pairs_cons (by rwa [head?_pullApart])]
    exact ih h

omit ha hb in
theorem pairs_pullApart_skip (h : ¬ (c = a ∧ cs.head? = some b)) :
    pairs a b (pullApart a b (c :: cs)) = pairs a b (pullApart a b cs) := by
  rw [pullApart_cons h, pairs_cons (by rwa [head?_pullApart])]

/-- After a pass no two pairs overlap, so that another one leaves none, whatever stands before. -/
theorem pairs_pullApart_cons (cs : List Char) :
    ∀ c, pairs a b (pullApart a b (c :: pullApart a b cs)) = 0 := by
  have second : ∀ ds, pairs a b (pullApart a b (' ' :: ds)) = pairs a b (pullApart a b ds) :=
    fun ds => pairs_pullApart_skip (not_space_pair ha)
  induction cs using pullApart_induction (a := a) (b := b) with
  | nil => exact fun _ => rfl
  | pair r ih =>
    intro c
    rw [pullApart_pair]
    by_cases h : c = a ∧ a = b
    · obtain ⟨rfl, rfl⟩ := h
      have hspace : ¬ (c = c ∧ (pullApart c c (' ' :: c :: pullApart c c r)).head? = some c) := by
        rw [head?_pullApart]
        exact not_pair_space hb
      rw [pullApart_pair, pairs_space ha hb, pairs_cons hspace, second, ih]
    · have hpair : ¬ (c = a ∧ (a :: ' ' :: b :: pullApart a b r).head? = some b) := by simpa using h
      rw [pairs_pullApart_skip hpair, pairs_pullApart_skip (not_pair_space hb), second, ih]
  | cons d cs hd ih =>
    intro c
    rw [pullApart_cons hd]
    rw [← head?_pullApart (a := a) (b := b)] at hd
    by_cases h : c = a ∧ d = b
    · obtain ⟨rfl, rfl⟩ := h
      rw [pullApart_pair, pairs_space ha hb, pairs_cons (by rwa [head?_pullApart]), ← second, ih]
    · have hpair : ¬ (c = a ∧ (d :: pullApart a b cs).head? = some b) := by simpa using h
      rw [pairs_pullApart_skip hpair, pairs_pullApart_skip hd, ← second, ih]

theorem pairs_pullApart_pullApart (cs : List Char) :
    pairs a b (pullApart a b (pullApart a b cs)) = 0 := by
  have h := pairs_pullApart_cons ha hb cs ' '
  rwa [pairs_pullApart_skip (not_space_pair ha)] at h

end

/-- Passes over a text until it holds no two hyphens in a row. -/
def pullHyphensApart (cs : List Char) : List Char :=
  if contains ['-', '-'] cs then pullHyphensApart (pullApart '-' '-' cs) else cs
termination_by pairs '-' '-' cs
decreasing_by
  rename_i h
  exact pairs_pullApart_lt (by decide) (by decide) (contains_iff_pairs.mp h)

theorem pullHyphensApart_eq (cs : List Char) : pullHyphensApart cs = spaceBetween '-' '-' cs := by
  induction cs using pullHyphensApart.induct with
  | case1 cs h ih =>
    rw [pullHyphensApart, if_pos h, ih, spaceBetween_pullApart (by decide) (by decide)]
  | case2 cs h =>
    rw [pullHyphensApart, if_neg h, spaceBetween_of_pairs]
    exact contains_eq_false_iff.mp (Bool.not_eq_true _ ▸ h)

/-- The passes end: after two of them, or before if no pair is left. -/
theorem passes_pullHyphensApart (cs : List Char) :
    contains ['-', '-'] (pullHyphensApart cs) = false ∧
    ∃ k ≤ 2, pullHyphensApart cs = (pullApart '-' '-')^[k] cs ∧
      ∀ j < k, contains ['-', '-'] ((pullApart '-' '-')^[j] cs) = true := by
  have hlast : contains ['-', '-'] (pullHyphensApart cs) = false := by
    rw [pullHyphensApart_eq, contains_eq_false_iff]
    exact pairs_spaceBetween (by decide) (by decide) cs
  have stops : ∀ cs, contains ['-', '-'] cs = false → pullHyphensApart cs = cs := by
    intro cs h
    rw [pullHyphensApart, h, if_neg Bool.false_ne_true]
  have goesOn : ∀ cs, contains ['-', '-'] cs = true →
      pullHyphensApart cs = pullHyphensApart (pullApart '-' '-' cs) := by
    intro cs h
    rw [pullHyphensApart, if_pos h]
  refine ⟨hlast, ?_⟩
  cases h₀ : contains ['-', '-'] cs with
  | false => exact ⟨0, by omega, stops cs h₀, by omega⟩
  | true =>
    cases h₁ : contains ['-', '-'] (pullApart '-' '-' cs) with
    | false =>
      refine ⟨1, by omega, (goesOn cs h₀).trans (stops _ h₁), fun j hj => ?_⟩
      obtain rfl : j = 0 := by omega
      exact h₀
    | true =>
      have h₂ : contains ['-', '-'] (pullApart '-' '-' (pullApart '-' '-' cs)) = false :=
        contains_eq_false_iff.mpr (pairs_pullApart_pullApart (by decide) (by decide) cs)
      refine ⟨2, by omega, (goesOn cs h₀).trans ((goesOn _ h₁).trans (stops _ h₂)), fun j hj => ?_⟩
      rcases Nat.lt_or_ge 0 j with hpos | hzero
      · obtain rfl : j = 1 := by omega
        exact h₁
      · obtain rfl : j = 0 := by omega
        exact h₀

/-- Pairs of different characters do not overlap: one pass is enough. -/
theorem pullApart_eq (h : a ≠ b) (cs : List Char) : pullApart a b cs = spaceBetween a b cs := by
  induction cs using pullApart_induction (a := a) (b := b) with
  | nil => rfl
  | pair r ih =>
    rw [pullApart_pair, spaceBetween_pair, spaceBetween_cons fun hb => h hb.1.symm, ih]
  | cons c cs hc ih => rw [pullApart_cons hc, spaceBetween_cons hc, ih]

end Text

/-! ## Comments -/

/-- A comment can hold the text as it is. -/
structure LegalComment (s : String) : Prop where
  apart : Text.contains ['-', '-'] s.toList = false
  last : s.toList.getLast? ≠ some '-'

section
variable {s : String}

/-- The text of a comment comes from passes over what it is to hold. -/
theorem toList_commentText (s : String) : (commentText s).toList =
    if (Text.pullHyphensApart s.toList).getLast? = some '-' then
      Text.pullHyphensApart s.toList ++ [' ']
    else Text.pullHyphensApart s.toList := by
  simp only [commentText, Text.pullHyphensApart_eq, String.toList_ofList, beq_iff_eq]

theorem legal_commentText (s : String) : LegalComment (commentText s) := by
  have hapart : Text.pairs '-' '-' (Text.pullHyphensApart s.toList) = 0 := by
    rw [Text.pullHyphensApart_eq]
    exact Text.pairs_spaceBetween (by decide) (by decide) _
  constructor
  case apart =>
    rw [toList_commentText, Text.contains_eq_false_iff]
    split
    · rw [Text.pairs_append_space (by decide), hapart]
    · exact hapart
  case last =>
    rw [toList_commentText]
    split
    · simp
    · assumption

theorem spaced_commentText (s : String) : Text.Spaced s.toList (commentText s).toList := by
  have hspaced : Text.Spaced s.toList (Text.pullHyphensApart s.toList) := by
    rw [Text.pullHyphensApart_eq]
    exact Text.spaced_spaceBetween _
  rw [toList_commentText]
  split
  · exact hspaced.append
  · exact hspaced

/-- A text stays as it is exactly if a comment can hold it. -/
theorem commentText_eq_iff : commentText s = s ↔ LegalComment s := by
  refine ⟨fun h => h ▸ legal_commentText s, fun h => String.toList_inj.mp ?_⟩
  have hsame : Text.pullHyphensApart s.toList = s.toList := by
    rw [Text.pullHyphensApart_eq]
    exact Text.spaceBetween_of_pairs (Text.contains_eq_false_iff.mp h.apart)
  rw [toList_commentText, hsame, if_neg h.last]

theorem commentText_commentText (s : String) : commentText (commentText s) = commentText s :=
  commentText_eq_iff.mpr (legal_commentText s)

/-! ## Processing instructions -/

theorem toList_instructionData (s : String) :
    (instructionData s).toList = Text.pullApart '?' '>' s.toList := by
  rw [instructionData, String.toList_ofList, Text.pullApart_eq (by decide)]

theorem contains_instructionData (s : String) :
    Text.contains ['?', '>'] (instructionData s).toList = false := by
  rw [instructionData, String.toList_ofList, Text.contains_eq_false_iff]
  exact Text.pairs_spaceBetween (by decide) (by decide) _

theorem spaced_instructionData (s : String) : Text.Spaced s.toList (instructionData s).toList := by
  rw [instructionData, String.toList_ofList]
  exact Text.spaced_spaceBetween _

end

end StreamTransform
