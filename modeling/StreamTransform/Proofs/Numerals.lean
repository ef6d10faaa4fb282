import Mathlib
import StreamTransform.Decimal.Numeral

/-!
# Texts that read as numbers

A text reads as a number exactly if there is a numeral between its blanks: perhaps a minus, and
digits with at most one point, which has digits on at least one side. The reader does not follow
this form. It counts the digits and the points of the whole text and looks at the counts in the
end, so the form is found again from the counts. What a numeral stands for is rounded, perhaps to
zero or to an infinity, but rounding never makes a NaN.
-/

namespace StreamTransform

/-! ## Blanks -/

namespace Text

/-- `body` is the text without the blanks around it. -/
structure TrimsTo (cs body : List Char) : Prop where
  around : ∃ before after, cs = before ++ (body ++ after) ∧
    (∀ c ∈ before, isBlank c = true) ∧ ∀ c ∈ after, isBlank c = true
  starts : ∀ c ∈ body.head?, isBlank c = false
  ends : ∀ c ∈ body.getLast?, isBlank c = false

theorem isBlank_of_head_dropWhile {cs : List Char} {c : Char}
    (h : c ∈ (cs.dropWhile isBlank).head?) : isBlank c = false := by
  have hnot := List.head?_dropWhile_not isBlank cs
  rw [Option.mem_def.mp h] at hnot
  exact Bool.eq_false_iff.mpr (by simpa using hnot)

theorem trimsTo_trim (cs : List Char) : TrimsTo cs (trim cs) where
  around := eq_append_trim cs
  starts c hc := by
    have front : trim cs <+: trimStart cs := by
      rw [← List.reverse_suffix, trim, trimEnd, List.reverse_reverse]
      exact List.dropWhile_suffix _
    obtain ⟨after, hafter⟩ := front
    have first : c ∈ (trimStart cs).head? := by
      rw [← hafter, List.head?_append, Option.mem_def.mp hc]
      rfl
    exact isBlank_of_head_dropWhile first
  ends c hc := by
    rw [trim, trimEnd, List.getLast?_reverse] at hc
    exact isBlank_of_head_dropWhile hc

end Text

namespace Decimal

/-! ## Rounding -/

section
open Float.Model Float.Model.UnpackedFloat

variable {f : Format}

/-- Only ones in the exponent beside a mantissa other than zero are a NaN. -/
theorem isNaN_packComponents {s : Sign} {e : BitVec f.exponentBits}
    {m : BitVec f.mantissaBitsWithoutImplicit} (h : e = -1#_ → m = 0#_) :
    (UnpackedFloat.unpack f (packComponents f s e m)).isNaN = false := by
  simp only [UnpackedFloat.unpack, unpackMantissa_packComponents, unpackExponent_packComponents]
  split
  · rename_i ones
    rw [if_pos (h ones)]
    rfl
  · split
    · split <;> rfl
    · rfl

theorem ofNat_ne_ones {n b : Nat} (h : n + 1 < 2 ^ b) : BitVec.ofNat b n ≠ -1#b := by
  intro ones
  have := congrArg BitVec.toNat ones
  rw [BitVec.toNat_ofNat, Nat.mod_eq_of_lt (by omega), BitVec.neg_one_eq_allOnes,
    BitVec.toNat_allOnes] at this
  omega

/-- Packing makes no NaN. An exponent that does not fit is an overflow to an infinity. -/
theorem isNaN_unpack_pack {u : UnpackedFloat} (h : u.isNaN = false) :
    (UnpackedFloat.unpack f (UnpackedFloat.pack f u)).isNaN = false := by
  have hzero : 0#f.exponentBits ≠ -1#_ :=
    ofNat_ne_ones (Nat.one_lt_two_pow (Nat.pos_iff_ne_zero.mp f.he))
  cases u with
  | notANumber => cases h
  | infinity s => exact isNaN_packComponents fun _ => rfl
  | zero s => exact isNaN_packComponents fun ones => absurd ones hzero
  | finite s m e pos =>
    simp only [UnpackedFloat.pack]
    split
    · exact isNaN_packComponents fun _ => rfl
    rename_i fits
    split
    · exact isNaN_packComponents fun ones => absurd ones (ofNat_ne_ones (by omega))
    · exact isNaN_packComponents fun ones => absurd ones hzero

theorem isNaN_roundWithAccuracy (f : Format) (s : Sign) (m : Nat) (e : Int) (a : Accuracy) :
    (roundWithAccuracy f s m e a).isNaN = false := by
  simp only [roundWithAccuracy]
  split <;> rfl

theorem isNaN_normalize (f : Format) (m e : Int) (s : Sign) :
    (UnpackedFloat.normalize f m e s).isNaN = false := by
  unfold UnpackedFloat.normalize
  split
  · exact isNaN_roundWithAccuracy ..
  · rfl
  · exact isNaN_roundWithAccuracy ..

theorem isNaN_scientific (f : Format) (m : Nat) (e : Int) :
    (UnpackedFloat.ofScientific f m e).isNaN = false := by
  unfold UnpackedFloat.ofScientific
  split
  · rfl
  split
  · rfl
  split
  · rfl
  split
  · exact isNaN_roundWithAccuracy ..
  · exact isNaN_roundWithAccuracy ..

/-- Neither zero nor an infinity nor a NaN. -/
def isRegular : UnpackedFloat → Bool
  | .finite .. => true
  | _ => false

theorem isNaN_div {u v : UnpackedFloat} (f : Format) (hu : u.isNaN = false)
    (hv : isRegular v = true) : (UnpackedFloat.div f u v).isNaN = false := by
  cases v with
  | finite s m e pos =>
    cases u with
    | notANumber => cases hu
    | finite s' m' e' pos' => exact isNaN_roundWithAccuracy ..
    | zero s' => rfl
    | infinity s' => rfl
  | _ => cases hv

theorem isRegular_power : ∀ e : Fin Float.exactlyRepresentablePowersOfTen.size,
    isRegular Float.exactlyRepresentablePowersOfTen[e].toModel.unpack = true := by
  decide

/-- Digits with some of them after the point have a value that is not a NaN. -/
theorem isNaN_ofScientific (m places : Nat) :
    (Float.ofScientific m true places).isNaN = false := by
  unfold Float.ofScientific
  split
  · rename_i small
    -- a small mantissa is divided by the double that is the power of ten
    exact isNaN_unpack_pack (isNaN_div _ (isNaN_unpack_pack (isNaN_normalize ..))
      (isRegular_power ⟨places, Nat.lt_succ_of_le small.2⟩))
  · exact isNaN_unpack_pack (isNaN_scientific ..)

theorem isNaN_neg {x : Float} (h : x.isNaN = false) : (-x).isNaN = false := by
  refine isNaN_unpack_pack ?_
  change x.toModel.unpack.isNaN = false at h
  cases hx : x.toModel.unpack with
  | notANumber =>
    rw [hx] at h
    cases h
  | _ => rfl

end

/-! ## Counts -/

section
variable {cs : List Char} {t u : Tally}

/-- Each digit and each point is counted. -/
theorem count?_of_forall (h : ∀ c ∈ cs, Text.isAsciiDigit c = true ∨ c = '.') (t : Tally) :
    ∃ u, t.count? cs = some u ∧ u.digits = t.digits + cs.countP Text.isAsciiDigit ∧
      u.points = t.points + cs.count '.' := by
  induction cs generalizing t with
  | nil => exact ⟨t, rfl, rfl, rfl⟩
  | cons c r ih =>
    obtain ⟨hc, hr⟩ := List.forall_mem_cons.mp h
    rcases hc with digit | rfl
    · have hne : c ≠ '.' := by
        rintro rfl
        exact absurd digit (by decide)
      obtain ⟨u, hcount, hdigits, hpoints⟩ := ih hr _
      refine ⟨u, (if_pos digit).trans hcount, ?_, ?_⟩
      · rw [hdigits, List.countP_cons_of_pos digit]
        dsimp only
        omega
      · rw [hpoints, List.count_cons_of_ne hne]
    · obtain ⟨u, hcount, hdigits, hpoints⟩ := ih hr { t with points := t.points + 1 }
      refine ⟨u, hcount, ?_, ?_⟩
      · rw [hdigits, List.countP_cons_of_neg (by decide)]
      · rw [hpoints, List.count_cons_self]
        dsimp only
        omega

theorem count?_start (h : ∀ c ∈ cs, Text.isAsciiDigit c = true ∨ c = '.') :
    ∃ u, Tally.count? ⟨0, 0, 0, 0⟩ cs = some u ∧ u.digits = cs.countP Text.isAsciiDigit ∧
      u.points = cs.count '.' := by
  simpa only [Nat.zero_add] using count?_of_forall h ⟨0, 0, 0, 0⟩

/-- Any other character ends the attempt. -/
theorem forall_of_count? (h : t.count? cs = some u) :
    ∀ c ∈ cs, Text.isAsciiDigit c = true ∨ c = '.' := by
  induction cs generalizing t with
  | nil => simp
  | cons c r ih =>
    unfold Tally.count? at h
    split at h
    · rename_i digit
      exact List.forall_mem_cons.mpr ⟨.inl digit, ih h⟩
    · split at h
      · rename_i point
        exact List.forall_mem_cons.mpr ⟨.inr (eq_of_beq point), ih h⟩
      · cases h

/-- What the counts of a numeral without a sign say. -/
structure Counted (cs : List Char) : Prop where
  only : ∀ c ∈ cs, Text.isAsciiDigit c = true ∨ c = '.'
  digit : ∃ c ∈ cs, Text.isAsciiDigit c = true
  point : cs.count '.' ≤ 1

theorem isSome_unsigned?_iff : (unsigned? cs).isSome = true ↔ Counted cs := by
  constructor
  · intro h
    unfold unsigned? at h
    split at h
    · rename_i u hcount
      have only := forall_of_count? hcount
      obtain ⟨u', hcount', hdigits, hpoints⟩ := count?_start only
      obtain rfl : u = u' := Option.some.inj (hcount.symm.trans hcount')
      split at h
      · cases h
      · rename_i enough
        simp only [Bool.or_eq_true, beq_iff_eq, decide_eq_true_eq, not_or, Nat.not_lt] at enough
        have hpos : 0 < cs.countP Text.isAsciiDigit := by omega
        exact ⟨only, List.countP_pos_iff.mp hpos, hpoints ▸ enough.2⟩
    · cases h
  · rintro ⟨only, digit, point⟩
    obtain ⟨u, hcount, hdigits, hpoints⟩ := count?_start only
    have hpos := List.countP_pos_iff.mpr digit
    have enough : ¬ (u.digits == 0 || decide (u.points > 1)) = true := by
      simp only [Bool.or_eq_true, beq_iff_eq, decide_eq_true_eq, not_or, Nat.not_lt]
      omega
    unfold unsigned?
    rw [hcount]
    simp only [if_neg enough, Option.isSome_some]

end

/-! ## The form of a numeral -/

/-- One or more ASCII digits. -/
def IsDigits (cs : List Char) : Prop := cs ≠ [] ∧ ∀ c ∈ cs, Text.isAsciiDigit c = true

/-- A numeral without a sign: digits, which a point and more digits may follow, or a point and
digits. -/
inductive IsUnsigned : List Char → Prop
  | whole {ds : List Char} (h : IsDigits ds) : IsUnsigned ds
  | pointed {ds es : List Char} (h : IsDigits ds) (more : es = [] ∨ IsDigits es) :
      IsUnsigned (ds ++ '.' :: es)
  | fraction {es : List Char} (h : IsDigits es) : IsUnsigned ('.' :: es)

/-- A numeral: perhaps a minus, and a numeral without a sign. -/
inductive IsNumeral : List Char → Prop
  | plain {cs : List Char} (h : IsUnsigned cs) : IsNumeral cs
  | negative {cs : List Char} (h : IsUnsigned cs) : IsNumeral ('-' :: cs)

section
variable {cs ds es : List Char}

theorem point_notMem (h : ∀ c ∈ ds, Text.isAsciiDigit c = true) : '.' ∉ ds := fun mem =>
  absurd (h '.' mem) (by decide)

theorem digits_of_notMem (h : ∀ c ∈ ds, Text.isAsciiDigit c = true ∨ c = '.') (none : '.' ∉ ds) :
    ∀ c ∈ ds, Text.isAsciiDigit c = true := by
  intro c hc
  refine (h c hc).resolve_right ?_
  rintro rfl
  exact none hc

theorem counted_whole (h : IsDigits ds) : Counted ds where
  only c hc := .inl (h.2 c hc)
  digit := ⟨ds.head h.1, List.head_mem h.1, h.2 _ (List.head_mem h.1)⟩
  point := by
    rw [List.count_eq_zero_of_not_mem (point_notMem h.2)]
    exact Nat.zero_le 1

/-- The point may stand anywhere among the digits. -/
theorem counted_point (hd : ∀ c ∈ ds, Text.isAsciiDigit c = true)
    (he : ∀ c ∈ es, Text.isAsciiDigit c = true) (some : ds ≠ [] ∨ es ≠ []) :
    Counted (ds ++ '.' :: es) where
  only c hc := by
    rcases List.mem_append.mp hc with hc | hc
    · exact .inl (hd c hc)
    · exact (List.mem_cons.mp hc).symm.imp_left (he c)
  digit := by
    rcases some with some | some
    · exact ⟨ds.head some, List.mem_append_left _ (List.head_mem some), hd _ (List.head_mem some)⟩
    · exact ⟨es.head some, List.mem_append_right _ (List.mem_cons_of_mem _ (List.head_mem some)),
        he _ (List.head_mem some)⟩
  point := by
    have before := List.count_eq_zero_of_not_mem (point_notMem hd)
    have after := List.count_eq_zero_of_not_mem (point_notMem he)
    rw [List.count_append, List.count_cons_self]
    omega

/-- The counts tell the form. A text with one point is cut there, and either side is left with
digits only. -/
theorem isUnsigned_iff : IsUnsigned cs ↔ Counted cs := by
  constructor
  · intro form
    cases form with
    | whole h => exact counted_whole h
    | pointed h more =>
      refine counted_point h.2 ?_ (.inl h.1)
      rcases more with rfl | more
      · simp
      · exact more.2
    | fraction h => exact @counted_point [] _ (List.forall_mem_nil _) h.2 (.inr h.1)
  · rintro ⟨only, ⟨d, hd, digit⟩, point⟩
    by_cases mem : '.' ∈ cs
    · obtain ⟨ds, es, rfl⟩ := List.append_of_mem mem
      rw [List.count_append, List.count_cons_self] at point
      obtain ⟨onlyBefore, onlyAfter⟩ := List.forall_mem_append.mp only
      have before := digits_of_notMem onlyBefore (List.count_eq_zero.mp (by omega))
      have after := digits_of_notMem (List.forall_mem_cons.mp onlyAfter).2
        (List.count_eq_zero.mp (by omega))
      by_cases whole : ds = []
      · subst whole
        refine .fraction ⟨?_, after⟩
        rintro rfl
        obtain rfl := List.mem_singleton.mp hd
        exact absurd digit (by decide)
      · refine .pointed ⟨whole, before⟩ ?_
        exact (Classical.em (es = [])).imp_right fun some => ⟨some, after⟩
    · exact .whole ⟨List.ne_nil_of_mem hd, digits_of_notMem only mem⟩

theorem minus_notMem (h : IsUnsigned cs) : '-' ∉ cs := fun mem =>
  absurd ((isUnsigned_iff.mp h).only '-' mem) (by decide)

theorem isNumeral_minus_iff : IsNumeral ('-' :: cs) ↔ IsUnsigned cs := by
  constructor
  · intro numeral
    cases numeral with
    | plain h => exact absurd List.mem_cons_self (minus_notMem h)
    | negative h => exact h
  · exact .negative

theorem isNumeral_iff (signless : ∀ r, cs ≠ '-' :: r) : IsNumeral cs ↔ IsUnsigned cs := by
  constructor
  · intro numeral
    cases numeral with
    | plain h => exact h
    | negative _ => exact absurd rfl (signless _)
  · exact .plain

theorem IsNumeral.mem (h : IsNumeral cs) {c : Char} (hc : c ∈ cs) :
    Text.isAsciiDigit c = true ∨ c = '.' ∨ c = '-' := by
  cases h with
  | plain h => exact ((isUnsigned_iff.mp h).only c hc).imp_right .inl
  | negative h =>
    rcases List.mem_cons.mp hc with rfl | hc
    · exact .inr (.inr rfl)
    · exact ((isUnsigned_iff.mp h).only c hc).imp_right .inl

theorem IsNumeral.minus_notMem_tail (h : IsNumeral cs) : '-' ∉ cs.tail := by
  cases h with
  | plain h => exact fun mem => minus_notMem h (List.mem_of_mem_tail mem)
  | negative h => exact minus_notMem h

end

/-! ## Reading -/

theorem isNaN_nan : nan.isNaN = true := by decide

theorem isNaN_of_unsigned? {cs : List Char} {x : Float} (h : unsigned? cs = some x) :
    x.isNaN = false := by
  unfold unsigned? at h
  split at h
  · split at h
    · cases h
    · cases h
      exact isNaN_ofScientific ..
  · cases h

theorem unsigned?_cases (cs : List Char) :
    (IsUnsigned cs ∧ ∃ x, unsigned? cs = some x ∧ x.isNaN = false) ∨
      (¬ IsUnsigned cs ∧ unsigned? cs = none) := by
  rw [isUnsigned_iff, ← isSome_unsigned?_iff]
  cases h : unsigned? cs with
  | some x => exact .inl ⟨rfl, x, rfl, isNaN_of_unsigned? h⟩
  | none => exact .inr ⟨Bool.false_ne_true, rfl⟩

theorem isNaN_read_iff (s : String) : (read s).isNaN = false ↔ IsNumeral (Text.trim s.toList) := by
  unfold read
  split
  · rename_i r htrim
    rw [htrim, isNumeral_minus_iff]
    rcases unsigned?_cases r with ⟨form, x, hread, number⟩ | ⟨noForm, hread⟩
    · simp only [hread, isNaN_neg number, form]
    · simp only [hread, isNaN_nan, noForm, Bool.true_eq_false]
  · rename_i signless
    rw [isNumeral_iff signless]
    rcases unsigned?_cases (Text.trim s.toList) with ⟨form, x, hread, number⟩ | ⟨noForm, hread⟩
    · simp only [hread, Option.getD_some, number, form]
    · simp only [hread, Option.getD_none, isNaN_nan, noForm, Bool.true_eq_false]

theorem isNaN_read_of_not {s : String} (h : ¬ IsNumeral (Text.trim s.toList)) :
    (read s).isNaN = true := by
  by_contra number
  exact h ((isNaN_read_iff s).mp (Bool.eq_false_iff.mpr number))

/-- What decides whether a text reads as a number; `body` is the text without the blanks around
it. -/
structure ReadsNumerals (s : String) (body : List Char) : Prop where
  trimmed : Text.TrimsTo s.toList body
  number_iff : (read s).isNaN = false ↔ IsNumeral body
  /-- No plus, exponent or word, no blank inside and no digit of another script. -/
  foreign : ∀ c ∈ body, Text.isAsciiDigit c = false → c ≠ '.' → c ≠ '-' → (read s).isNaN = true
  /-- No minus but one in front. -/
  sign : '-' ∈ body.tail → (read s).isNaN = true

/-- A text reads as a number exactly if there is a numeral between its blanks. -/
theorem reads_numerals (s : String) : ReadsNumerals s (Text.trim s.toList) where
  trimmed := Text.trimsTo_trim s.toList
  number_iff := isNaN_read_iff s
  foreign c hc digit point minus := isNaN_read_of_not fun numeral => by
    rcases numeral.mem hc with h | h | h
    · rw [digit] at h
      cases h
    · exact point h
    · exact minus h
  sign mem := isNaN_read_of_not fun numeral => numeral.minus_notMem_tail mem

/-- The point may be first or last, but it does not stand alone, and neither does the minus. -/
example : (read " -.5\t").isNaN = false ∧ (read "7.").isNaN = false ∧ (read "-.").isNaN = true ∧
    (read "-").isNaN = true ∧ (read "--1").isNaN = true := by
  decide +kernel

end Decimal

end StreamTransform
