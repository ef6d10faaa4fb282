import Mathlib
import StreamTransform.Path.Comparison

/-!
# Laws of comparison

A comparison looks for some pair of items, one from each side. To exchange the sides exchanges an
order with its converse and leaves equality and inequality alone, since the coercion of a pair does
not depend on which of its items comes first. Of two items exactly one of equality and inequality
holds; a NaN is on the side of inequality. Further items on either side only add pairs.
-/

namespace StreamTransform.Path

/-- The operator that says the same with its operands exchanged. -/
def BinaryOperator.converse : BinaryOperator → BinaryOperator
  | .less => .greater
  | .greater => .less
  | .lessOrEqual => .greaterOrEqual
  | .greaterOrEqual => .lessOrEqual
  | op => op

/-! ## Pairs of items -/

section
variable {op : BinaryOperator} {i j : Item}

theorem itemsEqual_comm (i j : Item) : itemsEqual i j = itemsEqual j i := by
  have hboolean : (i.toBoolean == j.toBoolean) = (j.toBoolean == i.toBoolean) := BEq.comm
  have hnumber : (i.toNumber == j.toNumber) = (j.toNumber == i.toNumber) := BEq.comm
  have htext : (i.toText == j.toText) = (j.toText == i.toText) := BEq.comm
  simp only [itemsEqual, Bool.or_comm i.isBoolean, Bool.or_comm i.isNumber, hboolean, hnumber,
    htext]

theorem compareItems_converse (op : BinaryOperator) (i j : Item) :
    compareItems op.converse j i = compareItems op i j := by
  cases op with
  | equal => exact itemsEqual_comm j i
  | notEqual => exact congrArg (!·) (itemsEqual_comm j i)
  | _ => rfl

/-- Nothing is equal to a NaN. -/
theorem beq_of_isNaN {x : Float} (h : x.isNaN = true) (y : Float) : (x == y) = false := by
  have hx : x.toModel.unpack = .notANumber := Float.Model.UnpackedFloat.isNaN_iff.mp h
  change x.toModel.unpack.beq y.toModel.unpack = false
  rw [hx]
  rfl

/-- A pair of numbers with a NaN among them is unequal. -/
theorem itemsEqual_of_isNaN (hb : (i.isBoolean || j.isBoolean) = false)
    (hn : (i.isNumber || j.isNumber) = true) (h : i.toNumber.isNaN = true) :
    itemsEqual i j = false := by
  simp only [itemsEqual, hb, hn, Bool.false_eq_true, if_false, if_true]
  exact beq_of_isNaN h _

end

/-! ## Sequences -/

section
variable {op : BinaryOperator} {a b a' b' : Value}

theorem compare_iff : compare op a b = true ↔
    ∃ i ∈ a.items, ∃ j ∈ b.items, compareItems op i j = true := by
  simp only [compare, List.any_eq_true]

theorem compare_converse (op : BinaryOperator) (a b : Value) :
    compare op.converse b a = compare op a b := by
  rw [Bool.eq_iff_iff, compare_iff, compare_iff]
  constructor
  · rintro ⟨j, hj, i, hi, h⟩
    exact ⟨i, hi, j, hj, (compareItems_converse op i j).symm.trans h⟩
  · rintro ⟨i, hi, j, hj, h⟩
    exact ⟨j, hj, i, hi, (compareItems_converse op i j).trans h⟩

/-- A pair is still there among more items. -/
theorem compare_mono (ha : a.items ⊆ a'.items) (hb : b.items ⊆ b'.items)
    (h : compare op a b = true) : compare op a' b' = true := by
  obtain ⟨i, hi, j, hj, hp⟩ := compare_iff.mp h
  exact compare_iff.mpr ⟨i, ha hi, j, hb hj, hp⟩

theorem compare_notEqual_iff : compare .notEqual a b = true ↔
    ¬ ∀ i ∈ a.items, ∀ j ∈ b.items, compareItems .equal i j = true := by
  rw [compare_iff]
  simp only [compareItems]
  push Not
  simp only [Bool.not_eq_true, Bool.not_eq_true']

end

/-- How two sequences compare. -/
structure ComparisonLaws (a b : Value) : Prop where
  equal : compare .equal a b = compare .equal b a
  notEqual : compare .notEqual a b = compare .notEqual b a
  less : compare .less a b = compare .greater b a
  lessOrEqual : compare .lessOrEqual a b = compare .greaterOrEqual b a
  /-- Of any two items exactly one of equality and inequality holds. -/
  exclusive : ∀ i j, compareItems .equal i j = true ↔ ¬ compareItems .notEqual i j = true
  /-- It is inequality if they are compared as numbers and one is a NaN. -/
  unordered : ∀ i j, (i.isBoolean || j.isBoolean) = false → (i.isNumber || j.isNumber) = true →
    (i.toNumber.isNaN || j.toNumber.isNaN) = true → compareItems .notEqual i j = true
  notEqual_iff : compare .notEqual a b = true ↔
    ¬ ∀ i ∈ a.items, ∀ j ∈ b.items, compareItems .equal i j = true
  /-- One of the two holds unless a side is empty. -/
  decided_iff : compare .equal a b = true ∨ compare .notEqual a b = true ↔
    a.items ≠ [] ∧ b.items ≠ []
  /-- Further items do not turn a comparison false. -/
  grows : ∀ op c, compare op a b = true →
    compare op (a.append c) b = true ∧ compare op a (b.append c) = true

/-- The laws hold of all sequences, whatever their items. -/
theorem comparison_laws (a b : Value) : ComparisonLaws a b where
  equal := compare_converse .equal b a
  notEqual := compare_converse .notEqual b a
  less := (compare_converse .less a b).symm
  lessOrEqual := (compare_converse .lessOrEqual a b).symm
  exclusive i j := by
    simp only [compareItems]
    cases itemsEqual i j <;> simp
  unordered i j hb hn h := by
    have hunequal : itemsEqual i j = false := by
      rcases Bool.or_eq_true_iff.mp h with h | h
      · exact itemsEqual_of_isNaN hb hn h
      · rw [itemsEqual_comm]
        exact itemsEqual_of_isNaN (by rwa [Bool.or_comm]) (by rwa [Bool.or_comm]) h
    simp only [compareItems, hunequal, Bool.not_false]
  notEqual_iff := compare_notEqual_iff
  decided_iff := by
    rw [compare_notEqual_iff, compare_iff]
    constructor
    · intro h
      by_contra hempty
      have hnone : ∀ i ∈ a.items, ∀ j, j ∉ b.items := by
        intro i hi j hj
        exact hempty ⟨List.ne_nil_of_mem hi, List.ne_nil_of_mem hj⟩
      rcases h with ⟨i, hi, j, hj, -⟩ | h
      · exact hnone i hi j hj
      · exact h fun i hi j hj => absurd hj (hnone i hi j)
    · rintro ⟨ha, hb⟩
      obtain ⟨i, hi⟩ := List.exists_mem_of_ne_nil _ ha
      obtain ⟨j, hj⟩ := List.exists_mem_of_ne_nil _ hb
      by_cases hall : ∀ i ∈ a.items, ∀ j ∈ b.items, compareItems .equal i j = true
      · exact .inl ⟨i, hi, j, hj, hall i hi j hj⟩
      · exact .inr hall
  grows op c h := by
    constructor
    · exact compare_mono (List.subset_append_left _ _) (List.Subset.refl _) h
    · exact compare_mono (List.Subset.refl _) (List.subset_append_left _ _) h

/-- Sequences can be both equal and unequal to one another, and less and greater. -/
example :
    let a : Value := ⟨[.number 1.0, .number 3.0]⟩
    let b : Value := ⟨[.text "2", .text "3"]⟩
    compare .equal a b = true ∧ compare .notEqual a b = true ∧ compare .less a b = true ∧
      compare .greater a b = true := by
  decide +kernel

end StreamTransform.Path
