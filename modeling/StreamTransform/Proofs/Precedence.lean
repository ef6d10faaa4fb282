import StreamTransform.Proofs.Reading

/-!
# Operands and the levels above them

An expression is read by a ladder of levels, one for each precedence of binary
operators and, below them, unary minus and primary expressions. A text that one
level reads is read by every level above it as well, if none of the operators
in between follows. A chain of operators that associate to the left is followed
from its first operand: what the level makes of a text is told by the operand
read so far and by what is left.
-/

namespace StreamTransform.Path

open Reader

/-! ## What may follow an expression -/

/-- The text goes on with none of the parts of a step. -/
structure EndsStep (rest : List Char) : Prop extends EndsTest rest where
  unfiltered : ∀ c ∈ (skipSpace rest).head?, c ≠ '['

/-- The text is at its end or goes on with a blank or with a sign that ends an expression; behind
blanks there is nothing that a path or a call goes on with. -/
structure Follows (rest : List Char) : Prop where
  near : ∀ c ∈ rest.head?, c ∈ [' ', ')', ']', ',']
  far : ∀ c ∈ (skipSpace rest).head?, c ∉ ['(', '[', '/']

theorem Follows.endsName {rest : List Char} (h : Follows rest) : EndsName rest := fun c hc => by
  have near := h.near c hc
  simp only [List.mem_cons, List.not_mem_nil, or_false] at near
  rcases near with rfl | rfl | rfl | rfl <;> decide

theorem Follows.endsStep {rest : List Char} (h : Follows rest) : EndsStep rest where
  apart := h.endsName
  uncalled c hc e := h.far c hc (by simp [e])
  unfiltered c hc e := h.far c hc (by simp [e])

theorem Follows.unrelated {rest : List Char} (h : Follows rest) :
    ∀ c ∈ (skipSpace rest).head?, c ≠ '/' :=
  fun c hc e => h.far c hc (by simp [e])

/-- The signs of the levels, the loosest first. -/
def signs : List (Reader BinaryOperator) :=
  [orSign, andSign, equalitySign, orderSign, additiveSign, multiplicativeSign]

/-- None of the signs comes next. -/
def Stops (ss : List (Reader BinaryOperator)) (rest : List Char) : Prop :=
  ∀ sign ∈ ss, sign (skipSpace rest) = none

/-- The text does not go on with the expression in any way. -/
structure Ends (rest : List Char) : Prop extends Follows rest where
  stops : Stops signs rest

theorem stops_of_head {rest : List Char}
    (h : ∀ c ∈ (skipSpace rest).head?,
      c ∉ ['o', 'a', '=', '!', '<', '>', '+', '-', '*', 'd', 'm']) : Stops signs rest := by
  intro sign hs
  simp only [signs, List.mem_cons, List.not_mem_nil, or_false] at hs
  cases front : skipSpace rest with
  | nil => rcases hs with rfl | rfl | rfl | rfl | rfl | rfl <;> rfl
  | cons c r =>
    have other := h c (by simp [front])
    simp only [List.mem_cons, List.not_mem_nil, or_false, not_or] at other
    have other' := other
    simp only [eq_comm (a := c)] at other'
    rcases hs with rfl | rfl | rfl | rfl | rfl | rfl <;>
      simp [orSign, andSign, equalitySign, orderSign, additiveSign, multiplicativeSign, firstOf,
        map, keyword, literally, char, other']

theorem Ends.nil : Ends [] where
  near := by simp
  far := by simp [skipSpace]
  stops := stops_of_head (by simp [skipSpace])

/-- A closing sign ends an expression. -/
theorem Ends.closer {c : Char} (r : List Char) (h : c ∈ [')', ']', ',']) : Ends (c :: r) := by
  simp only [List.mem_cons, List.not_mem_nil, or_false] at h
  rcases h with rfl | rfl | rfl <;>
    exact ⟨⟨by rintro _ ⟨⟩; decide, by rintro _ ⟨⟩; decide⟩,
      stops_of_head (by rintro _ ⟨⟩; decide)⟩

/-- So does the word before the second branch of a conditional. -/
theorem Ends.else (r : List Char) : Ends (' ' :: 'e' :: r) :=
  ⟨⟨by rintro _ ⟨⟩; decide, by rintro _ ⟨⟩; decide⟩,
    stops_of_head (by rintro _ ⟨⟩; decide)⟩

/-! ## Levels -/

/-- The levels of some signs above unary minus. -/
def rung (expr : Reader Expr) (ss : List (Reader BinaryOperator)) : Reader Expr :=
  ss.foldr chain (unary (primary expr))

theorem expression_succ (depth : Nat) :
    expression (depth + 1) = rung (expression depth) signs := rfl

/-- What a level makes of a text after its first operand. -/
def chainFrom (sign : Reader BinaryOperator) (operand : Reader Expr) (first : Expr)
    (s : List Char) : Expr × List Char :=
  let rest := many (seq (spaced sign) operand) s
  (rest.1.foldl (fun left p => .binary p.1 left p.2) first, rest.2)

theorem chain_of_some {sign : Reader BinaryOperator} {operand : Reader Expr} {s r : List Char}
    {e : Expr} (h : operand s = some (e, r)) :
    chain sign operand s = some (chainFrom sign operand e r) := by
  simp only [chain, h, chainFrom]

theorem chainFrom_stop {sign : Reader BinaryOperator} {s : List Char} (operand : Reader Expr)
    (first : Expr) (h : sign (skipSpace s) = none) :
    chainFrom sign operand first s = (first, s) := by
  simp [chainFrom, many, seq, spaced, h]

/-- One more operator and operand. -/
theorem chainFrom_step {sign : Reader BinaryOperator} {operand : Reader Expr} {s r r' : List Char}
    {op : BinaryOperator} {e : Expr} (first : Expr) (h : sign (skipSpace s) = some (op, r))
    (h' : operand (skipSpace r) = some (e, r')) (shorter : r'.length < s.length) :
    chainFrom sign operand first s = chainFrom sign operand (.binary op first e) r' := by
  simp only [chainFrom]
  rw [many]
  simp [seq, spaced, h, h', shorter]

/-- A text that one level reads is read by those above, if none of their signs follows. -/
theorem rung_above {expr : Reader Expr} {ss above : List (Reader BinaryOperator)} {s r : List Char}
    {e : Expr} (h : rung expr ss s = some (e, r)) (stops : Stops above r) :
    rung expr (above ++ ss) s = some (e, r) := by
  induction above with
  | nil => exact h
  | cons sign above ih =>
    obtain ⟨stop, others⟩ := List.forall_mem_cons.mp stops
    have read : rung expr (above ++ ss) s = some (e, r) := ih others
    rw [List.cons_append, rung, List.foldr_cons, ← rung, chain_of_some read,
      chainFrom_stop _ _ stop]

section Levels

variable (expr : Reader Expr) (sign : Reader BinaryOperator) (ss : List (Reader BinaryOperator))
  (t : List Char) (e : Bool → Expr)

/-- The level of the signs reads the text as the expression, if nothing that follows goes on with
it; the expression may depend on whether the text is the last thing. -/
def Climbs : Prop :=
  ∀ rest, Follows rest → Stops ss rest →
    rung expr ss (t ++ rest) = some (e rest.isEmpty, skipSpace rest)

/-- The level of the sign, above those of the others, reads the text as a start of a chain. -/
def Chains : Prop :=
  ∀ rest, Follows rest → Stops ss rest →
    chain sign (rung expr ss) (t ++ rest) =
      some (chainFrom sign (rung expr ss) (e rest.isEmpty) (skipSpace rest))

variable {expr sign ss t e}

theorem Climbs.chains (h : Climbs expr ss t e) : Chains expr sign ss t e :=
  fun rest follows stops => chain_of_some (h rest follows stops)

theorem Chains.climbs (h : Chains expr sign ss t e) : Climbs expr (sign :: ss) t e := by
  intro rest follows stops
  obtain ⟨stop, others⟩ := List.forall_mem_cons.mp stops
  rw [rung, List.foldr_cons, ← rung, h rest follows others, chainFrom_stop]
  rwa [skipSpace_skipSpace]

theorem Climbs.above (h : Climbs expr ss t e) (above : List (Reader BinaryOperator)) :
    Climbs expr (above ++ ss) t e := by
  intro rest follows stops
  obtain ⟨above, others⟩ := List.forall_mem_append.mp stops
  refine rung_above (h rest follows others) fun sign hs => ?_
  rw [skipSpace_skipSpace]
  exact above sign hs

end Levels

/-! ## Binary operators -/

/-- The sign of an operator's level. -/
def BinaryOperator.reader : BinaryOperator → Reader BinaryOperator
  | or => orSign
  | and => andSign
  | equal | notEqual => equalitySign
  | less | lessOrEqual | greater | greaterOrEqual => orderSign
  | plus | minus => additiveSign
  | times | divide | modulo => multiplicativeSign

/-- The signs that bind more tightly than an operator. -/
def BinaryOperator.tighter (op : BinaryOperator) : List (Reader BinaryOperator) :=
  signs.drop op.precedence

theorem BinaryOperator.drop_signs (op : BinaryOperator) :
    signs.drop (op.precedence - 1) = op.reader :: op.tighter := by
  cases op <;> rfl

theorem BinaryOperator.precedence_pos (op : BinaryOperator) : 0 < op.precedence := by
  cases op <;> decide

theorem reader_append (op : BinaryOperator) (r : List Char) :
    op.reader (op.sign.toList ++ ' ' :: r) = some (op, ' ' :: r) := by
  cases op <;> rfl

/-- An operator after a blank ends its left operand. -/
theorem follows_sign (op : BinaryOperator) (r : List Char) :
    Follows (' ' :: (op.sign.toList ++ r)) := by
  refine ⟨by rintro _ ⟨⟩; decide, ?_⟩
  rw [skipSpace_space]
  cases op <;> rintro _ ⟨⟩ <;> decide

/-- It is no sign of a level below its own. -/
theorem stops_sign (op : BinaryOperator) (r : List Char) :
    Stops op.tighter (' ' :: (op.sign.toList ++ ' ' :: r)) := by
  rw [Stops, skipSpace_space]
  cases op <;>
    simp only [BinaryOperator.tighter, BinaryOperator.precedence, signs, List.drop_succ_cons,
      List.drop_zero, List.drop_nil, List.forall_mem_cons, List.not_mem_nil, false_implies,
      implies_true, and_true] <;>
    and_intros <;> rfl

/-- An operator between two operands goes on with the chain of the left one. -/
theorem Chains.binary {expr : Reader Expr} {op : BinaryOperator} {tl tr : List Char}
    {el er : Bool → Expr} (left : Chains expr op.reader op.tighter tl el)
    (right : Climbs expr op.tighter tr er) (solid : Solid tr) :
    Chains expr op.reader op.tighter (tl ++ ' ' :: (op.sign.toList ++ ' ' :: tr))
      fun atEnd => .binary op (el false) (er atEnd) := by
  intro rest follows stops
  have front : skipSpace (' ' :: (op.sign.toList ++ ' ' :: (tr ++ rest))) =
      op.sign.toList ++ ' ' :: (tr ++ rest) := by
    rw [skipSpace_space]
    cases op <;> rfl
  have read := left (' ' :: (op.sign.toList ++ ' ' :: (tr ++ rest))) (follows_sign op _)
    (stops_sign op _)
  rw [front] at read
  have sign : op.reader (skipSpace (op.sign.toList ++ ' ' :: (tr ++ rest))) =
      some (op, ' ' :: (tr ++ rest)) := by
    rw [← front, skipSpace_skipSpace, front]
    exact reader_append op (tr ++ rest)
  have operand : rung expr op.tighter (skipSpace (' ' :: (tr ++ rest))) =
      some (er rest.isEmpty, skipSpace rest) := by
    rw [skipSpace_space, skipSpace_solid solid rest]
    exact right rest follows stops
  have step := chainFrom_step (el false) sign operand (by
    have := length_skipSpace_le rest
    simp only [List.length_append, List.length_cons]
    omega)
  simpa [step] using read

/-! ## Primary expressions -/

/-- What a primary expression is tried as, in order. -/
def alternatives (expr : Reader Expr) : List (Reader Expr) :=
  [conditional expr,
    map (fun x => .number x) numeral,
    map (fun t => .literal t) stringLiteral,
    map (fun n => .reference n) (after (char '$') writtenName),
    parenthesized expr,
    functionCall expr,
    locationPath expr]

/-- A text without a sign in front is read by the first alternative that fits. -/
theorem rung_of_alternatives {expr : Reader Expr} {s r : List Char} {e : Expr}
    (start : skipSpace s = s) (unsigned : s.head? ≠ some '-')
    (h : firstOf (alternatives expr) s = some (e, r)) :
    rung expr [] s = some (e, skipSpace r) := by
  have noSign : spaced (char '-') s = none :=
    spaced_char_of_head (by rw [start]; rintro _ hc rfl; exact unsigned hc)
  have read : primary expr s = some (e, skipSpace r) := by
    rw [primary, spaced, start]
    simp only [alternatives] at h
    simp only [h]
  rw [rung, List.foldr_nil, unary, noSign]
  exact read

theorem Climbs.negate {expr : Reader Expr} {t : List Char} {e : Bool → Expr}
    (h : Climbs expr [] t e) (solid : Solid t) :
    Climbs expr [] ('-' :: t) fun atEnd => .negate (e atEnd) := by
  intro rest follows stops
  have sign : spaced (char '-') ('-' :: (t ++ rest)) = some ((), t ++ rest) := by
    rw [spaced_char _ (by decide), skipSpace_solid solid rest]
  have operand : unary (primary expr) (t ++ rest) = _ := h rest follows stops
  rw [rung, List.foldr_nil, List.cons_append, unary, sign]
  simp [operand]

end StreamTransform.Path
