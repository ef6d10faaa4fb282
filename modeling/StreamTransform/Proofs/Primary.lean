import Mathlib.Data.List.Forall2
import StreamTransform.Proofs.Precedence

/-!
# Reading primary expressions

Literals, lists in parentheses, calls, paths and conditionals are read back from
the front of a text, given that the reader of whole expressions reads back what
they contain. For each it is shown why the alternatives that are tried before it
fail: by the first character, or, for a path after an axis, by its second colon.
-/

namespace StreamTransform.Path

open Reader

variable {ns : Namespaces}

/-! ## Texts between delimiters -/

/-- The reader of whole expressions reads the text as the expression. -/
structure Whole (expr : Reader Expr) (t : List Char) (e : Bool → Expr) : Prop where
  solid : Solid t
  reads : ∀ rest, Ends rest → expr (t ++ rest) = some (e rest.isEmpty, skipSpace rest)

/-- The same of a text that is not the last thing. -/
structure Delimited (expr : Reader Expr) (t : List Char) (e : Expr) : Prop where
  solid : Solid t
  reads : ∀ rest, Ends rest → rest ≠ [] → expr (t ++ rest) = some (e, skipSpace rest)

theorem Whole.delimited {expr : Reader Expr} {t : List Char} {e : Bool → Expr}
    (h : Whole expr t e) : Delimited expr t (e false) where
  solid := h.solid
  reads rest ends some := by
    have := h.reads rest ends
    rwa [List.isEmpty_eq_false_iff.mpr some] at this

/-- Texts with a separator before each. -/
def continued (sep : List Char) (ts : List (List Char)) : List Char := (ts.map (sep ++ ·)).flatten

theorem continued_cons (sep t : List Char) (ts : List (List Char)) :
    continued sep (t :: ts) = sep ++ (t ++ continued sep ts) := by
  simp [continued]

theorem intercalate_cons (sep t : List Char) (ts : List (List Char)) :
    sep.intercalate (t :: ts) = t ++ continued sep ts := by
  induction ts generalizing t with
  | nil => simp [List.intercalate, continued]
  | cons u ts ih =>
    have := ih u
    simp_all [List.intercalate, continued]

section Lists

variable {expr : Reader Expr} {ts : List (List Char)} {es : List Expr}

/-- What comes after an item of a list. -/
theorem ends_continued (ts : List (List Char)) (rest : List Char) :
    Ends (continued [',', ' '] ts ++ ')' :: rest) ∧
      skipSpace (continued [',', ' '] ts ++ ')' :: rest) =
        continued [',', ' '] ts ++ ')' :: rest := by
  cases ts with
  | nil => exact ⟨.closer _ (by decide), rfl⟩
  | cons t ts => exact ⟨.closer _ (by decide), rfl⟩

/-- Items after the first are read up to the closing parenthesis. -/
theorem many_items (h : List.Forall₂ (Delimited expr) ts es) (rest : List Char) :
    many (after (spaced (char ',')) expr) (continued [',', ' '] ts ++ ')' :: rest) =
      (es, ')' :: rest) := by
  induction h with
  | nil =>
    rw [continued, List.map_nil, List.flatten_nil, List.nil_append, many]
    rfl
  | @cons t e ts es item items ih =>
    obtain ⟨ends, unspaced⟩ := ends_continued ts rest
    have comma : spaced (char ',') (',' :: ' ' :: (t ++ (continued [',', ' '] ts ++ ')' :: rest))) =
        some ((), t ++ (continued [',', ' '] ts ++ ')' :: rest)) := by
      rw [spaced_char _ (by decide), skipSpace_space, skipSpace_solid item.solid]
    have read := item.reads _ ends (by simp)
    rw [unspaced] at read
    rw [continued_cons, List.append_assoc, List.append_assoc, List.cons_append, List.cons_append,
      List.nil_append, many, after_of_some comma, read]
    simp [ih]
    omega

theorem separated_append (h : List.Forall₂ (Delimited expr) ts es) (rest : List Char)
    (nothing : expr (')' :: rest) = none) :
    separated (spaced (char ',')) expr (listed ts ++ ')' :: rest) = some (es, ')' :: rest) := by
  cases h with
  | nil =>
    show separated _ _ (')' :: rest) = _
    rw [separated, nothing]
  | @cons t e ts es item items =>
    obtain ⟨ends, unspaced⟩ := ends_continued ts rest
    have read := item.reads _ ends (by simp)
    rw [listed, intercalate_cons, List.append_assoc, separated, read, unspaced]
    simp [many_items items]

/-- A list in parentheses. -/
def arguments (expr : Reader Expr) : Reader (List Expr) :=
  before (after (spaced (char '(')) (separated (spaced (char ',')) expr)) (spaced (char ')'))

theorem arguments_append (h : List.Forall₂ (Delimited expr) ts es) (rest : List Char)
    (nothing : expr (')' :: rest) = none) :
    arguments expr ('(' :: (listed ts ++ ')' :: rest)) = some (es, skipSpace rest) := by
  have start : skipSpace (listed ts ++ ')' :: rest) = listed ts ++ ')' :: rest := by
    cases h with
    | nil => rfl
    | cons item items =>
      rw [listed, intercalate_cons, List.append_assoc, skipSpace_solid item.solid]
  have opened : spaced (char '(') ('(' :: (listed ts ++ ')' :: rest)) =
      some ((), listed ts ++ ')' :: rest) := by
    rw [spaced_char _ (by decide), start]
  exact before_of_some ((after_of_some opened).trans (separated_append h rest nothing))
    (spaced_char rest (by decide))

/-- Conditions in brackets are read up to the next thing. -/
theorem predicates_append (h : List.Forall₂ (Delimited expr) ts es) {rest : List Char}
    (unfiltered : ∀ c ∈ (skipSpace rest).head?, c ≠ '[') :
    ∃ r, predicates expr ((ts.map bracket).flatten ++ rest) = some (es, r) ∧
      (r = rest ∨ r = skipSpace rest) := by
  suffices ∀ s, s = (ts.map bracket).flatten ++ rest ∨
      s = skipSpace ((ts.map bracket).flatten ++ rest) →
      ∃ r, many (predicate expr) s = (es, r) ∧ (r = rest ∨ r = skipSpace rest) by
    obtain ⟨r, read, left⟩ := this _ (.inl rfl)
    exact ⟨r, congrArg _ read, left⟩
  induction h with
  | nil =>
    intro s hs
    have start : skipSpace s = skipSpace rest := by
      rcases hs with rfl | rfl <;> simp [skipSpace_skipSpace]
    have stop : predicate expr s = none :=
      before_of_none _ (after_of_none _ (spaced_char_of_head (by rw [start]; exact unfiltered)))
    refine ⟨s, ?_, by simpa using hs⟩
    rw [many, stop]
  | @cons t e ts es item items ih =>
    intro s hs
    have front : ((t :: ts).map bracket).flatten ++ rest =
        '[' :: (t ++ ']' :: ((ts.map bracket).flatten ++ rest)) := by
      simp [bracket]
    obtain rfl : s = '[' :: (t ++ ']' :: ((ts.map bracket).flatten ++ rest)) := by
      rw [front] at hs
      rcases hs with rfl | rfl <;> rfl
    obtain ⟨r, read, left⟩ := ih (skipSpace ((ts.map bracket).flatten ++ rest)) (.inr rfl)
    have opened : spaced (char '[') ('[' :: (t ++ ']' :: ((ts.map bracket).flatten ++ rest))) =
        some ((), t ++ ']' :: ((ts.map bracket).flatten ++ rest)) := by
      rw [spaced_char _ (by decide), skipSpace_solid item.solid]
    have condition : predicate expr ('[' :: (t ++ ']' :: ((ts.map bracket).flatten ++ rest))) =
        some (e, skipSpace ((ts.map bracket).flatten ++ rest)) :=
      before_of_some ((after_of_some opened).trans
        (item.reads _ (.closer _ (by decide)) (by simp))) (spaced_char _ (by decide))
    refine ⟨r, ?_, left⟩
    have := length_skipSpace_le ((ts.map bracket).flatten ++ rest)
    rw [many, condition]
    simp only [List.length_cons, List.length_append] at this ⊢
    rw [if_pos (by omega), read]

end Lists

/-! ## Paths -/

theorem axisName_append (axis : Axis) (r : List Char) :
    axisName (axis.word.toList ++ ':' :: ':' :: r) = some (axis, r) := by
  cases axis <;> rfl

theorem Axis.word_starts (axis : Axis) :
    ∃ c r, axis.word.toList = c :: r ∧ isNameStart c = true ∧ c ≠ 'i' := by
  cases axis <;> exact ⟨_, _, rfl, by decide, by decide⟩

/-- An axis is not the name of a call: a second colon follows the first one. -/
theorem functionCall_axis (expr : Reader Expr) (axis : Axis) (s : List Char) :
    functionCall expr (axis.word.toList ++ ':' :: ':' :: s) = none := by
  have legal : isNCName axis.word = true := by cases axis <;> decide
  have title : name (axis.word.toList ++ ':' :: ':' :: s) =
      some ((none, axis.word.toList), ':' :: ':' :: s) :=
    name_of_not_qualified ⟨axis.word, legal⟩ (by rintro _ ⟨⟩; decide) rfl
  rw [functionCall, writtenName, map_of_some _ title]
  simp only
  split
  · rfl
  · exact map_of_none _ (before_of_none _ (after_of_none _ rfl))

/-- The reader of steps reads the text as the step, and no call is read there. -/
structure StepReads (expr : Reader Expr) (t : List Char) (s : Step) : Prop where
  starts : ∃ c r, t = c :: r ∧ isNameStart c = true ∧ c ≠ 'i'
  noCall : ∀ rest, functionCall expr (t ++ rest) = none
  reads : ∀ rest, EndsStep rest →
    ∃ r, step expr (t ++ rest) = some (s, r) ∧ (r = rest ∨ r = skipSpace rest)

theorem step_append {expr : Reader Expr} (axis : Axis) (test : TestPhrase ns)
    {ts : List (List Char)} {es : List Expr} (h : List.Forall₂ (Delimited expr) ts es) :
    StepReads expr
      (axis.word.toList ++ ':' :: ':' :: (test.print ++ (ts.map bracket).flatten))
      (.mk axis (test.test Qualifier.pending) es) := by
  obtain ⟨c, word, spelled, start, notIf⟩ := axis.word_starts
  have noPoint : '.' ≠ c := by
    rintro rfl
    exact absurd start (by decide)
  refine ⟨⟨c, _, congrArg (· ++ _) spelled, start, notIf⟩, fun rest => ?_, fun rest ends => ?_⟩
  · rw [List.append_assoc]
    exact functionCall_axis expr axis _
  have endsTest : EndsTest ((ts.map bracket).flatten ++ rest) := by
    cases ts with
    | nil => exact ends.toEndsTest
    | cons t ts => exact ⟨by rintro _ ⟨⟩; decide, by rintro _ ⟨⟩; decide⟩
  obtain ⟨r, conditions, left⟩ := predicates_append h ends.unfiltered
  refine ⟨r, ?_, left⟩
  have read : seq axisName (seq nodeTest (predicates expr))
      (axis.word.toList ++ ':' :: ':' :: (test.print ++ ((ts.map bracket).flatten ++ rest))) =
      some ((axis, test.test Qualifier.pending, es), r) :=
    seq_of_some (axisName_append axis _) (seq_of_some (nodeTest_append test endsTest) conditions)
  simp only [List.append_assoc, List.cons_append]
  rw [step, firstOf_of_none _ (map_of_none _ (by simp [spelled, literally, noPoint])),
    firstOf_of_none _ (map_of_none _ (by simp [spelled, char, noPoint])),
    firstOf_of_some _ (map_of_some _ read)]

theorem endsStep_slash (r : List Char) : EndsStep ('/' :: r) :=
  ⟨⟨by rintro _ ⟨⟩; decide, by rintro _ ⟨⟩; decide⟩, by rintro _ ⟨⟩; decide⟩

theorem separator_of_head {s : List Char} (h : ∀ c ∈ (skipSpace s).head?, c ≠ '/') :
    separator s = none := by
  rw [separator, spaced]
  cases front : skipSpace s with
  | nil => rfl
  | cons c r =>
    have other : (c :: r).head? ≠ some '/' := fun e => h c (by simp [front]) (Option.some.inj e)
    rw [firstOf_of_none _ (map_of_none _ (literally_of_head other)),
      firstOf_of_none _ (map_of_none _ (char_of_head other)), firstOf]

theorem separator_slash {c : Char} (r : List Char) (h : isNameStart c = true) :
    separator ('/' :: c :: r) = some (false, c :: r) := by
  have other : '/' ≠ c := by
    rintro rfl
    exact absurd h (by decide)
  have start : skipSpace (c :: r) = c :: r :=
    skipSpace_of_not_space r (isXmlSpace_of_isNameChar (isNameChar_of_isNameStart h))
  have slash : skipSpace ('/' :: c :: r) = '/' :: c :: r := rfl
  simp [separator, spaced, slash, firstOf, map, literally, char, other, start]

section Steps

variable {expr : Reader Expr} {ts : List (List Char)} {ss : List Step}

/-- Steps after the first are read up to the end of the path. -/
theorem many_steps (h : List.Forall₂ (StepReads expr) ts ss) {rest : List Char}
    (follows : Follows rest) :
    ∀ s, s = continued ['/'] ts ++ rest ∨ s = skipSpace (continued ['/'] ts ++ rest) →
      ∃ r, many (seq separator (step expr)) s = (ss.map (false, ·), r) ∧
        skipSpace r = skipSpace rest := by
  induction h with
  | nil =>
    intro s hs
    have start : skipSpace s = skipSpace rest := by
      rcases hs with rfl | rfl <;> simp [continued, skipSpace_skipSpace]
    have stop : separator s = none :=
      separator_of_head (by rw [start]; exact follows.unrelated)
    refine ⟨s, ?_, start⟩
    rw [many, seq, stop]
    rfl
  | @cons t u ts ss item items ih =>
    intro s hs
    obtain ⟨c, word, rfl, first, -⟩ := item.starts
    obtain rfl : s = '/' :: (c :: word ++ (continued ['/'] ts ++ rest)) := by
      rw [continued_cons, List.append_assoc, List.append_assoc] at hs
      rcases hs with rfl | rfl <;> rfl
    have ends : EndsStep (continued ['/'] ts ++ rest) := by
      cases ts with
      | nil => exact follows.endsStep
      | cons => exact endsStep_slash _
    obtain ⟨s', one, left⟩ := item.reads _ ends
    obtain ⟨r, others, done⟩ := ih s' left
    have slash : separator ('/' :: (c :: word ++ (continued ['/'] ts ++ rest))) =
        some (false, c :: word ++ (continued ['/'] ts ++ rest)) :=
      separator_slash _ first
    have shorter : s'.length ≤ (continued ['/'] ts ++ rest).length := by
      rcases left with rfl | rfl
      · exact Nat.le_refl _
      · exact length_skipSpace_le _
    refine ⟨r, ?_, done⟩
    rw [many, seq_of_some slash one]
    simp only [List.length_cons, List.length_append] at shorter ⊢
    rw [if_pos (by omega), others]
    rfl

theorem relativePath_append {t : List Char} {u : Step} (one : StepReads expr t u)
    (others : List.Forall₂ (StepReads expr) ts ss) {rest : List Char} (follows : Follows rest) :
    ∃ r, relativePath expr (['/'].intercalate (t :: ts) ++ rest) = some ((u, ss), r) ∧
      skipSpace r = skipSpace rest := by
  have ends : EndsStep (continued ['/'] ts ++ rest) := by
    cases ts with
    | nil => exact follows.endsStep
    | cons => exact endsStep_slash _
  obtain ⟨s, first, left⟩ := one.reads _ ends
  obtain ⟨r, read, done⟩ := many_steps others follows s left
  refine ⟨r, ?_, done⟩
  rw [intercalate_cons, List.append_assoc, relativePath, first]
  simp [read, List.flatMap_map, stepsAfter]

/-- No step starts with what follows an expression. -/
theorem step_of_follows {rest : List Char} (follows : Follows rest) : step expr rest = none := by
  cases rest with
  | nil => rfl
  | cons c r =>
    have near := follows.near c rfl
    simp only [List.mem_cons, List.not_mem_nil, or_false] at near
    rcases near with rfl | rfl | rfl | rfl <;> rfl

theorem locationPath_append (absolute : Bool) (h : List.Forall₂ (StepReads expr) ts ss)
    (moves : absolute = true ∨ ts ≠ []) {rest : List Char} (follows : Follows rest) :
    ∃ r, locationPath expr
        ((if absolute then ['/'] else []) ++ (['/'].intercalate ts ++ rest)) =
          some (.path absolute ss, r) ∧
      skipSpace r = skipSpace rest := by
  cases h with
  | nil =>
    obtain rfl : absolute = true := by simpa using moves
    have notTwo : literally ['/', '/'] ('/' :: rest) = none := by
      cases rest with
      | nil => rfl
      | cons c r =>
        have near := follows.near c rfl
        simp only [List.mem_cons, List.not_mem_nil, or_false] at near
        rcases near with rfl | rfl | rfl | rfl <;> rfl
    have noPath : Reader.optional (relativePath expr) rest = some (none, rest) := by
      rw [Reader.optional, relativePath, step_of_follows follows]
    refine ⟨rest, ?_, rfl⟩
    show locationPath expr ('/' :: rest) = _
    rw [locationPath, firstOf_of_none _ (map_of_none _ (after_of_none _ notTwo)),
      firstOf_of_some _ (map_of_some _ ((after_of_some rfl).trans noPath))]
  | @cons t u ts ss one others =>
    obtain ⟨r, read, done⟩ := relativePath_append one others follows
    obtain ⟨c, word, spelled, first, -⟩ := one.starts
    have notSlash : '/' ≠ c := by
      rintro rfl
      exact absurd first (by decide)
    have front : ∃ s, ['/'].intercalate (t :: ts) ++ rest = c :: s :=
      ⟨_, by rw [intercalate_cons, spelled]; rfl⟩
    obtain ⟨s, front⟩ := front
    rw [front] at read ⊢
    refine ⟨r, ?_, done⟩
    cases absolute with
    | false =>
      have notTwo : literally ['/', '/'] (c :: s) = none := by simp [literally, notSlash]
      have notOne : char '/' (c :: s) = none := by simp [char, notSlash]
      show locationPath expr (c :: s) = _
      rw [locationPath, firstOf_of_none _ (map_of_none _ (after_of_none _ notTwo)),
        firstOf_of_none _ (map_of_none _ (after_of_none _ notOne)),
        firstOf_of_some _ (map_of_some _ read)]
    | true =>
      have notTwo : literally ['/', '/'] ('/' :: c :: s) = none := by simp [literally, notSlash]
      have path : Reader.optional (relativePath expr) (c :: s) = some (some (u, ss), r) := by
        rw [Reader.optional, read]
      show locationPath expr ('/' :: c :: s) = _
      rw [locationPath, firstOf_of_none _ (map_of_none _ (after_of_none _ notTwo)),
        firstOf_of_some _ (map_of_some _ ((after_of_some rfl).trans path))]

end Steps

/-! ## Primary expressions -/

theorem conditional_of_head {expr : Reader Expr} {s : List Char} (h : s.head? ≠ some 'i') :
    conditional expr s = none := by
  refine map_of_none _ ?_
  rw [seq, after_of_none _ (keyword_of_head h)]

/-- A text that starts with a name is a call or a path, or a conditional. -/
theorem alternatives_of_name (expr : Reader Expr) {c : Char} (s : List Char)
    (h : isNameStart c = true) (notIf : c ≠ 'i') :
    firstOf (alternatives expr) (c :: s) =
      firstOf [functionCall expr, locationPath expr] (c :: s) := by
  have other {d : Char} (hd : isNameStart d = false) : c ≠ d := by
    rintro rfl
    simp [h] at hd
  have noIf : conditional expr (c :: s) = none :=
    conditional_of_head fun e => notIf (Option.some.inj e)
  have noNumeral : numeral (c :: s) = none := by
    have point : c ≠ '.' := other (by decide)
    simp [numeral, isAsciiDigit_of_isNameStart h, point]
  have noLiteral : stringLiteral (c :: s) = none := by
    have double : c ≠ '"' := other (by decide)
    have single : c ≠ Char.ofNat 39 := other (by decide)
    simp [stringLiteral, firstOf, quotedBy, double, single]
  have noReference : after (char '$') writtenName (c :: s) = none :=
    after_of_none _ (char_of_head fun e => other (by decide) (Option.some.inj e))
  have noParenthesis : parenthesized expr (c :: s) = none := by
    refine map_of_none _ (before_of_none _ (after_of_none _ (spaced_char_of_head ?_)))
    rw [skipSpace_of_not_space _ (isXmlSpace_of_isNameChar (isNameChar_of_isNameStart h))]
    rintro _ ⟨⟩
    exact other (by decide)
  rw [alternatives, firstOf_of_none _ noIf, firstOf_of_none _ (map_of_none _ noNumeral),
    firstOf_of_none _ (map_of_none _ noLiteral),
    firstOf_of_none _ (map_of_none _ noReference), firstOf_of_none _ noParenthesis]

/-- No expression starts with a closing parenthesis. -/
theorem expression_close (depth : Nat) (s : List Char) : expression depth (')' :: s) = none := by
  cases depth with
  | zero => rfl
  | succ depth =>
    have noPrimary : primary (expression depth) (')' :: s) = none := rfl
    have noUnary : unary (primary (expression depth)) (')' :: s) = none := by
      rw [unary]
      exact noPrimary
    simp [expression, chain, noUnary]

section Alternatives

variable {expr : Reader Expr}

theorem read_literal (t : Quotable) (rest : List Char) :
    firstOf (alternatives expr) (t.print ++ rest) = some (.literal t.text, rest) := by
  have read := stringLiteral_append t rest
  have front : t.print ++ rest = t.quote :: ((t.text.toList ++ [t.quote]) ++ rest) := rfl
  rw [front] at read ⊢
  rcases t.isQuote with quote | quote <;>
    rw [quote] at read ⊢ <;>
    rw [alternatives, firstOf_of_none _ rfl, firstOf_of_none _ rfl,
      firstOf_of_some _ (map_of_some _ read)]

theorem Numeral.head_print (n : Numeral) (rest : List Char) :
    (n.print ++ rest).head? ≠ some 'i' ∧ (n.print ++ rest).head? ≠ some '-' := by
  obtain ⟨c, r, spelled⟩ := List.exists_cons_of_ne_nil n.print_ne_nil
  have := n.mem_print c (by simp [spelled])
  constructor <;>
  · rw [spelled, List.cons_append, List.head?_cons]
    rintro ⟨⟩
    revert this
    decide

theorem read_number (n : Numeral) {rest : List Char} (h : Follows rest) :
    firstOf (alternatives expr) (n.print ++ rest) =
      some (.number (n.value rest.isEmpty), rest) := by
  rw [alternatives, firstOf_of_none _ (conditional_of_head (n.head_print rest).1),
    firstOf_of_some _ (map_of_some _ (numeral_append n h.endsName))]

theorem read_reference (n : LexicalName) {rest : List Char} (h : Follows rest) :
    firstOf (alternatives expr) ('$' :: (n.print ++ rest)) =
      some (.reference (String.ofList n.print), rest) := by
  have read : after (char '$') writtenName ('$' :: (n.print ++ rest)) =
      some (String.ofList n.print, rest) :=
    (after_of_some rfl).trans (writtenName_append n h.endsName)
  rw [alternatives, firstOf_of_none _ rfl, firstOf_of_none _ rfl, firstOf_of_none _ rfl,
    firstOf_of_some _ (map_of_some _ read)]

/-- One item in parentheses is that item. -/
def grouped : List Expr → Expr
  | [e] => e
  | es => .sequence es

theorem read_parenthesized {ts : List (List Char)} {es : List Expr}
    (h : List.Forall₂ (Delimited expr) ts es) (nothing : ∀ s, expr (')' :: s) = none)
    (rest : List Char) :
    firstOf (alternatives expr) ('(' :: (listed ts ++ ')' :: rest)) =
      some (grouped es, skipSpace rest) := by
  have read : parenthesized expr ('(' :: (listed ts ++ ')' :: rest)) =
      some (grouped es, skipSpace rest) :=
    map_of_some grouped (arguments_append h rest (nothing rest))
  rw [alternatives, firstOf_of_none _ rfl, firstOf_of_none _ rfl, firstOf_of_none _ rfl,
    firstOf_of_none _ rfl, firstOf_of_some _ read]

theorem title_legal (f : Function) : isNCName f.title = true := by
  cases f <;> decide

theorem title_not_reserved (f : Function) : reservedNames.contains f.title = false := by
  cases f <;> decide

theorem title_head (f : Function) : f.title.toList.head? ≠ some 'i' := by
  cases f <;> decide

theorem read_call (f : Function) {ts : List (List Char)} {es : List Expr}
    (h : List.Forall₂ (Delimited expr) ts es) (nothing : ∀ s, expr (')' :: s) = none)
    (rest : List Char) :
    firstOf (alternatives expr) (kindText f.title (listed ts) ++ rest) =
      some (.call f.title es, skipSpace rest) := by
  have called : EndsName ('(' :: (listed ts ++ ')' :: rest)) := by
    rintro _ ⟨⟩
    decide
  have title := writtenName_append (.plain ⟨f.title, title_legal f⟩) called
  obtain ⟨c, r, spelled, start, -⟩ := NcName.spelled ⟨f.title, title_legal f⟩
  have notIf : c ≠ 'i' := by
    rintro rfl
    exact title_head f (by rw [spelled]; rfl)
  have read : functionCall expr (f.title.toList ++ '(' :: (listed ts ++ ')' :: rest)) =
      some (.call f.title es, skipSpace rest) := by
    simp only [LexicalName.print, String.ofList_toList] at title
    rw [functionCall, title]
    simp only [title_not_reserved f, Bool.false_eq_true, if_false]
    exact map_of_some _ (arguments_append h rest (nothing rest))
  have front : kindText f.title (listed ts) ++ rest =
      f.title.toList ++ '(' :: (listed ts ++ ')' :: rest) := by
    simp [kindText]
  rw [front]
  have skip := alternatives_of_name expr (r ++ '(' :: (listed ts ++ ')' :: rest)) start notIf
  simp only [spelled, List.cons_append] at read ⊢
  rw [skip, firstOf_of_some _ read]

theorem read_path (absolute : Bool) {ts : List (List Char)} {ss : List Step}
    (h : List.Forall₂ (StepReads expr) ts ss) (moves : absolute = true ∨ ts ≠ [])
    {rest : List Char} (follows : Follows rest) :
    ∃ r, firstOf (alternatives expr)
        ((if absolute then ['/'] else []) ++ (['/'].intercalate ts ++ rest)) =
          some (.path absolute ss, r) ∧
      skipSpace r = skipSpace rest := by
  obtain ⟨r, read, done⟩ := locationPath_append absolute h moves follows
  refine ⟨r, ?_, done⟩
  cases absolute with
  | true =>
    simp only [if_true, List.cons_append, List.nil_append] at read ⊢
    rw [alternatives, firstOf_of_none _ rfl, firstOf_of_none _ rfl, firstOf_of_none _ rfl,
      firstOf_of_none _ rfl, firstOf_of_none _ rfl, firstOf_of_none _ rfl, firstOf_of_some _ read]
  | false =>
    cases h with
    | nil => simp at moves
    | @cons t u ts ss one others =>
      obtain ⟨c, word, rfl, start, notIf⟩ := one.starts
      have noCall := one.noCall (continued ['/'] ts ++ rest)
      simp only [Bool.false_eq_true, if_false, List.nil_append, intercalate_cons,
        List.append_assoc, List.cons_append] at read noCall ⊢
      rw [alternatives_of_name _ _ start notIf, firstOf_of_none _ noCall, firstOf_of_some _ read]

/-- A word between blanks. -/
theorem spaced_keyword {w : List Char} (r : List Char) (hw : Solid w) :
    spaced (keyword w) (w ++ ' ' :: r) = some ((), skipSpace r) := by
  rw [spaced, skipSpace_solid hw, keyword_append w (by rintro _ ⟨⟩; decide)]
  rfl

theorem read_conditional {t y n : List Char} {et ey : Expr} {en : Bool → Expr}
    (test : Delimited expr t et) (yes : Delimited expr y ey) (no : Whole expr n en)
    {rest : List Char} (ends : Ends rest) :
    firstOf (alternatives expr) (conditionalText t y n ++ rest) =
      some (.conditional et ey (en rest.isEmpty), skipSpace rest) := by
  have noRead : after (spaced (keyword "else".toList)) expr
      (['e', 'l', 's', 'e'] ++ ' ' :: (n ++ rest)) = some (en rest.isEmpty, skipSpace rest) := by
    refine (after_of_some (spaced_keyword _ ⟨⟨_, rfl, by decide⟩, ⟨_, rfl, by decide⟩⟩)).trans ?_
    rw [skipSpace_solid no.solid]
    exact no.reads rest ends
  have yesRead : after (spaced (keyword "then".toList)) expr
      (['t', 'h', 'e', 'n'] ++ ' ' :: (y ++ ([' ', 'e', 'l', 's', 'e', ' '] ++ (n ++ rest)))) =
        some (ey, ['e', 'l', 's', 'e'] ++ ' ' :: (n ++ rest)) := by
    refine (after_of_some (spaced_keyword _ ⟨⟨_, rfl, by decide⟩, ⟨_, rfl, by decide⟩⟩)).trans ?_
    rw [skipSpace_solid yes.solid]
    exact yes.reads _ (.else _) (by simp)
  have testRead (s : List Char) : before (after (spaced (char '(')) expr) (spaced (char ')'))
      ([' ', '('] ++ (t ++ ([')', ' ', 't'] ++ s))) = some (et, 't' :: s) := by
    have opened : spaced (char '(') ([' ', '('] ++ (t ++ ([')', ' ', 't'] ++ s))) =
        some ((), t ++ ([')', ' ', 't'] ++ s)) :=
      (spaced_char (c := '(') _ (by decide)).trans
        (congrArg (fun s => some ((), s)) (skipSpace_solid test.solid _))
    exact before_of_some ((after_of_some opened).trans
      (test.reads _ (.closer _ (by decide)) (by simp))) rfl
  have word (s : List Char) : keyword ['i', 'f'] (['i', 'f'] ++ ([' ', '('] ++ s)) =
      some ((), [' ', '('] ++ s) :=
    keyword_append _ (by rintro _ ⟨⟩; decide)
  have read := map_of_some (fun p : Expr × Expr × Expr => Expr.conditional p.1 p.2.1 p.2.2)
    (seq_of_some ((after_of_some (word _)).trans (testRead _)) (seq_of_some yesRead noRead))
  have front : conditionalText t y n ++ rest = ['i', 'f'] ++ ([' ', '('] ++ (t ++
      ([')', ' ', 't', 'h', 'e', 'n', ' '] ++ (y ++ ([' ', 'e', 'l', 's', 'e', ' '] ++
        (n ++ rest)))))) := by
    simp [conditionalText]
  rw [front]
  exact firstOf_of_some _ read

end Alternatives

end StreamTransform.Path
