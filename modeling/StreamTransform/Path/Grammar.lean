import StreamTransform.Path.Reader
import StreamTransform.Path.Syntax
import StreamTransform.Path.Fault
import StreamTransform.Decimal.Numeral

/-!
# Grammar of expressions and patterns

Precedence from low to high: `or`; `and`; equality; order; addition;
multiplication; unary minus. Binary operators associate to the left. Readers of
one level take the reader of whole expressions as an argument; `expression`
ties the knot by nesting depth, which the length of the text bounds. Namespaces
of name tests are left open here.
-/

namespace StreamTransform.Path

open Reader

/-! ## Operators -/

def orSign : Reader BinaryOperator := map (fun _ => .or) (keyword ['o', 'r'])

def andSign : Reader BinaryOperator := map (fun _ => .and) (keyword ['a', 'n', 'd'])

def equalitySign : Reader BinaryOperator :=
  firstOf [map (fun _ => .equal) (literally ['=']), map (fun _ => .notEqual) (literally ['!', '='])]

def orderSign : Reader BinaryOperator :=
  firstOf [map (fun _ => .lessOrEqual) (literally ['<', '=']),
    map (fun _ => .greaterOrEqual) (literally ['>', '=']),
    map (fun _ => .less) (literally ['<']),
    map (fun _ => .greater) (literally ['>'])]

def additiveSign : Reader BinaryOperator :=
  firstOf [map (fun _ => .plus) (char '+'), map (fun _ => .minus) (char '-')]

def multiplicativeSign : Reader BinaryOperator :=
  firstOf [map (fun _ => .times) (char '*'),
    map (fun _ => .divide) (keyword ['d', 'i', 'v']),
    map (fun _ => .modulo) (keyword ['m', 'o', 'd'])]

/-- Operands joined by operators of one precedence. -/
def chain (sign : Reader BinaryOperator) (operand : Reader Expr) : Reader Expr := fun s =>
  match operand s with
  | some (first, r) =>
    let rest := many (seq (spaced sign) operand) r
    some (rest.1.foldl (fun left p => .binary p.1 left p.2) first, rest.2)
  | none => none

/-- Any number of signs before an operand. -/
def unary (operand : Reader Expr) (s : List Char) : Option (Expr × List Char) :=
  match spaced (char '-') s with
  | some ((), r) =>
    if r.length < s.length then
      match unary operand r with
      | some (e, r') => some (.negate e, r')
      | none => operand s
    else operand s
  | none => operand s
termination_by s.length

section
variable {sign : Reader BinaryOperator} {operand : Reader Expr} {s r : List Char} {e : Expr}

theorem exists_of_chain (h : chain sign operand s = some (e, r)) :
    ∃ first r', operand s = some (first, r') ∧
      e = (many (seq (spaced sign) operand) r').1.foldl (fun l p => .binary p.1 l p.2) first ∧
      r = (many (seq (spaced sign) operand) r').2 := by
  unfold chain at h
  split at h
  · rename_i first r' hfirst
    cases h
    exact ⟨first, r', hfirst, rfl, rfl⟩
  · cases h

/-- What holds of an operand, and with one more sign in front, holds whatever the signs are. -/
theorem unary_induction {P : List Char → Expr → List Char → Prop}
    (plain : ∀ s e r, operand s = some (e, r) → P s e r)
    (minus : ∀ s r e r', spaced (char '-') s = some ((), r) → P r e r' → P s (.negate e) r') :
    ∀ s e r, unary operand s = some (e, r) → P s e r := by
  intro s
  induction s using unary.induct operand with
  | case1 s r hsign hshorter e r' hread ih =>
    intro _ _ h
    rw [unary, hsign] at h
    simp only [hshorter, if_true, hread] at h
    cases h
    exact minus s r e _ hsign (ih e _ hread)
  | case2 s r hsign hshorter hread =>
    intro e u h
    rw [unary, hsign] at h
    simp only [hshorter, if_true, hread] at h
    exact plain s e u h
  | case3 s r hsign hshorter =>
    intro e u h
    rw [unary, hsign] at h
    simp only [hshorter, if_false] at h
    exact plain s e u h
  | case4 s hsign =>
    intro e u h
    rw [unary, hsign] at h
    exact plain s e u h

end

/-! ## Literals -/

/-- The digits of a fraction after whole digits. A fraction that the text ends with is read but
does not count. -/
def countedPlaces (places rest : List Char) : List Char := if rest.isEmpty then [] else places

/-- Digits with an optional point and fraction, or a point and digits. -/
def numeral : Reader Float := fun s =>
  let whole := s.takeWhile Text.isAsciiDigit
  let lexeme : Option (List Char × List Char) :=
    match whole.isEmpty, s.dropWhile Text.isAsciiDigit with
    | true, '.' :: r =>
      let places := r.takeWhile Text.isAsciiDigit
      if places.isEmpty then none else some ('.' :: places, r.dropWhile Text.isAsciiDigit)
    | true, _ => none
    | false, '.' :: r =>
      let rest := r.dropWhile Text.isAsciiDigit
      some (whole ++ '.' :: countedPlaces (r.takeWhile Text.isAsciiDigit) rest, rest)
    | false, r => some (whole, r)
  match lexeme with
  | some (l, r) => some ((Decimal.unsigned? l).getD Decimal.nan, r)
  | none => none

/-- Text between two equal quotes, without escapes. -/
def quotedBy (quote : Char) : Reader String
  | c :: r =>
    if c = quote then
      match r.dropWhile (· != quote) with
      | _ :: rest => some (String.ofList (r.takeWhile (· != quote)), rest)
      | [] => none
    else none
  | [] => none

def stringLiteral : Reader String := firstOf [quotedBy '"', quotedBy (Char.ofNat 39)]

/-! ## Node tests and steps -/

/-- A word and an empty pair of parentheses. -/
def kindTest (word : List Char) : Reader Unit :=
  after (literally word) (after (spaced (char '(')) (char ')'))

def instructionTest : Reader NodeTest :=
  map (fun target => .instruction target)
    (after (seq (literally "processing-instruction".toList) (spaced (char '(')))
      (before (optional (spaced stringLiteral)) (char ')')))

def nodeTest : Reader NodeTest :=
  firstOf [map (fun _ => .node) (kindTest "node".toList),
    map (fun _ => .text) (kindTest "text".toList),
    map (fun _ => .comment) (kindTest "comment".toList),
    instructionTest,
    map (fun l => .anyNamespace (String.ofList l)) (after (literally ['*', ':']) ncName),
    map (fun q => .inNamespace (String.ofList q) "") (before ncName (literally [':', '*'])),
    map (fun _ => .wildcard) (char '*'),
    map (fun n => .name (n.1.map String.ofList) (String.ofList n.2) "") name]

/-- A condition in brackets. -/
def predicate (expr : Reader Expr) : Reader Expr :=
  before (after (spaced (char '[')) expr) (spaced (char ']'))

def predicates (expr : Reader Expr) : Reader (List Expr) := fun s => some (many (predicate expr) s)

def axisName : Reader Axis :=
  before
    (firstOf [map (fun _ => .child) (literally "child".toList),
      map (fun _ => .descendant) (literally "descendant".toList),
      map (fun _ => .attributes) (literally "attribute".toList),
      map (fun _ => .parent) (literally "parent".toList),
      map (fun _ => .self) (literally "self".toList)])
    (literally [':', ':'])

def step (expr : Reader Expr) : Reader Step :=
  firstOf [map (fun _ => .mk .parent .node []) (literally ['.', '.']),
    map (fun _ => .mk .self .node []) (char '.'),
    map (fun p => .mk p.1 p.2.1 p.2.2) (seq axisName (seq nodeTest (predicates expr))),
    map (fun p => .mk .attributes p.1 p.2) (seq (after (char '@') nodeTest) (predicates expr)),
    map (fun p => .mk .child p.1 p.2) (seq nodeTest (predicates expr))]

/-- A slash, or two, which is `true`. -/
def separator : Reader Bool :=
  spaced (firstOf [map (fun _ => true) (literally ['/', '/']), map (fun _ => false) (char '/')])

/-- The steps that a step adds to a path. After a double slash a child step becomes a descendant
step, and any other step comes after a step to all descendants. -/
def stepsAfter (gap : Bool) (s : Step) : List Step :=
  match gap, s with
  | false, s => [s]
  | true, .mk .child test ps => [.mk .descendant test ps]
  | true, s => [.mk .descendant .node [], s]

def relativePath (expr : Reader Expr) : Reader (Step × List Step) := fun s =>
  match step expr s with
  | some (first, r) =>
    let rest := many (seq separator (step expr)) r
    some ((first, rest.1.flatMap fun p => stepsAfter p.1 p.2), rest.2)
  | none => none

def locationPath (expr : Reader Expr) : Reader Expr :=
  firstOf [
    map (fun p => .path true (stepsAfter true p.1 ++ p.2))
      (after (literally ['/', '/']) (relativePath expr)),
    map (fun p => .path true (match p with | some (s, r) => s :: r | none => []))
      (after (char '/') (optional (relativePath expr))),
    map (fun p => .path false (p.1 :: p.2)) (relativePath expr)]

theorem exists_of_relativePath {expr : Reader Expr} {s r : List Char} {p : Step × List Step}
    (h : relativePath expr s = some (p, r)) : ∃ r', step expr s = some (p.1, r') ∧
      p.2 = (many (seq separator (step expr)) r').1.flatMap (fun q => stepsAfter q.1 q.2) ∧
      r = (many (seq separator (step expr)) r').2 := by
  unfold relativePath at h
  split at h
  · rename_i first r' hfirst
    cases h
    exact ⟨r', hfirst, rfl, rfl⟩
  · cases h

/-! ## Expressions -/

/-- One item in parentheses is that item, any other number of them a sequence. -/
def parenthesized (expr : Reader Expr) : Reader Expr :=
  map (fun items => match items with | [e] => e | es => .sequence es)
    (before (after (spaced (char '(')) (separated (spaced (char ',')) expr)) (spaced (char ')')))

/-- Names that are never functions. -/
def reservedNames : List String := ["node", "text", "comment", "processing-instruction", "if"]

def functionCall (expr : Reader Expr) : Reader Expr := fun s =>
  match writtenName s with
  | some (n, r) =>
    if reservedNames.contains n then none
    else
      map (fun args => .call n args)
        (before (after (spaced (char '(')) (separated (spaced (char ',')) expr))
          (spaced (char ')'))) r
  | none => none

theorem exists_of_functionCall {expr : Reader Expr} {s r : List Char} {e : Expr}
    (h : functionCall expr s = some (e, r)) : ∃ n r' args, writtenName s = some (n, r') ∧
      before (after (spaced (char '(')) (separated (spaced (char ',')) expr))
        (spaced (char ')')) r' = some (args, r) ∧ e = .call n args := by
  unfold functionCall at h
  split at h
  · rename_i n r' hname
    split at h
    · cases h
    · obtain ⟨args, hargs, rfl⟩ := exists_of_map h
      exact ⟨n, r', args, hname, hargs, rfl⟩
  · cases h

def conditional (expr : Reader Expr) : Reader Expr :=
  map (fun p => .conditional p.1 p.2.1 p.2.2)
    (seq (after (keyword ['i', 'f'])
        (before (after (spaced (char '(')) expr) (spaced (char ')'))))
      (seq (after (spaced (keyword "then".toList)) expr)
        (after (spaced (keyword "else".toList)) expr)))

def primary (expr : Reader Expr) : Reader Expr :=
  spaced (firstOf [conditional expr,
    map (fun x => .number x) numeral,
    map (fun t => .literal t) stringLiteral,
    map (fun n => .reference n) (after (char '$') writtenName),
    parenthesized expr,
    functionCall expr,
    locationPath expr])

/-- Expressions that nest at most `depth` deep. -/
def expression : Nat → Reader Expr
  | 0 => fun _ => none
  | depth + 1 =>
    chain orSign <| chain andSign <| chain equalitySign <| chain orderSign <|
      chain additiveSign <| chain multiplicativeSign <| unary <| primary <| expression depth

/-! ## Patterns -/

def patternStep (expr : Reader Expr) : Reader PatternStep :=
  map (fun p => ⟨p.2.1, p.1.isSome, false, p.2.2⟩)
    (seq (optional (char '@')) (seq nodeTest (predicates expr)))

def relativePattern (expr : Reader Expr) : Reader (PatternStep × List PatternStep) := fun s =>
  match patternStep expr s with
  | some (first, r) =>
    let rest := many (seq separator (patternStep expr)) r
    some ((first, rest.1.map fun p => { p.2 with afterGap := p.1 }), rest.2)
  | none => none

def pathPattern (expr : Reader Expr) : Reader PathPattern :=
  firstOf [
    map (fun p => ⟨true, { p.1 with afterGap := true } :: p.2⟩)
      (after (literally ['/', '/']) (relativePattern expr)),
    map (fun p => ⟨true, match p with | some (s, r) => s :: r | none => []⟩)
      (after (char '/') (optional (relativePattern expr))),
    map (fun p => ⟨false, p.1 :: p.2⟩) (relativePattern expr)]

def pattern (expr : Reader Expr) : Reader Pattern := fun s =>
  match spaced (pathPattern expr) s with
  | some (first, r) =>
    match many (after (spaced (char '|')) (spaced (pathPattern expr))) r with
    | ([], rest) => some (.single first, rest)
    | (others, rest) => some (.union (first :: others), rest)
  | none => none

/-! ## Whole texts -/

/-- The value of a text that a reader takes as a whole; `start` is where nothing could be read. -/
def readWhole {α : Type} (p : Reader α) (input : String) (text start : List Char) :
    Except Fault α :=
  match p text with
  | some (a, []) => .ok a
  | some (_, rest) => .error (.leftover input (String.ofList rest))
  | none => .error (.noStart input (String.ofList start))

theorem read_of_readWhole {α : Type} {p : Reader α} {input : String} {text start : List Char}
    {a : α} (h : readWhole p input text start = .ok a) : p text = some (a, []) := by
  unfold readWhole at h
  split at h
  · rename_i hread
    cases h
    exact hread
  · cases h
  · cases h

/-- Reads an expression; blanks around it are allowed. -/
def readExpr (input : String) : Except Fault Expr :=
  let text := Text.trim input.toList
  readWhole (expression (text.length + 1)) input text text

/-- Reads a pattern; a lone at sign is not what is missing, but the test after it. -/
def readPattern (input : String) : Except Fault Pattern :=
  let text := Text.trim input.toList
  let start := match text with | '@' :: r => r | s => s
  readWhole (pattern (expression (text.length + 1))) input text start

end StreamTransform.Path
