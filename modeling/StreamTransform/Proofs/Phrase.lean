import StreamTransform.Path.Binding

/-!
# Phrases

A phrase is an expression together with what its text leaves open: the lexemes
of its numbers, the quotes of its literals, the names behind its qualifiers. It
can be written down in one way only: with explicit axes, with single spaces
around binary operators, and with parentheses only where precedence asks for
them. Counts of items, arguments and steps are part of the types, so every
phrase is one that the grammar can produce.
-/

namespace StreamTransform.Path

/-! ## Words -/

/-- A name without a colon. -/
structure NcName where
  text : String
  legal : isNCName text = true

/-- The name of a variable. -/
inductive LexicalName where
  | plain (name : NcName)
  | qualified (qualifier localName : NcName)

def LexicalName.print : LexicalName → List Char
  | plain n => n.text.toList
  | qualified q l => q.text.toList ++ ':' :: l.text.toList

/-- A qualifier that is bound to a namespace. -/
structure Qualifier (ns : Namespaces) where
  name : NcName
  uri : String
  bound : resolveQualifier ns name.text = .ok uri

/-- Text with a quote that it does not contain. -/
structure Quotable where
  text : String
  quote : Char
  isQuote : quote = '"' ∨ quote = Char.ofNat 39
  free : quote ∉ text.toList

def Quotable.print (t : Quotable) : List Char := t.quote :: (t.text.toList ++ [t.quote])

/-- The lexeme of a number: digits, and perhaps a point and more digits. Digits stand on at least
one side of the point. -/
structure Numeral where
  whole : List Char
  places : Option (List Char)
  wholeDigits : ∀ c ∈ whole, Text.isAsciiDigit c = true
  placeDigits : ∀ ds ∈ places, ∀ c ∈ ds, Text.isAsciiDigit c = true
  someDigit : whole = [] → ∃ c ds, places = some (c :: ds)

namespace Numeral

def print (n : Numeral) : List Char :=
  n.whole ++ match n.places with
    | some ds => '.' :: ds
    | none => []

/-- The part of a numeral that counts. At the end of the whole text a fraction after whole digits
does not. -/
def counted (n : Numeral) (atEnd : Bool) : List Char :=
  if atEnd && !n.whole.isEmpty then n.whole else n.print

def value (n : Numeral) (atEnd : Bool) : Float := Decimal.read (String.ofList (n.counted atEnd))

/-- Whether there are digits on both sides of the point. -/
def isMixed (n : Numeral) : Bool := !n.whole.isEmpty && n.places.any (!·.isEmpty)

end Numeral

/-! ## Node tests -/

inductive TestPhrase (ns : Namespaces) where
  | name (localName : NcName)
  | qualified (qualifier : Qualifier ns) (localName : NcName)
  | anyNamespace (localName : NcName)
  | inNamespace (qualifier : Qualifier ns)
  | wildcard
  | text
  | comment
  | instruction (target : Option Quotable)
  | node

/-- A word with something in parentheses behind it. -/
def kindText (word : String) (argument : List Char) : List Char :=
  word.toList ++ '(' :: (argument ++ [')'])

namespace TestPhrase

variable {ns : Namespaces}

def print : TestPhrase ns → List Char
  | name l => l.text.toList
  | qualified q l => q.name.text.toList ++ ':' :: l.text.toList
  | anyNamespace l => '*' :: ':' :: l.text.toList
  | inNamespace q => q.name.text.toList ++ [':', '*']
  | wildcard => ['*']
  | text => kindText "text" []
  | comment => kindText "comment" []
  | instruction target => kindText "processing-instruction" (target.elim [] Quotable.print)
  | node => kindText "node" []

/-- The node test, given what qualifiers stand for. -/
def test (uri : Qualifier ns → String) : TestPhrase ns → NodeTest
  | name l => .name none l.text ""
  | qualified q l => .name (some q.name.text) l.text (uri q)
  | anyNamespace l => .anyNamespace l.text
  | inNamespace q => .inNamespace q.name.text (uri q)
  | wildcard => .wildcard
  | text => .text
  | comment => .comment
  | instruction target => .instruction (target.map (·.text))
  | node => .node

end TestPhrase

/-- The word before the two colons of a step. -/
def Axis.word : Axis → String
  | child => "child"
  | descendant => "descendant"
  | attributes => "attribute"
  | parent => "parent"
  | self => "self"

/-! ## Expressions -/

/-- Precedence from low to high. -/
def BinaryOperator.precedence : BinaryOperator → Nat
  | or => 1
  | and => 2
  | equal | notEqual => 3
  | less | lessOrEqual | greater | greaterOrEqual => 4
  | plus | minus => 5
  | times | divide | modulo => 6

mutual

inductive Phrase (ns : Namespaces) : Type where
  | literal (text : Quotable)
  | number (lexeme : Numeral)
  | reference (name : LexicalName)
  /-- One item in parentheses is no sequence. -/
  | sequence {n : Nat} (items : Phrases ns n) (notOne : n ≠ 1)
  | call (f : Function) {n : Nat} (args : Phrases ns n) (admitted : f.arity.admits n = true)
  | path (absolute : Bool) {n : Nat} (steps : Trail ns n) (some : absolute = true ∨ n ≠ 0)
  | binary (op : BinaryOperator) (left right : Phrase ns)
  | negate (operand : Phrase ns)
  | conditional (test yes no : Phrase ns)

/-- So many phrases in a row. -/
inductive Phrases (ns : Namespaces) : Nat → Type where
  | nil : Phrases ns 0
  | cons {n : Nat} (first : Phrase ns) (rest : Phrases ns n) : Phrases ns (n + 1)

/-- So many steps in a row. -/
inductive Trail (ns : Namespaces) : Nat → Type where
  | nil : Trail ns 0
  | cons {k n : Nat} (axis : Axis) (test : TestPhrase ns) (predicates : Phrases ns k)
      (rest : Trail ns n) : Trail ns (n + 1)

end

variable {ns : Namespaces}

/-- Unary minus binds more tightly than all binary operators, and a conditional less. -/
def Phrase.precedence : Phrase ns → Nat
  | .conditional .. => 0
  | .binary op .. => op.precedence
  | .negate _ => 7
  | _ => 8

def parenthesize (needed : Bool) (t : List Char) : List Char :=
  if needed then '(' :: (t ++ [')']) else t

def bracket (t : List Char) : List Char := '[' :: (t ++ [']'])

/-- Texts with commas and single spaces between them. -/
def listed (ts : List (List Char)) : List Char := [',', ' '].intercalate ts

def conditionalText (test yes no : List Char) : List Char :=
  ['i', 'f', ' ', '('] ++ (test ++ ([')', ' ', 't', 'h', 'e', 'n', ' '] ++
    (yes ++ ([' ', 'e', 'l', 's', 'e', ' '] ++ no))))

mutual

/-- The text of a phrase. An operand is parenthesized if its operator binds more tightly, and a
right operand also if it binds as tightly. -/
def Phrase.print : Phrase ns → List Char
  | .literal t => t.print
  | .number n => n.print
  | .reference n => '$' :: n.print
  | .sequence items _ => '(' :: (listed items.prints ++ [')'])
  | .call f args _ => kindText f.title (listed args.prints)
  | .path absolute steps _ => (if absolute then ['/'] else []) ++ ['/'].intercalate steps.prints
  | .binary op l r =>
    parenthesize (l.precedence < op.precedence) l.print ++
      ' ' :: (op.sign.toList ++ ' ' :: parenthesize (r.precedence ≤ op.precedence) r.print)
  | .negate e => '-' :: parenthesize (e.precedence < 7) e.print
  | .conditional t y n => conditionalText t.print y.print n.print

def Phrases.prints {n : Nat} : Phrases ns n → List (List Char)
  | .nil => []
  | .cons p ps => p.print :: ps.prints

def Trail.prints {n : Nat} : Trail ns n → List (List Char)
  | .nil => []
  | .cons axis test predicates rest =>
    (axis.word.toList ++ ':' :: ':' :: (test.print ++ (predicates.prints.map bracket).flatten)) ::
      rest.prints

end

mutual

/-- The expression of a phrase, given what qualifiers stand for and whether the text ends with the
phrase. -/
def Phrase.expr (uri : Qualifier ns → String) : Phrase ns → (atEnd : Bool) → Expr
  | .literal t, _ => .literal t.text
  | .number n, atEnd => .number (n.value atEnd)
  | .reference n, _ => .reference (String.ofList n.print)
  | .sequence items _, _ => .sequence (items.exprs uri)
  | .call f args _, _ => .call f.title (args.exprs uri)
  | .path absolute steps _, _ => .path absolute (steps.steps uri)
  | .binary op l r, atEnd =>
    .binary op (l.expr uri false) (r.expr uri (atEnd && op.precedence < r.precedence))
  | .negate e, atEnd => .negate (e.expr uri (atEnd && 7 ≤ e.precedence))
  | .conditional t y n, atEnd =>
    .conditional (t.expr uri false) (y.expr uri false) (n.expr uri atEnd)

def Phrases.exprs (uri : Qualifier ns → String) {n : Nat} : Phrases ns n → List Expr
  | .nil => []
  | .cons p ps => p.expr uri false :: ps.exprs uri

def Trail.steps (uri : Qualifier ns → String) {n : Nat} : Trail ns n → List Step
  | .nil => []
  | .cons axis test predicates rest =>
    .mk axis (test.test uri) (predicates.exprs uri) :: rest.steps uri

end

/-- The expression that a phrase stands for, its qualifiers bound. -/
def Phrase.meaning (p : Phrase ns) : Expr := p.expr Qualifier.uri false

/-- What the text of a phrase is read as when nothing follows it. -/
def Phrase.reading (p : Phrase ns) : Expr := p.expr Qualifier.uri true

/-- Whether the text ends with a numeral that has digits on both sides of its point. -/
def Phrase.endsMixed : Phrase ns → Bool
  | .number n => n.isMixed
  | .binary op _ r => op.precedence < r.precedence && r.endsMixed
  | .negate e => 7 ≤ e.precedence && e.endsMixed
  | .conditional _ _ n => n.endsMixed
  | _ => false

/-! ## Qualifiers left open -/

/-- What a qualifier stands for before it is bound. -/
def Qualifier.pending (_ : Qualifier ns) : String := ""

theorem length_exprs (uri : Qualifier ns → String) :
    ∀ {n : Nat} (ps : Phrases ns n), (ps.exprs uri).length = n
  | _, .nil => rfl
  | _, .cons _ ps => congrArg (· + 1) (length_exprs uri ps)

theorem Function.named_title (f : Function) : Function.named? f.title = some f := by
  cases f <;> decide

theorem bind_test (t : TestPhrase ns) :
    (t.test Qualifier.pending).bind ns = .ok (t.test Qualifier.uri) := by
  cases t with
  | qualified q l => simp [TestPhrase.test, NodeTest.bind, q.bound, bind, Except.bind]
  | inNamespace q => simp [TestPhrase.test, NodeTest.bind, q.bound, bind, Except.bind]
  | _ => rfl

mutual

/-- Binding finds every qualifier and every function of a phrase. -/
theorem bind_phrase : ∀ (p : Phrase ns) (atEnd : Bool),
    (p.expr Qualifier.pending atEnd).bind ns = .ok (p.expr Qualifier.uri atEnd)
  | .literal _, _ | .number _, _ | .reference _, _ => by simp [Phrase.expr, Expr.bind]
  | .sequence items _, _ => by
    simp [Phrase.expr, Expr.bind, bind_phrases items, bind, Except.bind]
  | .call f args admitted, _ => by
    simp [Phrase.expr, Expr.bind, bind_phrases args, bind, Except.bind, Function.resolve,
      f.named_title, length_exprs, admitted]
  | .path _ steps _, _ => by
    simp [Phrase.expr, Expr.bind, bind_trail steps, bind, Except.bind]
  | .binary _ l r, _ => by
    simp [Phrase.expr, Expr.bind, bind_phrase l, bind_phrase r, bind, Except.bind]
  | .negate e, _ => by simp [Phrase.expr, Expr.bind, bind_phrase e, bind, Except.bind]
  | .conditional t y n, _ => by
    simp [Phrase.expr, Expr.bind, bind_phrase t, bind_phrase y, bind_phrase n, bind, Except.bind]

theorem bind_phrases : ∀ {n : Nat} (ps : Phrases ns n),
    bindAll ns (ps.exprs Qualifier.pending) = .ok (ps.exprs Qualifier.uri)
  | _, .nil => rfl
  | _, .cons p ps => by
    simp [Phrases.exprs, bindAll, bind_phrase p, bind_phrases ps, bind, Except.bind]

theorem bind_trail : ∀ {n : Nat} (ts : Trail ns n),
    bindSteps ns (ts.steps Qualifier.pending) = .ok (ts.steps Qualifier.uri)
  | _, .nil => rfl
  | _, .cons _ t ps ts => by
    simp [Trail.steps, bindSteps, bind_test t, bind_phrases ps, bind_trail ts, bind, Except.bind]

end

end StreamTransform.Path
