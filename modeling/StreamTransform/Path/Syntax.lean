import StreamTransform.Event

/-!
# Expressions and patterns

The syntax of paths over the ancestor stack, of the patterns of template rules
and of text with embedded expressions. A name test carries the namespace its
qualifier stands for; the empty namespace is that of an unqualified name.
-/

namespace StreamTransform.Path

inductive BinaryOperator where
  | or | and
  | equal | notEqual
  | less | lessOrEqual | greater | greaterOrEqual
  | plus | minus
  | times | divide | modulo
  deriving Repr, DecidableEq

namespace BinaryOperator

def all : List BinaryOperator :=
  [or, and, equal, notEqual, less, lessOrEqual, greater, greaterOrEqual, plus, minus, times,
    divide, modulo]

/-- The operator as it is written. -/
def sign : BinaryOperator → String
  | or => "or" | and => "and"
  | equal => "=" | notEqual => "!="
  | less => "<" | lessOrEqual => "<=" | greater => ">" | greaterOrEqual => ">="
  | plus => "+" | minus => "-"
  | times => "*" | divide => "div" | modulo => "mod"

/-- The operator as faults name it. -/
def title : BinaryOperator → String
  | or => "Or" | and => "And"
  | equal => "Equals" | notEqual => "NotEquals"
  | less => "LessThan" | lessOrEqual => "LessThanOrEqual"
  | greater => "GreaterThan" | greaterOrEqual => "GreaterThanOrEqual"
  | plus => "Plus" | minus => "Minus"
  | times => "Multiply" | divide => "Divide" | modulo => "Modulo"

def isComparison : BinaryOperator → Bool
  | equal | notEqual | less | lessOrEqual | greater | greaterOrEqual => true
  | _ => false

end BinaryOperator

/-- Movement along the ancestor stack. Child and descendant steps reach open nodes only. -/
inductive Axis where
  | child | descendant | attributes | parent | self
  deriving Repr, DecidableEq

inductive NodeTest where
  | name (qualifier : Option String) (localName uri : String)
  | anyNamespace (localName : String)
  | inNamespace (qualifier uri : String)
  | wildcard
  | text
  | comment
  | instruction (target : Option String)
  | node
  deriving Repr, DecidableEq

mutual

inductive Expr where
  | literal (text : String)
  | number (value : Float)
  | sequence (items : List Expr)
  | reference (name : String)
  | path (absolute : Bool) (steps : List Step)
  | call (name : String) (args : List Expr)
  | binary (op : BinaryOperator) (left right : Expr)
  | negate (operand : Expr)
  | conditional (test yes no : Expr)

inductive Step where
  | mk (axis : Axis) (test : NodeTest) (predicates : List Expr)

end

instance : Inhabited Expr := ⟨.sequence []⟩

structure PatternStep where
  test : NodeTest
  /-- The step is written with an at sign. -/
  isAttribute : Bool
  /-- The separator before the step is a double slash. -/
  afterGap : Bool
  predicates : List Expr

structure PathPattern where
  absolute : Bool
  steps : List PatternStep

/-- One path or a union of several. -/
inductive Pattern where
  | single (path : PathPattern)
  | union (paths : List PathPattern)

/-- A union as its alternatives; a plain path is its only one. -/
def Pattern.alternatives : Pattern → List PathPattern
  | single p => [p]
  | union ps => ps

inductive TemplatePart where
  | fixed (text : String)
  | computed (expr : Expr)

/-- Text with embedded expressions. -/
inductive TextTemplate where
  | fixed (text : String)
  | parts (parts : List TemplatePart)

namespace NodeTest

/-- The group of siblings that a node matched by the test is counted in. -/
def group : NodeTest → SiblingGroup
  | name _ l uri => .named uri l
  | anyNamespace l => .anyNamespace l
  | inNamespace _ uri => .inNamespace uri
  | wildcard => .anyElement
  | text => .text
  | comment => .comment
  | instruction target => .instruction target
  | node => .node

/-- Whether content of the kind that an axis selects by name: attributes on the attribute axis and
elements on all others. -/
def isPrincipal (axis : Axis) (c : Content) : Bool :=
  if axis = .attributes then c.isAttribute else c.isElement

def accepts (test : NodeTest) (c : Content) (axis : Axis) : Bool :=
  match test with
  | name _ l uri => isPrincipal axis c && c.name?.any fun n => n.localName == l && n.uri == uri
  | anyNamespace l => isPrincipal axis c && c.name?.any fun n => n.localName == l
  | inNamespace _ uri => isPrincipal axis c && c.name?.any fun n => n.uri == uri
  | wildcard => isPrincipal axis c
  | text => match c with | .text _ => true | _ => false
  | comment => match c with | .comment _ => true | _ => false
  | instruction target =>
    match c with
    | .instruction t _ => target.all (t == ·)
    | _ => false
  | node =>
    match axis, c with
    | .attributes, .attr .. => true
    | .attributes, _ => false
    | _, .root | _, .attr .. => false
    | _, _ => true

/-- Priority of a rule whose pattern is just this test. -/
def priority : NodeTest → Float
  | name .. | instruction (some _) => 0.0
  | anyNamespace _ | inNamespace .. => -0.25
  | wildcard | text | comment | instruction none | node => -0.5

end NodeTest

/-- A pattern that is more than a bare test ranks above every bare test. -/
def PathPattern.priority (p : PathPattern) : Float :=
  match p.steps with
  | [step] =>
    if !p.absolute && !step.isAttribute && !step.afterGap && step.predicates.isEmpty then
      step.test.priority
    else 0.5
  | _ => 0.5

/-- A union has no priority of its own; its alternatives have. -/
def Pattern.priority : Pattern → Float
  | single p => p.priority
  | union _ => 0.0 / 0.0

end StreamTransform.Path
