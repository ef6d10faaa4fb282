import StreamTransform.Path.Fault

/-!
# Signatures of functions

The functions that expressions may call, with the numbers of arguments they
take. An unknown name is reported before any argument is counted.
-/

namespace StreamTransform.Path

inductive Function where
  | position | level | hasChildNodes | getNode
  | name | localName | namespaceUri | qualifier
  | not | true | false | boolean
  | number | string
  | concat | stringLength | normalizeSpace | contains | startsWith | endsWith
  | substring | substringBefore | substringAfter | translate | upperCase | lowerCase | stringJoin
  | count | empty | exists | sum | min | max | avg | floor | ceiling | round
  deriving Repr, DecidableEq

namespace Function

def all : List Function :=
  [position, level, hasChildNodes, getNode, name, localName, namespaceUri, qualifier, not, true,
    false, boolean, number, string, concat, stringLength, normalizeSpace, contains, startsWith,
    endsWith, substring, substringBefore, substringAfter, translate, upperCase, lowerCase,
    stringJoin, count, empty, «exists», sum, min, max, avg, floor, ceiling, round]

/-- The name that expressions call a function by. -/
def title : Function → String
  | position => "position" | level => "level"
  | hasChildNodes => "has-child-nodes" | getNode => "get-node"
  | name => "name" | localName => "local-name"
  | namespaceUri => "namespace-uri" | qualifier => "prefix"
  | not => "not" | true => "true" | false => "false" | boolean => "boolean"
  | number => "number" | string => "string"
  | concat => "concat" | stringLength => "string-length"
  | normalizeSpace => "normalize-space" | contains => "contains"
  | startsWith => "starts-with" | endsWith => "ends-with"
  | substring => "substring" | substringBefore => "substring-before"
  | substringAfter => "substring-after" | translate => "translate"
  | upperCase => "upper-case" | lowerCase => "lower-case" | stringJoin => "string-join"
  | count => "count" | empty => "empty" | «exists» => "exists"
  | sum => "sum" | min => "min" | max => "max" | avg => "avg"
  | floor => "floor" | ceiling => "ceiling" | round => "round"

def named? (s : String) : Option Function := all.find? (·.title == s)

def arity : Function → Arity
  | position | level | hasChildNodes | getNode | true | false => ⟨0, some 0⟩
  | name | localName | namespaceUri | qualifier | number | string | stringLength
  | normalizeSpace => ⟨0, some 1⟩
  | not | boolean | upperCase | lowerCase | count | empty | «exists» | sum | min | max | avg | floor
  | ceiling | round => ⟨1, some 1⟩
  | contains | startsWith | endsWith | substringBefore | substringAfter | stringJoin => ⟨2, some 2⟩
  | substring => ⟨2, some 3⟩
  | translate => ⟨3, some 3⟩
  | concat => ⟨1, none⟩

/-- The function that a call means, if it takes that many arguments. -/
def resolve (called : String) (arguments : Nat) : Except Fault Function :=
  match named? called with
  | none => .error (.unknownFunction called)
  | some f =>
    if f.arity.admits arguments then .ok f
    else .error (.argumentCount called f.arity arguments)

end Function

end StreamTransform.Path
