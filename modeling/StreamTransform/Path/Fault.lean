import StreamTransform.Path.Syntax
import StreamTransform.Text.Quoted

/-!
# Faults of paths

What can be wrong with the text of an expression and with its evaluation. Each
constructor is one cause; the wording is in `message` alone.
-/

namespace StreamTransform.Path

/-- The numbers of arguments that a function takes; no upper bound is unbounded. -/
structure Arity where
  least : Nat
  most : Option Nat
  deriving Repr, DecidableEq

def Arity.admits (a : Arity) (count : Nat) : Bool :=
  a.least ≤ count && a.most.all (count ≤ ·)

def Arity.text (a : Arity) : String :=
  match a.most with
  | some m => if m = a.least then s!"{m}" else s!"{a.least} to {m}"
  | none => s!"at least {a.least}"

inductive Fault where
  /-- The text continues after a complete expression or pattern. -/
  | leftover (input rest : String)
  /-- Nothing that an expression or pattern starts with stands at `rest`. -/
  | noStart (input rest : String)
  | unterminatedPart (input : String)
  | unmatchedBrace (input : String)
  | attributeNotLast (input : String)
  | unknownFunction (name : String)
  | argumentCount (function : String) (expected : Arity) (got : Nat)
  | notANode (function : String)
  | notArithmetic (op : BinaryOperator)
  | unknownVariable (name : String)
  | unknownQualifier (qualifier : String)
  | noContextNode
  deriving Repr, DecidableEq

namespace Fault

def parseMessage (input cause : String) : String :=
  s!"Parse error in '{input}': {cause}"

def message : Fault → String
  | leftover input rest =>
    parseMessage input s!"Parser did not consume all input. Remainder: '{rest}'"
  | noStart input rest =>
    parseMessage input
      ("Parsing Error: Error \x7b input: " ++ Text.quoted rest ++ ", code: Satisfy \x7d")
  | unterminatedPart input =>
    parseMessage input "Unterminated '\x7b' in attribute value template"
  | unmatchedBrace input => parseMessage input "Unmatched '\x7d' in attribute value template"
  | attributeNotLast input =>
    parseMessage input "An attribute step must be the last step of a pattern"
  | unknownFunction name => s!"Unknown function '{name}'"
  | argumentCount function expected got =>
    s!"Function '{function}' error: Expected {expected.text} arguments, got {got}"
  | notANode function =>
    s!"Type error: The parameter passed to the `{function}' function was not a node"
  | notArithmetic op => s!"Type error: {op.title} is not an arithmetic operator"
  | unknownVariable name => s!"Variable '${name}' not declared"
  | unknownQualifier qualifier => s!"Namespace prefix '{qualifier}' not declared"
  | noContextNode => "Context node required"

end Fault

end StreamTransform.Path
