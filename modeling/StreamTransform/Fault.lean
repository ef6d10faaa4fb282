import StreamTransform.Path.Fault
import StreamTransform.Decimal.Numeral
import StreamTransform.Walk

/-!
# Faults of programs and transformations

One constructor per cause, with the wording in `message` alone. Sinks,
resolvers and listeners are foreign, so what they refuse comes with a kind and
a text of their own.
-/

namespace StreamTransform

/-- A place in the text that a program was built from; line 0 is unknown. -/
structure Location where
  line : Nat
  column : Nat
  deriving Repr, DecidableEq, Inhabited

namespace Location

def unknown : Location := ⟨0, 0⟩

def isKnown (l : Location) : Bool := l.line > 0

def text (l : Location) : String := s!"{l.line}:{l.column}"

end Location

/-- What can be wrong with one declaration or instruction of a program. -/
inductive Defect where
  | path (fault : Path.Fault)
  | duplicateProcedure (name : String)
  | duplicateGroup (name : String)
  | duplicateGroupVariable (name : String)
  | duplicateVariable (name : String)
  | unboundQualifier (qualifier : String)
  deriving Repr, DecidableEq

def Defect.message : Defect → String
  | path f => f.message
  | duplicateProcedure n => s!"Procedure `{n}' already defined in this group"
  | duplicateGroup n => s!"Group `{n}' already defined"
  | duplicateGroupVariable n => s!"Variable `{n}' already declared in this group"
  | duplicateVariable n => s!"Variable `{n}' already declared"
  | unboundQualifier q => s!"Namespace prefix '{q}' not declared"

/-- A defect and where it was met. -/
structure Problem where
  location : Location
  defect : Defect
  deriving Repr, DecidableEq

def Problem.message (p : Problem) : String :=
  if p.location.isKnown then p.location.text ++ ": " ++ p.defect.message else p.defect.message

inductive FaultKind where
  | definition | evaluation | resource | input | output | malformed | recursionLimit | terminated
  deriving Repr, DecidableEq

inductive Fault where
  -- the program
  | defective (problems : List Problem)
  | ambiguous (priority : Float) (chosen other : String)
  | nestedUse (construct : String)
  | noGroupFrame (name : String)
  | assignsUndeclared (name : String)
  | walkInDeclaration (walk : Walk)
  | secondWalk (walk previous : Walk)
  | noProcedure (name : String)
  | noGroup (name : String)
  | noValue (parameter : String)
  | invalidName (lexical : String)
  | undeclaredQualifier (qualifier : String)
  | invalidTarget (target : String)
  -- evaluation
  | evaluation (fault : Path.Fault)
  -- documents that cannot be had
  | noResolver (href : String)
  -- the order of input events
  | alreadyStarted | notStarted | alreadyEnded | aborted
  | inputUnclosed (name : QName)
  | inputMismatch (found opened : QName)
  | inputUnopened (name : QName)
  | outsideDocument
  | unbalancedNode
  | noCurrentNode
  | noNodeAt (depth : Nat)
  -- the output
  | rejected (what context : String)
  | outputUnclosed (name : QName)
  | outputMismatch (found opened : QName)
  | outputUnopened (name : QName)
  | noPendingTag (name : QName)
  | notACapture
  | unbalancedScopes
  | noSink
  -- the text of the input
  | malformedInput
  | unknownEntity (name : String)
  -- ends of a run
  | recursionLimit (limit : Nat)
  | terminated (text : String)
  /-- Raised by a sink, resolver or listener. -/
  | foreign (kind : FaultKind) (text : String)
  deriving Repr

namespace Fault

def kind : Fault → FaultKind
  | defective _ | ambiguous .. | nestedUse _ | noGroupFrame _ | assignsUndeclared _
  | walkInDeclaration _ | secondWalk .. | noProcedure _ | noGroup _ | noValue _ | invalidName _
  | undeclaredQualifier _ | invalidTarget _ => .definition
  | evaluation _ => .evaluation
  | noResolver _ => .resource
  | alreadyStarted | notStarted | alreadyEnded | aborted | inputUnclosed _ | inputMismatch ..
  | inputUnopened _ | outsideDocument | unbalancedNode | noCurrentNode | noNodeAt _ => .input
  | rejected .. | outputUnclosed _ | outputMismatch .. | outputUnopened _ | noPendingTag _
  | notACapture | unbalancedScopes | noSink => .output
  | malformedInput | unknownEntity _ => .malformed
  | recursionLimit _ => .recursionLimit
  | terminated _ => .terminated
  | foreign k _ => k

/-- What is said after the label of the kind. -/
def detail : Fault → String
  | defective ps => "; ".intercalate (ps.map Problem.message)
  | ambiguous priority chosen other =>
    s!"Ambiguous template rule with priority {Decimal.display priority}: `{chosen}' and `{other}' both match; using `{chosen}'"
  | nestedUse construct => s!"Nested use of the same {construct} is not allowed"
  | noGroupFrame n => s!"Group variable `{n}' declared outside of a group frame"
  | assignsUndeclared n => s!"Can't assign to undeclared variable `{n}'"
  | walkInDeclaration w => s!"`{w.title}' is not allowed in a group variable declaration"
  | secondWalk w previous => s!"Encountered `{w.title}' after `{previous.title}'"
  | noProcedure n => s!"Procedure `{n}' not defined"
  | noGroup n => s!"Group `{n}' not defined"
  | noValue n => s!"Missing value for required parameter `{n}'"
  | invalidName lexical => s!"`{lexical}' is not a valid name"
  | undeclaredQualifier q => s!"Undeclared namespace prefix `{q}'"
  | invalidTarget t => s!"`{t}' is not a valid processing instruction target"
  | evaluation f => f.message
  | noResolver href => s!"No output resolver to create `{href}'"
  | alreadyStarted => "Document already started"
  | notStarted => "Document not started"
  | alreadyEnded => "Document already ended"
  | aborted => "Transformation was aborted"
  | inputUnclosed n => s!"Element `{n.display}' was never closed"
  | inputMismatch found opened =>
    s!"End tag `{found.display}' does not match start tag `{opened.display}'"
  | inputUnopened n => s!"End tag `{n.display}' without start tag"
  | outsideDocument => "Content outside of the document"
  | unbalancedNode => "Unbalanced end of node"
  | noCurrentNode => "No current node"
  | noNodeAt d => s!"No node at depth {d}"
  | rejected what context => s!"Can't create {what} here ({context})"
  | outputUnclosed n => s!"Element `{n.display}' was never closed"
  | outputMismatch found opened =>
    s!"Attempt to close `{found.display}' while `{opened.display}' is open"
  | outputUnopened n => s!"Attempt to close `{n.display}' but no element is open"
  | noPendingTag n => s!"Can't create attribute `{n.display}' here: no pending start tag"
  | notACapture => "Output redirection closed as a capture"
  | unbalancedScopes => "Unbalanced output scopes"
  | noSink => "No output sink"
  | malformedInput => "Malformed markup"
  | unknownEntity n => s!"Unknown entity `&{n};'"
  | recursionLimit n => s!"Recursion limit of {n} nested calls exceeded"
  | terminated t => s!"Transformation terminated by message: {t}"
  | foreign _ t => t

/-- The label of a kind; three kinds speak for themselves. -/
def label : FaultKind → String
  | .definition => "Definition error: "
  | .evaluation => "Evaluation error: "
  | .resource => "Resource error: "
  | .input => "Input error: "
  | .output => "Output error: "
  | .malformed | .recursionLimit | .terminated => ""

def message (f : Fault) : String := label f.kind ++ f.detail

end Fault

end StreamTransform
