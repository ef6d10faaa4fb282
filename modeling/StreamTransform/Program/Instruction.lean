import StreamTransform.Path.Binding
import StreamTransform.Walk

/-!
# Instructions

An action stands alone; a container has content. A container can take its value
from an expression; then its content is passed over.
-/

namespace StreamTransform

abbrev NodeId := Nat
abbrev TemplateId := Nat
abbrev ProcedureId := Nat
abbrev GroupId := Nat

/-- Where the value of an instruction comes from: an expression, or the text its content writes. -/
inductive Origin where
  | selected (select : Path.Expr)
  | written

/-- Where a declared variable lives: in the body that runs, or in the frame of a group. -/
inductive Home where
  | body
  | group (id : GroupId)
  deriving Repr, DecidableEq

/-- What is handed over to the templates or the procedure that take control. Without a group they
are looked for in the group of the running body. -/
structure Delegation where
  group : Option String
  arguments : List (String × Path.Expr)

/-- A name computed at run time, and the namespaces in scope where it was written. -/
structure NameTemplate where
  lexical : Path.TextTemplate
  /-- An explicit namespace, which wins over those in scope. -/
  uri : Option Path.TextTemplate
  namespaces : Namespaces

inductive Action where
  | process (walk : Walk) (delegation : Delegation)
  /-- Process the siblings that follow while they match one pattern and until they match another. -/
  | processSiblings (delegation : Delegation) (whilst till : Option Path.Pattern)
  | call (procedure : String) (delegation : Delegation)
  | startElement (name : NameTemplate)
  | endElement (name : NameTemplate)
  | text (text : String)
  | valueOf (select : Path.Expr) (separator : Path.TextTemplate)

inductive Container where
  | literal (name : QName) (attributes : List (QName × Path.TextTemplate))
  | element (name : NameTemplate)
  | attr (name : NameTemplate) (origin : Origin)
  | copy (attributes : Bool)
  | comment
  | processingInstruction (target : Path.TextTemplate)
  | cdata
  | document (href : Path.TextTemplate)
  | message (origin : Origin) (terminate : Bool)
  | variable (name : String) (origin : Origin) (home : Home)
  /-- A parameter without a default has to be passed. -/
  | parameter (name : String) (default : Option Origin) (home : Home)
  | assign (name : String) (origin : Origin)
  | loop (test : Path.Expr)
  | each (name : String) (select : Path.Expr)

end StreamTransform
