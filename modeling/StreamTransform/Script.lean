import StreamTransform.Fault
import StreamTransform.Program

/-!
# Programs as written

Declarations in order, with expressions, patterns, names and templates as
texts. A location holds for what follows it up to the next one; so does a
namespace, also beyond the end of a group.
-/

namespace StreamTransform.Script

/-- What is handed over by a walk or a call. The patterns count for following siblings only. -/
structure Delegation where
  group : Option String := none
  arguments : List (String × String) := []
  whilst : Option String := none
  till : Option String := none

mutual

inductive Command where
  | locate (location : Location)
  | process (walk : Walk) (delegation : Delegation)
  | call (procedure : String) (delegation : Delegation)
  | literal (name : String) (attributes : List (String × String)) (content : List Command)
  | element (name : String) (uri : Option String) (content : List Command)
  | startElement (name : String)
  | endElement (name : String)
  | attr (name select : String)
  | attrContent (name : String) (content : List Command)
  | text (text : String)
  | valueOf (select separator : String)
  | copy (attributes : Bool) (content : List Command)
  | comment (content : List Command)
  | processingInstruction (target : String) (content : List Command)
  | cdata (content : List Command)
  | document (href : String) (content : List Command)
  | message (select : String)
  | messageContent (terminate : Bool) (content : List Command)
  | variable (name select : String)
  | variableContent (name : String) (content : List Command)
  | parameter (name select : String)
  | parameterContent (name : String) (content : List Command)
  | required (name : String)
  | assign (name select : String)
  | assignContent (name : String) (content : List Command)
  | condition (test : String) (yes : List Command)
  | either (test : String) (yes no : List Command)
  | choose (branches : List Branch)
  | loop (test : String) (content : List Command)
  | each (name select : String) (content : List Command)

inductive Branch where
  | when (test : String) (content : List Command)
  | otherwise (content : List Command)

end

/-- The options of a template; without a priority its pattern decides. -/
structure TemplateOptions where
  priority : Option Float := none
  visibility : Visibility := .group
  recursionEntry : Bool := false

inductive Declaration where
  | locate (location : Location)
  | bind (qualifier uri : String)
  | template (pattern : String) (options : TemplateOptions) (content : List Command)
  | procedure (name : String) (visibility : Visibility) (content : List Command)
  | group (name : String) (members : List Declaration)
  | variable (name select : String)
  | parameter (name : String) (select : Option String)
  | required (name : String)

end StreamTransform.Script
