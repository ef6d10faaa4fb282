import StreamTransform.Script
import StreamTransform.Path.Embedding

/-!
# Resolution of texts

Reads the texts of commands in order. A problem is noted with the location in
force and does not stop the reading: what cannot be read counts as an empty
sequence, an empty text, a missing pattern or a name without namespace.
-/

namespace StreamTransform.Script

/-- What is in force at a point of the script, and the problems so far, the latest first. -/
structure Reading where
  location : Location := .unknown
  namespaces : Namespaces := []
  problems : List Problem := []

abbrev Resolve := StateM Reading

namespace Resolve

def problem (d : Defect) : Resolve Unit :=
  modify fun r => { r with problems := ⟨r.location, d⟩ :: r.problems }

def locate (l : Location) : Resolve Unit := modify fun r => { r with location := l }

def location : Resolve Location := do pure (← get).location

def namespaces : Resolve Namespaces := do pure (← get).namespaces

/-- The result of a reading, or a stand-in after noting the problem. -/
def orElse {α : Type} (fallback : α) : Except Path.Fault α → Resolve α
  | .ok a => pure a
  | .error f => do
    problem (.path f)
    pure fallback

def expression (source : String) : Resolve Path.Expr := do
  orElse (.sequence []) (Path.parseExpr (← namespaces) source)

def textTemplate (source : String) : Resolve Path.TextTemplate := do
  orElse (.fixed "") (Path.parseTemplate (← namespaces) source)

def pattern (source : String) : Resolve (Option Path.Pattern) := do
  orElse none ((Path.parsePattern (← namespaces) source).map some)

def optional {α β : Type} (read : α → Resolve β) : Option α → Resolve (Option β)
  | none => pure none
  | some a => do pure (some (← read a))

/-- A name that is written out. -/
def name (lexical : String) : Resolve QName := do
  match splitName lexical with
  | (none, l) => pure (QName.simple l)
  | (some q, l) =>
    match (← namespaces).lookup q with
    | some uri => pure ⟨some q, l, some uri⟩
    | none =>
      problem (.unboundQualifier q)
      pure (QName.simple l)

def nameTemplate (lexical : String) (uri : Option String) : Resolve NameTemplate := do
  let lexical ← textTemplate lexical
  let uri ← optional textTemplate uri
  pure ⟨lexical, uri, ← namespaces⟩

def delegation (d : Delegation) : Resolve StreamTransform.Delegation := do
  let arguments ← d.arguments.mapM fun p => do pure (p.1, ← expression p.2)
  pure ⟨d.group, arguments⟩

/-- Declares a name among those of the same content. -/
def declare (declared : List String) (name : String) : Resolve (List String) := do
  if declared.contains name then
    problem (.duplicateVariable name)
    pure declared
  else pure (name :: declared)

end Resolve

end StreamTransform.Script
