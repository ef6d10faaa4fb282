import StreamTransform.Fault
import StreamTransform.Path.Binding

/-!
# Names computed at run time

A name that an instruction computes has to be a valid name, with at most one
qualifier. An explicit namespace wins over those in scope, and an empty one
means no namespace.
-/

namespace StreamTransform

/-- The namespace of a qualifier, or of its absence. -/
def namespaceFor (ns : Namespaces) : Option String → Except Fault (Option String)
  | none => .ok none
  | some q =>
    match ns.lookup q with
    | some uri => .ok (some uri)
    | none => .error (.undeclaredQualifier q)

/-- The name that a text and an explicit namespace, if there is one, stand for. -/
def computedName (lexical : String) (uri : Option String) (ns : Namespaces) :
    Except Fault QName := do
  let (qualifier, localName) := splitName lexical
  if !isNCName localName || qualifier.any (!isNCName ·) then
    .error (.invalidName lexical)
  else
    match uri with
    | some uri => .ok ⟨qualifier, localName, if uri.isEmpty then none else some uri⟩
    | none => do .ok ⟨qualifier, localName, ← namespaceFor ns qualifier⟩

end StreamTransform
