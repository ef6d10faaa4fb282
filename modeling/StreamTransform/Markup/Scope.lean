import StreamTransform.Name
import StreamTransform.Markup.Tag

/-!
# Namespaces in markup

Declarations bind qualifiers for an element and all it contains. An empty
namespace takes a binding away. The qualifiers `xml` and `xmlns` have fixed
meanings, and no other qualifier may be bound to their namespaces. The default
namespace applies to elements only.
-/

namespace StreamTransform.Markup

/-- The namespace of the qualifier that namespace declarations have. -/
def xmlnsNamespace : String := "http://www.w3.org/2000/xmlns/"

/-- The bindings in force, the innermost first; the default namespace has the empty qualifier. -/
abbrev Scope := List (String × String)

/-- The qualifier that an attribute declares, the empty one for the default namespace. -/
def declared? (key : List Char) : Option String :=
  if "xmlns".toList.isPrefixOf key then
    match key.drop 5 with
    | [] => some ""
    | ':' :: r => some (String.ofList r)
    | _ => none
  else none

/-- Adds one declaration, if it is allowed. -/
def Scope.declare (s : Scope) (qualifier uri : String) (isDefault : Bool) : Option Scope :=
  if isDefault then some ((qualifier, uri) :: s)
  else if qualifier == "xml" then if uri == xmlNamespace then some s else none
  else if qualifier == "xmlns" || uri == xmlNamespace || uri == xmlnsNamespace then none
  else some ((qualifier, uri) :: s)

/-- Adds the declarations among the attributes of a tag, if all are allowed. -/
def Scope.extend (s : Scope) : List RawAttribute → Option Scope
  | [] => some s
  | a :: r =>
    match declared? a.key with
    | none => s.extend r
    | some q =>
      match s.declare q (String.ofList a.value) (a.key.length == 5) with
      | some s => s.extend r
      | none => none

/-- The namespace bound to a qualifier. -/
def Scope.find? (s : Scope) (qualifier : String) : Option String :=
  if qualifier == "xml" then some xmlNamespace
  else if qualifier == "xmlns" then some xmlnsNamespace
  else
    match s.lookup qualifier with
    | some uri => if uri.isEmpty then none else some uri
    | none => none

/-- The name that a spelling stands for; `isElement` says that the default namespace applies. -/
def Scope.resolve (s : Scope) (isElement : Bool) (raw : List Char) : QName :=
  match splitName (String.ofList raw) with
  | (some q, l) => ⟨some q, l, if q.isEmpty then none else s.find? q⟩
  | (none, l) => ⟨none, l, if isElement then s.find? "" else none⟩

end StreamTransform.Markup
