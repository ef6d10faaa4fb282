import StreamTransform.Text.Letter
import StreamTransform.Text.Search

/-!
# Names

A qualified name keeps the qualifier it was written with, but is compared by
namespace and local part only. An absent namespace and the empty one are the
same namespace.
-/

namespace StreamTransform

def isNameStart (c : Char) : Bool := Text.isAlphabetic c || c == '_'

def isNameChar (c : Char) : Bool :=
  Text.isAlphanumeric c || c == '_' || c == '-' || c == '.'

/-- A name without a colon. -/
def isNCName (s : String) : Bool :=
  match s.toList with
  | [] => false
  | c :: r => isNameStart c && r.all isNameChar

/-- The part before the first colon, if there is one, and the part after it. -/
def splitName (lexical : String) : Option String × String :=
  match Text.splitAtFirst [':'] lexical.toList with
  | some (q, l) => (some (String.ofList q), String.ofList l)
  | none => (none, lexical)

/-- The namespace that the qualifier `xml` always stands for. -/
def xmlNamespace : String := "http://www.w3.org/XML/1998/namespace"

structure QName where
  /-- The part before the colon, as it was written. -/
  qualifier : Option String
  localName : String
  namespaceUri : Option String
  deriving Repr, DecidableEq, Inhabited

namespace QName

/-- A name in no namespace. -/
def simple (localName : String) : QName := ⟨none, localName, none⟩

def uri (n : QName) : String := n.namespaceUri.getD ""

/-- The same namespace and local part, whatever the qualifiers. -/
def same (a b : QName) : Bool := a.uri == b.uri && a.localName == b.localName

/-- The name as it is written in markup. -/
def display (n : QName) : String :=
  match n.qualifier with
  | some q => if q.isEmpty then n.localName else q ++ ":" ++ n.localName
  | none => n.localName

end QName

structure Attribute where
  name : QName
  value : String
  deriving Repr, DecidableEq

end StreamTransform
