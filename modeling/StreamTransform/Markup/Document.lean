import StreamTransform.Input
import StreamTransform.Markup.Scope
import StreamTransform.Markup.Token

/-!
# Documents as input

Reads a document into input events up to the first fault. Text outside of all
elements is passed over; an element left open is not noticed here. A start tag
that ends itself makes a start and an end.
-/

namespace StreamTransform.Markup

/-- An element that is open, with the bindings in force inside of it. -/
structure OpenTag where
  /-- Its name as it is spelled, which its end tag repeats. -/
  raw : List Char
  name : QName
  scope : Scope
  deriving Repr

/-- The bindings in force inside of the innermost open element. -/
def scopeOf (opened : List OpenTag) : Scope :=
  match opened with
  | t :: _ => t.scope
  | [] => []

/-- The attributes that are no declarations, with names and values as they are meant. -/
def attributesIn (s : Scope) : List RawAttribute → Option (List Attribute)
  | [] => some []
  | a :: r =>
    if (declared? a.key).isSome then attributesIn s r
    else
      match unescape? a.value with
      | some v => (attributesIn s r).map (⟨s.resolve false a.key, String.ofList v⟩ :: ·)
      | none => none

/-- The element that a start tag opens, and its attributes. -/
def readTag (outer : Scope) (tag : List Char) : Option (OpenTag × List Attribute) :=
  let raw := tagName tag
  let (attributes, malformed) := rawAttributes (tagRest tag)
  match outer.extend attributes with
  | none => none
  | some s =>
    if malformed || !(attributes.map RawAttribute.key).Nodup then none
    else (attributesIn s attributes).map fun as => (⟨raw, s.resolve true raw, s⟩, as)

/-- What one token means, given the open elements: the input, and the elements open after it. -/
def readToken (opened : List OpenTag) (t : Token) : Except Fault (List Input × List OpenTag) :=
  match t with
  | .text s => .ok (if opened.isEmpty then [] else [.characters (String.ofList s)], opened)
  | .cdata s => .ok (if opened.isEmpty then [] else [.characters (String.ofList s)], opened)
  | .reference body =>
    if opened.isEmpty then .ok ([], opened)
    else
      match resolveReference body with
      | .char c => .ok ([.characters (String.singleton c)], opened)
      | .unknown n => .error (.unknownEntity n)
      | .malformed => .error .malformedInput
  | .comment s => .ok ([.comment (String.ofList s)], opened)
  | .instruction target data =>
    .ok ([.instruction (String.ofList target) (String.ofList data)], opened)
  | .declaration => .ok ([], opened)
  | .opening tag selfClosing =>
    match readTag (scopeOf opened) tag with
    | none => .error .malformedInput
    | some (e, as) =>
      if selfClosing then .ok ([.opening e.name as, .closing e.name], opened)
      else .ok ([.opening e.name as], e :: opened)
  | .closing tag =>
    match opened with
    | e :: rest =>
      if closingName tag == e.raw then .ok ([.closing e.name], rest) else .error .malformedInput
    | [] => .error .malformedInput

/-- The input for the rest of a document, and the fault that ends it if there is one. -/
def readFrom (opened : List OpenTag) (s : List Char) : List Input × Option Fault :=
  match s with
  | [] => ([], none)
  | c :: r =>
    match _h : scan c r with
    | none => ([], some .malformedInput)
    | some (t, rest) =>
      match readToken opened t with
      | .error f => ([], some f)
      | .ok (inputs, opened) =>
        let more := readFrom opened rest
        (inputs ++ more.1, more.2)
termination_by s.length
decreasing_by
  have := length_scan _h
  simp only [List.length_cons]
  omega

/-- The text without a byte order mark at its start. -/
def withoutMark (s : List Char) : List Char :=
  match s with
  | c :: r => if c == Char.ofNat 0xFEFF then r else s
  | [] => []

/-- The input for a document, and the fault that ends it if there is one. -/
def read (document : String) : List Input × Option Fault :=
  readFrom [] (withoutMark document.toList)

end StreamTransform.Markup
