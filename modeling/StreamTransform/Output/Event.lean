import StreamTransform.Name
import StreamTransform.Text.Quoted

/-!
# Events of the output

What a transformation writes to a sink. `describe` is the form that traces
show.
-/

namespace StreamTransform.Output

inductive Event where
  | startDocument
  | endDocument
  | opening (name : QName) (attributes : List Attribute)
  | closing (name : QName)
  | characters (text : String)
  | comment (text : String)
  | instruction (target data : String)
  | startCdata
  | endCdata
  deriving Repr, DecidableEq

namespace Event

def describeOption : Option String → String
  | some s => "Some(" ++ Text.quoted s ++ ")"
  | none => "None"

def describeName (n : QName) : String :=
  "QName \x7b prefix: " ++ describeOption n.qualifier ++ ", local_name: " ++ Text.quoted n.localName
    ++ ", namespace_uri: " ++ describeOption n.namespaceUri ++ " \x7d"

def describeAttribute (a : Attribute) : String :=
  "Attribute \x7b name: " ++ describeName a.name ++ ", value: " ++ Text.quoted a.value ++ " \x7d"

def describe : Event → String
  | startDocument => "StartDocument"
  | endDocument => "EndDocument"
  | opening n as =>
    "StartElement \x7b name: " ++ describeName n ++ ", attributes: ["
      ++ ", ".intercalate (as.map describeAttribute) ++ "] \x7d"
  | closing n => "EndElement(" ++ describeName n ++ ")"
  | characters s => "Characters(" ++ Text.quoted s ++ ")"
  | comment s => "Comment(" ++ Text.quoted s ++ ")"
  | instruction t d =>
    "ProcessingInstruction \x7b target: " ++ Text.quoted t ++ ", data: " ++ Text.quoted d ++ " \x7d"
  | startCdata => "StartCdata"
  | endCdata => "EndCdata"

end Event

end StreamTransform.Output
