import StreamTransform.Output.Event

/-!
# Recorded output

A recorder keeps the events it takes in order, with adjacent characters merged
and empty ones left out. Its rendering is markup for inspection: text is escaped
outside of CDATA sections, quotes in attribute values too; the marks of the
document leave no trace.
-/

namespace StreamTransform.Output

/-- One more event after the recorded ones, which stand in reverse order. -/
def record (recorded : List Event) (e : Event) : List Event :=
  match e, recorded with
  | .characters t, .characters s :: r => if t.isEmpty then recorded else .characters (s ++ t) :: r
  | .characters t, r => if t.isEmpty then r else .characters t :: r
  | e, r => e :: r

/-- What a recorder holds after the given events. -/
def recorded (events : List Event) : List Event := (events.foldl record []).reverse

def escapeChar (c : Char) : List Char :=
  if c == '&' then "&amp;".toList
  else if c == '<' then "&lt;".toList
  else if c == '>' then "&gt;".toList
  else [c]

/-- Text with its markup characters escaped. -/
def escape (s : String) : String := String.ofList (s.toList.flatMap escapeChar)

/-- Text escaped for use between double quotes. -/
def escapeValue (s : String) : String :=
  String.ofList (s.toList.flatMap fun c => if c == '"' then "&quot;".toList else escapeChar c)

def renderAttribute (a : Attribute) : String :=
  " " ++ a.name.display ++ "=\"" ++ escapeValue a.value ++ "\""

/-- The markup of one event; `raw` says that it stands in a CDATA section. -/
def renderEvent (raw : Bool) : Event → String
  | .startDocument | .endDocument => ""
  | .opening n as => "<" ++ n.display ++ String.join (as.map renderAttribute) ++ ">"
  | .closing n => "</" ++ n.display ++ ">"
  | .characters s => if raw then s else escape s
  | .comment s => "<!--" ++ s ++ "-->"
  | .instruction t d => if d.isEmpty then "<?" ++ t ++ "?>" else "<?" ++ t ++ " " ++ d ++ "?>"
  | .startCdata => "<![CDATA["
  | .endCdata => "]]>"

/-- Whether characters after an event stand in a CDATA section. -/
def rawAfter (raw : Bool) : Event → Bool
  | .startCdata => true
  | .endCdata => false
  | _ => raw

def renderFrom (raw : Bool) : List Event → String
  | [] => ""
  | e :: r => renderEvent raw e ++ renderFrom (rawAfter raw e) r

/-- The markup of recorded events. -/
def render (events : List Event) : String := renderFrom false events

end StreamTransform.Output
