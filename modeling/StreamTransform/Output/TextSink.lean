import StreamTransform.Output.Event
import StreamTransform.Fault

/-!
# Sinks for text

A text sink collects characters and refuses markup. The marks of a CDATA
section and of the document pass without effect. `context` says what the text
is for.
-/

namespace StreamTransform.Output

structure TextSink where
  context : String
  buffer : String
  deriving Repr

namespace TextSink

def empty (context : String) : TextSink := ⟨context, ""⟩

/-- Why a sink with this context refuses an event. -/
def refusal? (context : String) : Event → Option Fault
  | .opening n _ | .closing n => some (.rejected s!"element `{n.display}'" context)
  | .comment _ => some (.rejected "a comment" context)
  | .instruction t _ => some (.rejected s!"processing instruction `{t}'" context)
  | .startDocument | .endDocument | .characters _ | .startCdata | .endCdata => none

/-- The sink after an event that it does not refuse. -/
def take (s : TextSink) : Event → TextSink
  | .characters t => { s with buffer := s.buffer ++ t }
  | _ => s

end TextSink

/-- The text that the characters among the events make up. -/
def textOf (events : List Event) : String := (events.foldl TextSink.take (.empty "")).buffer

end StreamTransform.Output
