import StreamTransform.Diagnostic
import StreamTransform.Event
import StreamTransform.Output.Recorder
import StreamTransform.Output.TextSink

/-!
# The record of a transformation

Everything a transformation does to the outside stands in one list, the latest
first: what it sends to sinks, which documents it asks for, what it reports and
what it notes for observers. Outputs, diagnostics and traces are views of it.
-/

namespace StreamTransform

/-- Where output goes: the main output, or a further document by the order of opening. -/
inductive Destination where
  | main
  | document (number : Nat)
  deriving Repr, DecidableEq

/-- A step of the transformation that observers can follow. -/
inductive Note where
  | startDocument
  | endDocument
  | enterNode (event : Event) (depth : Nat)
  | leaveNode (event : Event) (depth : Nat)
  | enterTemplate (template : Nat) (source : String) (event : Event)
  | leaveTemplate (template : Nat) (source : String)
  /-- An output event is about to be written to the innermost scope. -/
  | emit (event : Output.Event)
  deriving Repr

namespace Note

/-- How a node is called in a trace. -/
def describe (e : Event) : String :=
  match e.content with
  | .root => "/"
  | .element n _ => n.display
  | .attr a _ => "@" ++ a.name.display
  | .text s => "text(" ++ Text.quoted s ++ ")"
  | .comment _ => "comment()"
  | .instruction target _ => "processing-instruction(" ++ target ++ ")"

def line : Note → String
  | startDocument => "start-document"
  | endDocument => "end-document"
  | enterNode e d => s!"enter {d} {describe e}"
  | leaveNode e d => s!"leave {d} {describe e}"
  | enterTemplate _ source e => s!"template `{source}' for {describe e}"
  | leaveTemplate _ source => s!"end template `{source}'"
  | emit e => "emit " ++ e.describe

end Note

inductive Happening where
  | sent (destination : Destination) (event : Output.Event) (refusal : Option Fault)
  | resolved (href : String) (refusal : Option Fault)
  | reported (diagnostic : Diagnostic) (answer : Option Fault)
  | noted (note : Note)
  deriving Repr

/-- All happenings so far, the latest first. -/
abbrev Record := List Happening

namespace Record

/-- The hrefs of the documents that were opened, the latest first. -/
def documents (r : Record) : List String :=
  r.filterMap fun
    | .resolved href none => some href
    | _ => none

/-- The events that a destination took, in order. -/
def taken (r : Record) (d : Destination) : List Output.Event :=
  r.reverse.filterMap fun
    | .sent receiver e none => if receiver = d then some e else none
    | _ => none

/-- The diagnostics in order. -/
def diagnostics (r : Record) : List Diagnostic :=
  r.reverse.filterMap fun
    | .reported d _ => some d
    | _ => none

/-- The lines of the trace in order. -/
def trace (r : Record) : List String :=
  r.reverse.filterMap fun
    | .noted n => some n.line
    | _ => none

end Record

end StreamTransform
