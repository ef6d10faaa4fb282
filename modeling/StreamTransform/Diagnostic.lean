import StreamTransform.Fault

/-!
# Diagnostics and listeners

A problem is reported together with how serious it is and where it came from.
A listener decides whether the transformation goes on: an answer with a fault
ends it with that fault.
-/

namespace StreamTransform

inductive Severity where
  | warning | error | fatal
  deriving Repr, DecidableEq

def Severity.text : Severity → String
  | warning => "warning"
  | error => "error"
  | fatal => "fatal error"

structure Diagnostic where
  severity : Severity
  fault : Fault
  /-- A location that is known. -/
  location : Option Location
  deriving Repr

namespace Diagnostic

/-- A diagnostic at a location, which is dropped if it is unknown. -/
def make (severity : Severity) (fault : Fault) (location : Option Location) : Diagnostic :=
  ⟨severity, fault, location.filter Location.isKnown⟩

def text (d : Diagnostic) : String :=
  match d.location with
  | some l => s!"{d.severity.text} at {l.text}: {d.fault.message}"
  | none => s!"{d.severity.text}: {d.fault.message}"

end Diagnostic

/-- The answers of listeners that look at the diagnostic only. -/
abbrev Verdict := Diagnostic → Option Fault

namespace Verdict

/-- Ends on fatal faults, and on every error when strict. -/
def standard (strict : Bool) : Verdict := fun d =>
  match d.severity with
  | .warning => none
  | .error => if strict then some d.fault else none
  | .fatal => some d.fault

/-- Ends on fatal faults only. -/
def lenient : Verdict := standard false

/-- Ends on everything. -/
def abortAlways : Verdict := fun d => some d.fault

/-- Never ends. -/
def ignoreAll : Verdict := fun _ => none

end Verdict

end StreamTransform
