import StreamTransform.Processor.Agenda

/-!
# Input of a transformation

A document arrives event by event. Text is held back until something else
arrives. Parameters can be set at any time. A call out of order is refused and
changes nothing; a fault while an event is processed aborts for good.
-/

namespace StreamTransform

inductive Input where
  | startDocument
  | endDocument
  | opening (name : QName) (attributes : List Attribute)
  | closing (name : QName)
  | characters (text : String)
  | comment (text : String)
  | instruction (target data : String)
  | parameter (name : String) (value : Value)
  deriving Repr

namespace Input

/-- Why an event is refused in a status. -/
def refusal? (status : Status) : Input → Option Fault
  | parameter .. => none
  | startDocument =>
    match status with
    | .notStarted => none
    | .running | .finished | .aborted => some .alreadyStarted
  | endDocument | opening .. | closing _ | characters _ | comment _ | instruction .. =>
    match status with
    | .running => none
    | .notStarted => some .notStarted
    | .finished => some .alreadyEnded
    | .aborted => some .aborted

/-- What an event changes by itself. -/
def apply (s : State) : Input → State
  | startDocument => { s with status := .running }
  | characters t => { s with pendingText := s.pendingText ++ t }
  | parameter n v => { s with parameters := s.parameters.insert n v }
  | endDocument | opening .. | closing _ | comment _ | instruction .. => s

/-- What there is to do for an event. -/
def tasks : Input → List Task
  | startDocument => [.begin]
  | endDocument => [.conclude]
  | opening n as => [.flush false, .hold n as]
  | closing n => [.checkEnd n, .flush true, .leave]
  | comment s => [.flush false, .meet (.comment s) false]
  | instruction t d => [.flush false, .meet (.instruction t d) false]
  | characters _ | parameter .. => []

/-- The status after an event was processed. -/
def statusAfter (i : Input) (s : State) : Outcome → Status
  | .completed =>
    match i with
    | endDocument => .finished
    | startDocument | opening .. | closing _ | characters _ | comment _ | instruction ..
    | parameter .. => s.status
  | .failed _ | .unfinished => .aborted

end Input

/-- Takes an event in, with so much fuel for the work it makes. -/
def State.receive (env : Environment) (fuel : Nat) (i : Input) (s : State) : Outcome × State :=
  match i.refusal? s.status with
  | some f => (.failed f, s)
  | none =>
    let (outcome, after) := carryOut env fuel i.tasks (i.apply s)
    (outcome, { after with status := i.statusAfter after outcome })

/-- Takes events in until one is not completed. -/
def State.receiveAll (env : Environment) (fuel : Nat) : List Input → State → Outcome × State
  | [], s => (.completed, s)
  | i :: r, s =>
    match s.receive env fuel i with
    | (.completed, s) => receiveAll env fuel r s
    | (outcome, s) => (outcome, s)

/-- Stops the transformation on behalf of the source of events. -/
def State.abort (env : Environment) (f : Fault) (s : State) : Outcome × State :=
  match ((Operation.fatal env f : Operation Unit).run).run { s with status := .aborted } with
  | (.ok _, s) => (.completed, s)
  | (.error f, s) => (.failed f, s)

end StreamTransform
