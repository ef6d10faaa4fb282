import StreamTransform.Configuration
import StreamTransform.Output.Writing
import StreamTransform.Path.Evaluation
import StreamTransform.Processor.Activation

/-!
# State of a transformation

The open nodes from the current one up to the root, the variables of the
groups, the outlet, and the input that is held back: text that may go on, and a
start tag until the next event tells whether its element has children.
-/

namespace StreamTransform

inductive Status where
  | notStarted | running | finished | aborted
  deriving Repr, DecidableEq

structure State where
  status : Status
  /-- The open nodes, the current one at the head. -/
  nodes : List OpenNode
  frames : GroupFrames
  /-- The values for the parameters of the outermost group. -/
  parameters : Bindings
  outlet : Output.Outlet
  /-- The names of the open elements of the input, innermost first. -/
  inputOpen : List QName
  /-- How many open elements belong to content that is skipped. -/
  skipDepth : Nat
  pendingStart : Option (QName × List Attribute)
  pendingText : String
  /-- The serial number of the next event. -/
  serial : Nat
  deriving Repr

/-- What a transformation is run with. -/
structure Environment where
  program : Program
  configuration : Configuration
  surroundings : Surroundings

def State.initial (p : Program) : State where
  status := .notStarted
  nodes := []
  frames := .empty p.groups.size
  parameters := []
  outlet := .initial
  inputOpen := []
  skipDepth := 0
  pendingStart := none
  pendingText := ""
  serial := 0

namespace State

/-- The ancestor stack from the root down. -/
def path (s : State) : List Event := s.nodes.reverse.map OpenNode.event

def depth (s : State) : Nat := s.nodes.length

def record (s : State) : Record := s.outlet.record

/-- What an expression sees from a frame of an activation. -/
def context (s : State) (p : Program) (a : Activation) (f : Frame) : Path.Context where
  ancestors := s.path
  lookup := findVariable f.scopes s.frames (p.group f.group).ancestry
  position := a.position
  hasChildNodes := a.hasChildren

/-- What a pattern in a group sees at the current node. -/
def patternContext (s : State) (p : Program) (g : GroupId) (hasChildren : Bool) :
    Path.Context where
  ancestors := s.path
  lookup := findVariable [] s.frames (p.group g).ancestry
  position := 1
  hasChildNodes := hasChildren

end State

/-- An operation on the state. A fault ends the transformation. -/
abbrev Operation := ExceptT Fault (StateM State)

namespace Operation

def happen (h : Happening) : Operation Unit :=
  modify fun s => { s with outlet := { s.outlet with record := h :: s.outlet.record } }

/-- Leaves a note for observers. -/
def note (n : Note) : Operation Unit := happen (.noted n)

/-- Reports a fault; the listener may end the transformation with one of its own. -/
def report (env : Environment) (severity : Severity) (f : Fault) (node : Option NodeId) :
    Operation Unit := do
  let d := Diagnostic.make severity f (node.bind env.program.locationOf)
  let answer := env.surroundings.listener (← get).record d
  happen (.reported d answer)
  match answer with
  | some f => throw f
  | none => pure ()

/-- Reports a fault and ends the transformation, whatever the listener says. -/
def fatal {α : Type} (env : Environment) (f : Fault) : Operation α := do
  report env .fatal f none
  throw f

/-- The result of an operation on the outlet; its fault is reported as an error. -/
def attempt {α : Type} (env : Environment) (node : Option NodeId) (w : Output.Writing α) :
    Operation (Option α) := do
  let s ← get
  let (result, outlet) := w.run.run s.outlet
  set { s with outlet := outlet }
  match result with
  | .ok a => pure (some a)
  | .error f =>
    report env .error f node
    pure none

/-- Writes an event to the innermost output scope. -/
def emit (env : Environment) (e : Output.Event) (node : Option NodeId) : Operation Unit := do
  note (.emit e)
  discard (attempt env node (Output.Writing.emit env.surroundings e))

def addAttribute (env : Environment) (a : Attribute) (node : Option NodeId) : Operation Unit :=
  discard (attempt env node (Output.Writing.addAttribute a))

/-- A result of paths; a fault is reported and a stand-in taken. -/
def settle {α : Type} (env : Environment) (node : NodeId) (fallback : α) :
    Except Path.Fault α → Operation α
  | .ok a => pure a
  | .error f => do
    report env .error (.evaluation f) (some node)
    pure fallback

/-- The current node. -/
def current : Operation OpenNode := do
  match (← get).nodes with
  | n :: _ => pure n
  | [] => throw .noCurrentNode

/-- Changes the current node. -/
def modifyCurrent (f : OpenNode → OpenNode) : Operation Unit := do
  match (← get).nodes with
  | n :: r => modify fun s => { s with nodes := f n :: r }
  | [] => throw .noCurrentNode

/-- The event at a depth. -/
def eventAt (depth : Nat) : Operation Event := do
  let s ← get
  match depth with
  | 0 => throw (.noNodeAt 0)
  | d + 1 =>
    match s.path[d]? with
    | some e => pure e
    | none => throw (.noNodeAt depth)

/-- Makes a node the current one and notes it. -/
def enterNode (n : OpenNode) : Operation Unit := do
  modify fun s => { s with nodes := n :: s.nodes }
  note (.enterNode n.event (← get).depth)

/-- An event of its own for some content. -/
def newEvent (c : Content) : Operation Event :=
  modifyGet fun s => (Event.met s.serial c, { s with serial := s.serial + 1 })

end Operation

end StreamTransform
