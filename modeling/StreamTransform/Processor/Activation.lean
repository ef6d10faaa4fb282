import StreamTransform.Event
import StreamTransform.Processor.Variables

/-!
# Activations

The state of a template that runs for one node, of a built-in rule that waits
for the children of its node, or of a group whose variables are declared. An
activation either runs or is parked on its node until what it waits for has
gone by.
-/

namespace StreamTransform

/-- The items that a loop at a node has still to run for. -/
structure Loop where
  node : NodeId
  rest : List Item
  deriving Repr

/-- One body in execution. -/
structure Frame where
  group : GroupId
  cursor : NodeId
  /-- One scope for each open container, innermost first. -/
  scopes : List Bindings
  /-- The values passed for its parameters. -/
  passed : Bindings
  loops : List Loop
  /-- Names that open instructions still need at their end, innermost first. -/
  owed : List QName
  deriving Repr

namespace Frame

def start (group : GroupId) (body : NodeId) (passed : Bindings) : Frame :=
  ⟨group, body, [], passed, [], []⟩

def moveTo (f : Frame) (n : NodeId) : Frame := { f with cursor := n }

/-- Goes on after the current node. -/
def next (f : Frame) : Frame := f.moveTo (f.cursor + 1)

/-- Goes into the content of the current node, with a scope of its own. -/
def enter (f : Frame) : Frame := { f.next with scopes := [] :: f.scopes }

/-- Goes on after the end of the current node's content. -/
def skip (f : Frame) (n : Node) : Frame := f.moveTo (n.close.getD f.cursor + 1)

/-- Leaves the scope of a content that ends. -/
def leave (f : Frame) : Frame := { f with scopes := f.scopes.tail }

def owe (f : Frame) (n : QName) : Frame := { f with owed := n :: f.owed }

/-- Without the name that was owed last. -/
def settle (f : Frame) : Frame := { f with owed := f.owed.tail }

end Frame

inductive Role where
  | template (id : TemplateId)
  /-- The rule for nodes that no template matches; it may owe an end tag. -/
  | builtIn (copied : Option QName)
  | initialiser (group : GroupId)
  deriving Repr

/-- The group that processes further nodes, and the values passed to its templates. -/
structure Handover where
  group : GroupId
  passed : Bindings
  deriving Repr

/-- A request for the following siblings, made by the instruction at a node. -/
structure SiblingRequest where
  handover : Handover
  instruction : NodeId
  deriving Repr

inductive Phase where
  | running
  | awaitingChildren
  | awaitingSelf
  | awaitingSiblings (request : SiblingRequest)
  deriving Repr

structure Activation where
  role : Role
  /-- The depth of its node. -/
  depth : Nat
  position : Nat
  hasChildren : Bool
  phase : Phase
  /-- The walk that has suspended it. -/
  suspendedBy : Option Walk
  /-- The bodies in execution, the one called last at the head. -/
  frames : List Frame
  /-- The group whose fresh frame goes with the activation. -/
  entered : Option GroupId
  deriving Repr

namespace Activation

def start (role : Role) (depth position : Nat) (hasChildren : Bool) (frames : List Frame) :
    Activation :=
  ⟨role, depth, position, hasChildren, .running, none, frames, none⟩

def template? (a : Activation) : Option TemplateId :=
  match a.role with
  | .template id => some id
  | .builtIn _ | .initialiser _ => none

def isInitialiser (a : Activation) : Bool :=
  match a.role with
  | .initialiser _ => true
  | .template _ | .builtIn _ => false

def siblingRequest? (a : Activation) : Option SiblingRequest :=
  match a.phase with
  | .awaitingSiblings r => some r
  | .running | .awaitingChildren | .awaitingSelf => none

end Activation

/-- The activations of a closed node that wait for its following siblings, innermost first. -/
structure SiblingWait where
  event : Event
  activations : List Activation
  deriving Repr

def SiblingWait.request? (w : SiblingWait) : Option SiblingRequest :=
  w.activations.head?.bind Activation.siblingRequest?

/-- A node on the ancestor stack. -/
structure OpenNode where
  event : Event
  /-- The children met so far, counted by group. -/
  tally : Tally
  /-- The parked activations, innermost first. Only the head can be resumed. -/
  activations : List Activation
  /-- How its children are processed, if they are. -/
  children : Option Handover
  /-- The waiters among its closed children, the one parked last at the head. -/
  waits : List SiblingWait
  deriving Repr

namespace OpenNode

def fresh (e : Event) : OpenNode := ⟨e, [], [], none, []⟩

/-- The node of waiters, open again. -/
def ofWait (w : SiblingWait) : OpenNode := ⟨w.event, [], w.activations, none, []⟩

end OpenNode

end StreamTransform
