import StreamTransform.Program

/-!
# Linked programs

While a program is built, its nodes stand in the order in which they were added,
and each of them is linked to the node that follows it in execution. The
variables of a group are added where they are declared and become one body in
the end, so it is the links that tell what a body is. Laid out along them, the
bodies are one flat code, and nodes are numbered by their places in it.
-/

namespace StreamTransform

/-- An instruction that points to nodes by other numbers. -/
def Instruction.renumber (f : NodeId → NodeId) : Instruction → Instruction
  | .body => .body
  | .act a => .act a
  | .container c => .container c
  | .condition test other => .condition test (other.map f)
  | .alternative => .alternative
  | .choice => .choice
  | .when test c => .when test (f c)
  | .otherwise => .otherwise
  | .closing start => .closing (f start)

/-- A condition with an alternative. -/
def Instruction.withAlternative (other : NodeId) : Instruction → Instruction
  | .condition test _ => .condition test (some other)
  | i => i

def Node.renumber (f : NodeId → NodeId) (n : Node) : Node :=
  ⟨n.instruction.renumber f, n.location, n.close.map f⟩

def Template.renumber (f : NodeId → NodeId) (t : Template) : Template := { t with body := f t.body }

def Procedure.renumber (f : NodeId → NodeId) (q : Procedure) : Procedure :=
  { q with body := f q.body }

def Group.renumber (f : NodeId → NodeId) (g : Group) : Group :=
  { g with initialiser := g.initialiser.map f }

/-- A node, and the node that follows it in execution. -/
structure LinkedNode extends Node where
  next : Option NodeId

structure LinkedProgram where
  nodes : Array LinkedNode
  templates : Array Template
  procedures : Array Procedure
  groups : Array Group
  globals : List TemplateId

/-- A body starts with the node. -/
def Node.startsBody (n : Node) : Bool :=
  match n.instruction with
  | .body => true
  | _ => false

/-- The nodes from one on along the links, at most so many. -/
def follow (nodes : Array LinkedNode) : Nat → Option NodeId → List NodeId
  | 0, _ => []
  | _ + 1, none => []
  | k + 1, some i =>
    match nodes[i]? with
    | none => []
    | some n => i :: follow nodes k n.next

/-- Where bodies start, in the order in which they were added. -/
def bodyStarts (nodes : Array LinkedNode) : List NodeId :=
  (List.range nodes.size).filter fun i => nodes[i]?.any fun n => n.startsBody

/-- The nodes of all bodies along their links, one body after the other. -/
def linkOrder (nodes : Array LinkedNode) : List NodeId :=
  (bodyStarts nodes).flatMap fun b => follow nodes nodes.size (some b)

namespace LinkedProgram

/-- The bodies laid out along their links. -/
def layOut (p : LinkedProgram) : Program :=
  let order := linkOrder p.nodes
  let place := fun i => order.idxOf i
  { code := (order.filterMap fun i => p.nodes[i]?.map fun n => n.renumber place).toArray
    templates := p.templates.map (Template.renumber place)
    procedures := p.procedures.map (Procedure.renumber place)
    groups := p.groups.map (Group.renumber place)
    globals := p.globals }

end LinkedProgram

end StreamTransform
