import StreamTransform.Decimal.Binary64
import StreamTransform.Program.Linked
import StreamTransform.Script.Resolution

/-!
# Assembly of programs

Declarations and commands add nodes one by one, and each node of a body is linked
to the last one before it. Templates, procedures and groups are numbered in the
order of their declarations. The variables of a group are linked into one more
body when all is declared. The best template is the one with the highest
priority, among equals the one declared first.
-/

namespace StreamTransform.Script

/-- A group in the making: the group so far, the variables declared in it, the latest first, and
the nodes where their declarations start, in order. -/
structure GroupBuilder where
  group : Group
  declared : List String := []
  declarations : List NodeId := []
  deriving Inhabited

structure Builder where
  reading : Reading := {}
  nodes : Array LinkedNode := #[]
  templates : Array Template := #[]
  procedures : Array Procedure := #[]
  groups : Array GroupBuilder

abbrev Build := StateM Builder

namespace Build

def resolving {α : Type} (r : Resolve α) : Build α :=
  modifyGet fun b => let (a, reading) := r.run b.reading; (a, { b with reading := reading })

/-- A new node. It is linked to none, and none is linked to it. -/
def addNode (i : Instruction) : Build NodeId :=
  modifyGet fun b =>
    (b.nodes.size, { b with nodes := b.nodes.push ⟨⟨i, b.reading.location, none⟩, none⟩ })

def modifyNode (i : NodeId) (f : LinkedNode → LinkedNode) : Build Unit :=
  modify fun b => { b with nodes := b.nodes.modify i f }

def setNext (i next : NodeId) : Build Unit := modifyNode i fun n => { n with next := some next }

def setClose (start close : NodeId) : Build Unit :=
  modifyNode start fun n => { n with close := some close }

/-- Gives the condition at a node an alternative. -/
def setAlternative (start alternative : NodeId) : Build Unit :=
  modifyNode start fun n => { n with instruction := n.instruction.withAlternative alternative }

end Build

/-! ## Bodies -/

/-- A body in the making: the program so far, the last node of the body, and the names declared in
every content that is open, the innermost first. -/
structure BodyBuilder where
  builder : Builder
  last : NodeId
  scopes : List (List String)

abbrev Write := StateM BodyBuilder

namespace Write

def building {α : Type} (m : Build α) : Write α :=
  modifyGet fun w => let (a, b) := m.run w.builder; (a, { w with builder := b })

def resolving {α : Type} (r : Resolve α) : Write α := building (Build.resolving r)

/-- A new node that follows the last one. -/
def push (i : Instruction) : Write NodeId := do
  let id ← building (Build.addNode i)
  building (Build.setNext (← get).last id)
  modify fun w => { w with last := id }
  pure id

/-- A start node, its content in a scope of names of its own, and the end of it. -/
def enclose (i : Instruction) (content : NodeId → Write Unit) : Write NodeId := do
  let start ← push i
  modify fun w => { w with scopes := [] :: w.scopes }
  content start
  modify fun w => { w with scopes := w.scopes.tail }
  let close ← push (.closing start)
  building (Build.setClose start close)
  pure start

def act (a : Action) : Write Unit := discard (push (.act a))

def contain (c : Container) (content : Write Unit) : Write Unit :=
  discard (enclose (.container c) fun _ => content)

def noContent : Write Unit := pure ()

/-- Declares a name in the innermost content. -/
def declare (name : String) : Write Unit := do
  match (← get).scopes with
  | [] => pure ()
  | scope :: outer => do
    let scope ← resolving (Resolve.declare scope name)
    modify fun w => { w with scopes := scope :: outer }

end Write

open Resolve (expression textTemplate pattern optional name nameTemplate delegation)
open Write

mutual

/-- Adds the nodes of a command. -/
def Command.write : Command → Write Unit
  | .locate l => resolving (Resolve.locate l)
  | .process walk d => do
    let handed ← resolving (delegation d)
    match walk with
    | .siblings => do
      let whilst ← resolving (optional pattern d.whilst)
      let till ← resolving (optional pattern d.till)
      act (.processSiblings handed whilst.join till.join)
    | walk => act (.process walk handed)
  | .call procedure d => do act (.call procedure (← resolving (delegation d)))
  | .literal n as content => do
    let n ← resolving (name n)
    let as ← resolving (as.mapM fun p => do
      let attr ← name p.1
      pure (attr, ← textTemplate p.2))
    contain (.literal n as) (writeAll content)
  | .element n uri content => do
    let n ← resolving (nameTemplate n uri)
    contain (.element n) (writeAll content)
  | .startElement n => do act (.startElement (← resolving (nameTemplate n none)))
  | .endElement n => do act (.endElement (← resolving (nameTemplate n none)))
  | .attr n select => do
    let e ← resolving (expression select)
    let n ← resolving (nameTemplate n none)
    contain (.attr n (.selected e)) noContent
  | .attrContent n content => do
    let n ← resolving (nameTemplate n none)
    contain (.attr n .written) (writeAll content)
  | .text s => act (.text s)
  | .valueOf select separator => do
    let e ← resolving (expression select)
    let separator ← resolving (textTemplate separator)
    act (.valueOf e separator)
  | .copy as content => contain (.copy as) (writeAll content)
  | .comment content => contain .comment (writeAll content)
  | .processingInstruction target content => do
    let target ← resolving (textTemplate target)
    contain (.processingInstruction target) (writeAll content)
  | .cdata content => contain .cdata (writeAll content)
  | .document href content => do
    let href ← resolving (textTemplate href)
    contain (.document href) (writeAll content)
  | .message select => do
    let e ← resolving (expression select)
    contain (.message (.selected e) false) noContent
  | .messageContent terminate content => contain (.message .written terminate) (writeAll content)
  | .variable n select => do
    declare n
    let e ← resolving (expression select)
    contain (.variable n (.selected e) .body) noContent
  | .variableContent n content => do
    declare n
    contain (.variable n .written .body) (writeAll content)
  | .parameter n select => do
    declare n
    let e ← resolving (expression select)
    contain (.parameter n (some (.selected e)) .body) noContent
  | .parameterContent n content => do
    declare n
    contain (.parameter n (some .written) .body) (writeAll content)
  | .required n => do
    declare n
    contain (.parameter n none .body) noContent
  | .assign n select => do
    let e ← resolving (expression select)
    contain (.assign n (.selected e)) noContent
  | .assignContent n content => contain (.assign n .written) (writeAll content)
  | .condition test yes => do
    let e ← resolving (expression test)
    discard (enclose (.condition e none) fun _ => writeAll yes)
  | .either test yes no => do
    let e ← resolving (expression test)
    let start ← enclose (.condition e none) fun _ => writeAll yes
    let alternative ← enclose .alternative fun _ => writeAll no
    building (Build.setAlternative start alternative)
  | .choose branches => discard (enclose .choice fun choice => writeBranches choice branches)
  | .loop test content => do
    let e ← resolving (expression test)
    contain (.loop e) (writeAll content)
  | .each n select content => do
    let e ← resolving (expression select)
    contain (.each n e) do
      declare n
      writeAll content

def writeAll : List Command → Write Unit
  | [] => pure ()
  | c :: r => do
    c.write
    writeAll r

/-- Adds the nodes of a branch of the choice at a node. -/
def Branch.write (choice : NodeId) : Branch → Write Unit
  | .when test content => do
    let e ← resolving (expression test)
    discard (enclose (.when e choice) fun _ => writeAll content)
  | .otherwise content => discard (enclose .otherwise fun _ => writeAll content)

def writeBranches (choice : NodeId) : List Branch → Write Unit
  | [] => pure ()
  | b :: r => do
    b.write choice
    writeBranches choice r

end

/-! ## Declarations -/

namespace Build

def modifyGroup (g : GroupId) (f : GroupBuilder → GroupBuilder) : Build Unit :=
  modify fun b => { b with groups := b.groups.modify g f }

def group (g : GroupId) : Build GroupBuilder := do pure ((← get).groups.getD g default)

/-- A new body, in which commands add nodes behind its start. -/
def addBody (content : List Command) : Build NodeId := do
  let start ← addNode .body
  let written : Write NodeId := do
    writeAll content
    push (.closing start)
  let close ← modifyGet fun b =>
    let (close, w) := written.run ⟨b, start, [[]]⟩
    (close, w.builder)
  setClose start close
  pure start

def addTemplate (t : Template) : Build Unit := do
  let id := (← get).templates.size
  modify fun b => { b with templates := b.templates.push t }
  modifyGroup t.group fun g =>
    { g with group := { g.group with templates := g.group.templates ++ [id] } }

def addProcedure (p : Procedure) : Build Unit := do
  let id := (← get).procedures.size
  modify fun b => { b with procedures := b.procedures.push p }
  modifyGroup p.group fun g =>
    { g with group := { g.group with procedures := g.group.procedures ++ [id] } }

/-- A new group in another one. -/
def addGroup (name : String) (parent : GroupId) : Build GroupId := do
  let id := (← get).groups.size
  modify fun b => { b with groups := b.groups.push ⟨
    { (default : Group) with name := some name, parent := some parent }, [], []⟩ }
  modifyGroup parent fun g =>
    { g with group := { g.group with children := g.group.children ++ [id] } }
  pure id

/-- Declares a variable of a group by two nodes, which no node is linked to yet; a second declaration
of its name does not count. -/
def declareIn (g : GroupId) (name : String) (container : Container) : Build Unit := do
  if (← group g).declared.contains name then
    resolving (Resolve.problem (.duplicateGroupVariable name))
  else
    let start ← addNode (.container container)
    let close ← addNode (.closing start)
    setNext start close
    setClose start close
    modifyGroup g fun b =>
      { b with declared := name :: b.declared, declarations := b.declarations ++ [start] }

end Build

open Build

/-- Whether a group has the name. -/
def Builder.hasGroup (b : Builder) (name : String) : Bool :=
  b.groups.any fun g => g.group.name == some name

mutual

/-- Adds a declaration to a group. -/
def Declaration.add (g : GroupId) : Declaration → Build Unit
  | .locate l => Build.resolving (Resolve.locate l)
  | .bind q uri =>
    modify fun b => { b with reading := { b.reading with
      namespaces := b.reading.namespaces.bind q uri } }
  | .template source options content => do
    let location ← Build.resolving Resolve.location
    let pattern ← Build.resolving (Resolve.pattern source)
    let body ← addBody content
    match pattern with
    | none => pure ()
    | some pattern =>
      pattern.alternatives.forM fun p =>
        addTemplate ⟨p, source, options.priority.getD p.priority, options.visibility,
          options.recursionEntry, g, location, body⟩
  | .procedure name visibility content => do
    let location ← Build.resolving Resolve.location
    let b ← get
    if (← group g).group.procedures.any fun id => b.procedures[id]?.any fun p => p.name == name then
      Build.resolving (Resolve.problem (.duplicateProcedure name))
    let body ← addBody content
    addProcedure ⟨name, g, visibility, location, body⟩
  | .group name members => do
    if (← get).hasGroup name then Build.resolving (Resolve.problem (.duplicateGroup name))
    let id ← addGroup name g
    addAll id members
  | .variable name select => do
    let e ← Build.resolving (expression select)
    declareIn g name (.variable name (.selected e) (.group g))
  | .parameter name select => do
    let e ← Build.resolving (optional expression select)
    let origin := match e with
      | some e => Origin.selected e
      | none => Origin.written
    declareIn g name (.parameter name (some origin) (.group g))
  | .required name => declareIn g name (.parameter name none (.group g))

def addAll (g : GroupId) : List Declaration → Build Unit
  | [] => pure ()
  | d :: r => do
    d.add g
    addAll g r

end

/-! ## Variables of groups -/

/-- Links declarations behind a node, each to the end of the one before it, and leads to the last
node. -/
def linkDeclarations (last : NodeId) : List NodeId → Build NodeId
  | [] => pure last
  | d :: r => do
    setNext last d
    let close := (← get).nodes[d]?.bind fun n => n.close
    linkDeclarations (close.getD d) r

/-- Makes a body of the declarations of a group's variables, if it has any. -/
def linkInitialiser (g : GroupId) : Build Unit := do
  let e ← group g
  if e.declarations.isEmpty then pure ()
  else
    let start ← addNode .body
    let last ← linkDeclarations start e.declarations
    let close ← addNode (.closing start)
    setNext last close
    setClose start close
    modifyGroup g fun e => { e with group := { e.group with initialiser := some start } }

/-! ## Programs -/

/-- A group, its parent and so on, at most so many groups. -/
def ancestryOf (groups : Array Group) : Nat → Option GroupId → List GroupId
  | 0, _ => []
  | _ + 1, none => []
  | k + 1, some g => g :: ancestryOf groups k (groups[g]?.bind Group.parent)

/-- Whether a template comes before another one of the same rank or lower. -/
def precedes (templates : Array Template) (a b : TemplateId) : Bool :=
  let key := fun (id : TemplateId) =>
    (templates[id]?.map fun t => Decimal.orderKey t.priority).getD 0
  key b < key a || (key a == key b && a ≤ b)

def ranked (templates : Array Template) (ids : List TemplateId) : List TemplateId :=
  ids.mergeSort (precedes templates)

def visibleAs (templates : Array Template) (v : Visibility) (id : TemplateId) : Bool :=
  templates[id]?.any fun t => t.visibility == v

/-- The templates declared in a group and those its children show it. -/
def visibleIn (templates : Array Template) (groups : Array Group) (g : Group) :
    List TemplateId :=
  g.templates ++ g.children.flatMap fun c =>
    (groups.getD c default).templates.filter (visibleAs templates .parent)

/-- The templates that are visible everywhere, the best first. -/
def everywhere (templates : Array Template) : List TemplateId :=
  ranked templates ((List.range templates.size).filter (visibleAs templates .everywhere))

/-- Groups with their ancestors, and with the templates that they choose from, the best first. -/
def completed (templates : Array Template) (groups : Array Group) : Array Group :=
  groups.mapIdx fun id g =>
    { g with
      ancestry := ancestryOf groups groups.size (some id)
      candidates := ranked templates (visibleIn templates groups g) }

def Builder.program (b : Builder) : LinkedProgram where
  nodes := b.nodes
  templates := b.templates
  procedures := b.procedures
  groups := completed b.templates (b.groups.map GroupBuilder.group)
  globals := everywhere b.templates

/-- Nothing but the outermost group. -/
def Builder.initial : Builder where
  groups := #[⟨default, [], []⟩]

/-- What is built when all is declared. -/
def built (declarations : List Declaration) : Builder :=
  let building : Build Unit := do
    addAll Program.rootGroup declarations
    (List.range (← get).groups.size).forM linkInitialiser
  (building.run Builder.initial).2

/-- The linked program that the declarations make up, or all their problems in order. -/
def link (declarations : List Declaration) : Except Fault LinkedProgram :=
  let b := built declarations
  if b.reading.problems.isEmpty then .ok b.program
  else .error (.defective b.reading.problems.reverse)

/-- The program that runs: the linked program, laid out. -/
def build (declarations : List Declaration) : Except Fault Program :=
  (link declarations).map LinkedProgram.layOut

end StreamTransform.Script
