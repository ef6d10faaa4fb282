import StreamTransform.Program.Code

/-!
# Programs

Templates, procedures and groups over one flat code. Groups are nested in the
group of all top-level declarations, which has number 0.
-/

namespace StreamTransform

/-- From where a template or procedure can be seen. -/
inductive Visibility where
  /-- Its own group only. -/
  | group
  /-- The parent of its group too. -/
  | parent
  /-- Every group, after all others. -/
  | everywhere
  deriving Repr, DecidableEq

structure Template where
  pattern : Path.PathPattern
  /-- The pattern as it was written; all alternatives of a union share it. -/
  source : String
  priority : Float
  visibility : Visibility
  /-- The template runs with a fresh frame for the variables of its group. -/
  recursionEntry : Bool
  group : GroupId
  location : Location
  body : NodeId

structure Procedure where
  name : String
  group : GroupId
  visibility : Visibility
  location : Location
  body : NodeId

structure Group where
  name : Option String
  parent : Option GroupId
  children : List GroupId
  templates : List TemplateId
  procedures : List ProcedureId
  /-- The body that declares the variables of the group. -/
  initialiser : Option NodeId
  /-- The templates that can be selected in the group, the best first. -/
  candidates : List TemplateId
  /-- The group, its parent and so on up to the outermost group. -/
  ancestry : List GroupId
  deriving Inhabited

structure Program where
  code : Array Node
  templates : Array Template
  procedures : Array Procedure
  groups : Array Group
  /-- The templates that are visible everywhere, the best first. -/
  globals : List TemplateId

namespace Program

/-- The group of the top-level declarations. -/
def rootGroup : GroupId := 0

def group (p : Program) (g : GroupId) : Group := p.groups.getD g default

/-- The location of a node. -/
def locationOf (p : Program) (n : NodeId) : Option Location := p.code[n]?.map Node.location

def groupNamed? (p : Program) (name : String) : Option GroupId :=
  (List.range p.groups.size).find? fun g => (p.group g).name == some name

def isProcedureNamed (p : Program) (name : String) (id : ProcedureId) : Bool :=
  p.procedures[id]?.any fun q => q.name == name

def hasVisibility (p : Program) (v : Visibility) (id : ProcedureId) : Bool :=
  p.procedures[id]?.any fun q => q.visibility == v

/-- The procedures that a group offers: its own, then those its children show it. -/
def offered (p : Program) (g : GroupId) : List ProcedureId :=
  (p.group g).procedures ++
    ((p.group g).children.flatMap fun c =>
      (p.group c).procedures.filter (p.hasVisibility .parent))

/-- The procedure of a name as seen from a group: offered by the group or an ancestor, the nearest
first, or visible everywhere. -/
def procedureNamed? (p : Program) (name : String) (g : GroupId) : Option ProcedureId :=
  ((p.group g).ancestry.flatMap p.offered
      ++ (List.range p.procedures.size).filter (p.hasVisibility .everywhere)).find?
    (p.isProcedureNamed name)

end Program

end StreamTransform
