import StreamTransform.Path.Matching
import StreamTransform.Processor.State

/-!
# Selection of templates

The first candidate of the group that matches the current node wins, then the
first template visible everywhere. A pattern that cannot be evaluated does not
match and is reported. A second match of equal priority makes a warning.
-/

namespace StreamTransform

/-- A template that matches, the position it gives the node, and the candidates after it. -/
structure Found where
  id : TemplateId
  position : Nat
  rest : List TemplateId

/-- What looking through candidates yields: the first match, and the faults met before it. -/
structure Search where
  found : Option Found
  faults : List (TemplateId × Path.Fault)

/-- Looks for the first candidate that matches. -/
def search (attempt : TemplateId → Except Path.Fault (Option Nat)) : List TemplateId → Search
  | [] => ⟨none, []⟩
  | id :: r =>
    match attempt id with
    | .ok (some position) => ⟨some ⟨id, position, r⟩, []⟩
    | .ok none => search attempt r
    | .error f =>
      let later := search attempt r
      ⟨later.found, (id, f) :: later.faults⟩

/-- Looks through the candidates of a group, and through the global ones if none matches. -/
def searchBoth (attempt : TemplateId → Except Path.Fault (Option Nat))
    (own global : List TemplateId) : Search :=
  let first := search attempt own
  match first.found with
  | some f => ⟨some f, first.faults⟩
  | none =>
    let second := search attempt global
    ⟨second.found, first.faults ++ second.faults⟩

namespace Program

def priorityOf (p : Program) (id : TemplateId) : Float :=
  (p.templates[id]?.map Template.priority).getD Decimal.nan

def sourceOf (p : Program) (id : TemplateId) : String :=
  (p.templates[id]?.map Template.source).getD ""

/-- The node where the body of a template starts. -/
def bodyOf (p : Program) (id : TemplateId) : Option NodeId :=
  p.templates[id]?.map Template.body

end Program

/-- The match of a template's pattern at the current node. -/
def State.matchTemplate (s : State) (p : Program) (hasChildren : Bool) (id : TemplateId) :
    Except Path.Fault (Option Nat) :=
  match p.templates[id]? with
  | some t => t.pattern.match? (s.patternContext p t.group hasChildren) s.depth
  | none => .ok none

/-- Whether an attempt to match succeeded. -/
def isMatch (result : Except Path.Fault (Option Nat)) : Bool :=
  match result with
  | .ok m => m.isSome
  | .error _ => false

/-- The next template of equal priority that matches too. -/
def rival? (p : Program) (attempt : TemplateId → Except Path.Fault (Option Nat)) (f : Found) :
    Option TemplateId :=
  (f.rest.takeWhile fun t => p.priorityOf t == p.priorityOf f.id).find? fun t =>
    isMatch (attempt t)

/-- What is found for the current node among the templates of a group that are not excluded. -/
def State.searchTemplates (s : State) (p : Program) (g : GroupId) (exclude : List TemplateId)
    (hasChildren : Bool) : Search :=
  let eligible := fun (ids : List TemplateId) => ids.filter fun id => !exclude.contains id
  searchBoth (s.matchTemplate p hasChildren) (eligible (p.group g).candidates)
    (eligible p.globals)

namespace Operation

/-- Warns of a template that could have been selected as well. -/
def warnOfRival (env : Environment) (hasChildren : Bool) (f : Found) : Operation Unit := do
  match rival? env.program ((← get).matchTemplate env.program hasChildren) f with
  | some r =>
    report env .warning
      (.ambiguous (env.program.priorityOf f.id) (env.program.sourceOf f.id)
        (env.program.sourceOf r))
      (env.program.bodyOf r)
  | none => pure ()

/-- The template for the current node, after reports on what was met on the way. -/
def selectTemplate (env : Environment) (g : GroupId) (exclude : List TemplateId)
    (hasChildren : Bool) : Operation (Option Found) := do
  let result := (← get).searchTemplates env.program g exclude hasChildren
  match result.found with
  | some f => warnOfRival env hasChildren f
  | none => pure ()
  result.faults.forM fun p =>
    report env .error (.evaluation p.2) (env.program.bodyOf p.1)
  pure result.found

end Operation

end StreamTransform
