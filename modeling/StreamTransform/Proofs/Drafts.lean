import StreamTransform.Proofs.Statements
import StreamTransform.Script.Assembly

/-!
# Programs from finished trees

The tree of a body is resolved first, and then laid out after the code so far. The declarations of
a group's variables make up one more body, which follows all others. What comes out is what linking
the nodes call by call comes to.
-/

namespace StreamTransform.Script

/-! ## Trees of bodies -/

namespace Resolve

/-- A container around content, located where the content starts and where it ends. -/
def enclose (container : Container) (content : Resolve (List Statement)) : Resolve Statement := do
  let opening ← location
  let inner ← content
  pure (.enclose opening container inner (← location))

def act (action : Action) : Resolve Statement := do pure (.act (← location) action)

def noContent : Resolve (List Statement) := pure []

end Resolve

open Resolve

mutual

/-- The names declared after a command, and its statement if it has one. -/
def Command.resolve (declared : List String) :
    Command → Resolve (List String × Option Statement)
  | .locate l => do
    Resolve.locate l
    pure (declared, none)
  | .process w d => do
    let delegation ← Resolve.delegation d
    match w with
    | .siblings =>
      let whilst ← optional pattern d.whilst
      let till ← optional pattern d.till
      pure (declared, some (← act (.processSiblings delegation whilst.join till.join)))
    | w => pure (declared, some (← act (.process w delegation)))
  | .call procedure d => do
    pure (declared, some (← act (.call procedure (← Resolve.delegation d))))
  | .literal n as content => do
    let n ← name n
    let as ← as.mapM fun p => do
      let attr ← name p.1
      pure (attr, ← textTemplate p.2)
    pure (declared, some (← enclose (.literal n as) (resolveAll [] content)))
  | .element n uri content => do
    let n ← nameTemplate n uri
    pure (declared, some (← enclose (.element n) (resolveAll [] content)))
  | .startElement n => do
    pure (declared, some (← act (.startElement (← nameTemplate n none))))
  | .endElement n => do
    pure (declared, some (← act (.endElement (← nameTemplate n none))))
  | .attr n select => do
    let e ← expression select
    let n ← nameTemplate n none
    pure (declared, some (← enclose (.attr n (.selected e)) noContent))
  | .attrContent n content => do
    let n ← nameTemplate n none
    pure (declared, some (← enclose (.attr n .written) (resolveAll [] content)))
  | .text s => do
    pure (declared, some (← act (.text s)))
  | .valueOf select separator => do
    let e ← expression select
    let separator ← textTemplate separator
    pure (declared, some (← act (.valueOf e separator)))
  | .copy as content => do
    pure (declared, some (← enclose (.copy as) (resolveAll [] content)))
  | .comment content => do
    pure (declared, some (← enclose .comment (resolveAll [] content)))
  | .processingInstruction target content => do
    let target ← textTemplate target
    pure (declared, some (← enclose (.processingInstruction target) (resolveAll [] content)))
  | .cdata content => do
    pure (declared, some (← enclose .cdata (resolveAll [] content)))
  | .document href content => do
    let href ← textTemplate href
    pure (declared, some (← enclose (.document href) (resolveAll [] content)))
  | .message select => do
    let e ← expression select
    pure (declared, some (← enclose (.message (.selected e) false) noContent))
  | .messageContent terminate content => do
    pure (declared, some (← enclose (.message .written terminate) (resolveAll [] content)))
  | .variable n select => do
    let declared ← declare declared n
    let e ← expression select
    pure (declared, some (← enclose (.variable n (.selected e) .body) noContent))
  | .variableContent n content => do
    let declared ← declare declared n
    pure (declared, some (← enclose (.variable n .written .body) (resolveAll [] content)))
  | .parameter n select => do
    let declared ← declare declared n
    let e ← expression select
    pure (declared, some (← enclose (.parameter n (some (.selected e)) .body) noContent))
  | .parameterContent n content => do
    let declared ← declare declared n
    pure (declared,
      some (← enclose (.parameter n (some .written) .body) (resolveAll [] content)))
  | .required n => do
    let declared ← declare declared n
    pure (declared, some (← enclose (.parameter n none .body) noContent))
  | .assign n select => do
    let e ← expression select
    pure (declared, some (← enclose (.assign n (.selected e)) noContent))
  | .assignContent n content => do
    pure (declared, some (← enclose (.assign n .written) (resolveAll [] content)))
  | .condition test yes => do
    let e ← expression test
    let opening ← location
    let yes ← resolveAll [] yes
    pure (declared, some (.condition opening e yes (← location)))
  | .either test yes no => do
    let e ← expression test
    let opening ← location
    let yes ← resolveAll [] yes
    let between ← location
    let no ← resolveAll [] no
    pure (declared, some (.either opening e yes between no (← location)))
  | .choose branches => do
    let opening ← location
    let branches ← resolveBranches branches
    pure (declared, some (.choose opening branches (← location)))
  | .loop test content => do
    let e ← expression test
    pure (declared, some (← enclose (.loop e) (resolveAll [] content)))
  | .each n select content => do
    let e ← expression select
    pure (declared, some (← enclose (.each n e) (resolveAll [n] content)))

/-- The statements of commands after which further names are declared. -/
def resolveAll (declared : List String) : List Command → Resolve (List Statement)
  | [] => pure []
  | c :: r => do
    let (declared, s) ← c.resolve declared
    let rest ← resolveAll declared r
    pure (s.toList ++ rest)

def Branch.resolve : Branch → Resolve StreamTransform.Branch
  | .when test content => do
    let e ← expression test
    let opening ← location
    let content ← resolveAll [] content
    pure (.when opening e content (← location))
  | .otherwise content => do
    let opening ← location
    let content ← resolveAll [] content
    pure (.otherwise opening content (← location))

def resolveBranches : List Branch → Resolve (List StreamTransform.Branch)
  | [] => pure []
  | b :: r => do
    let first ← b.resolve
    let rest ← resolveBranches r
    pure (first :: rest)

end

/-- The body with the commands as its content. -/
def resolveBody (content : List Command) : Resolve Body := do
  let opening ← location
  let statements ← resolveAll [] content
  pure ⟨opening, statements, ← location⟩

/-! ## Drafts -/

/-- A group in the making: the group so far, and the variables declared in it, the latest first. -/
structure GroupDraft where
  group : Group
  declared : List String := []
  initialisers : List Statement := []
  deriving Inhabited

structure Draft where
  reading : Reading := {}
  code : Array Node := #[]
  templates : Array Template := #[]
  procedures : Array Procedure := #[]
  groups : Array GroupDraft

abbrev Assemble := StateM Draft

namespace Assemble

def resolving {α : Type} (r : Resolve α) : Assemble α :=
  modifyGet fun d => let (a, reading) := r.run d.reading; (a, { d with reading := reading })

def modifyGroup (g : GroupId) (f : GroupDraft → GroupDraft) : Assemble Unit :=
  modify fun d => { d with groups := d.groups.modify g f }

def group (g : GroupId) : Assemble GroupDraft := do pure ((← get).groups.getD g default)

/-- Lays a body out after the code so far. -/
def layOut (b : Body) : Assemble NodeId :=
  modifyGet fun d =>
    let start := d.code.size
    (start, { d with code := d.code ++ b.code start })

def addTemplate (t : Template) : Assemble Unit := do
  let id := (← get).templates.size
  modify fun d => { d with templates := d.templates.push t }
  modifyGroup t.group fun g =>
    { g with group := { g.group with templates := g.group.templates ++ [id] } }

def addProcedure (p : Procedure) : Assemble Unit := do
  let id := (← get).procedures.size
  modify fun d => { d with procedures := d.procedures.push p }
  modifyGroup p.group fun g =>
    { g with group := { g.group with procedures := g.group.procedures ++ [id] } }

/-- A new group in another one. -/
def addGroup (name : String) (parent : GroupId) : Assemble GroupId := do
  let id := (← get).groups.size
  modify fun d => { d with groups := d.groups.push ⟨
    { (default : Group) with name := some name, parent := some parent }, [], []⟩ }
  modifyGroup parent fun g =>
    { g with group := { g.group with children := g.group.children ++ [id] } }
  pure id

/-- Declares a variable of a group; a second declaration of its name does not count. -/
def declareIn (g : GroupId) (name : String) (container : Container) : Assemble Unit := do
  if (← group g).declared.contains name then
    resolving (Resolve.problem (.duplicateGroupVariable name))
  else
    let s ← resolving (Resolve.enclose container Resolve.noContent)
    modifyGroup g fun d =>
      { d with declared := name :: d.declared, initialisers := s :: d.initialisers }

end Assemble

open Assemble

/-- Whether a group has the name. -/
def Draft.hasGroup (d : Draft) (name : String) : Bool :=
  d.groups.any fun g => g.group.name == some name

mutual

def Declaration.assemble (g : GroupId) : Declaration → Assemble Unit
  | .locate l => resolving (Resolve.locate l)
  | .bind q uri =>
    modify fun d => { d with reading := { d.reading with
      namespaces := d.reading.namespaces.bind q uri } }
  | .template source options content => do
    let pattern ← resolving (Resolve.pattern source)
    let b ← resolving (resolveBody content)
    let start ← layOut b
    match pattern with
    | none => pure ()
    | some pattern =>
      pattern.alternatives.forM fun p =>
        addTemplate ⟨p, source, options.priority.getD p.priority, options.visibility,
          options.recursionEntry, g, b.opening, start⟩
  | .procedure name visibility content => do
    let d ← get
    if (← group g).group.procedures.any fun id => d.procedures[id]?.any fun p => p.name == name then
      resolving (Resolve.problem (.duplicateProcedure name))
    let b ← resolving (resolveBody content)
    let start ← layOut b
    addProcedure ⟨name, g, visibility, b.opening, start⟩
  | .group name members => do
    if (← get).hasGroup name then resolving (Resolve.problem (.duplicateGroup name))
    let id ← addGroup name g
    assembleAll id members
  | .variable name select => do
    let e ← resolving (Resolve.expression select)
    declareIn g name (.variable name (.selected e) (.group g))
  | .parameter name select => do
    let e ← resolving (Resolve.optional Resolve.expression select)
    let origin := match e with
      | some e => Origin.selected e
      | none => Origin.written
    declareIn g name (.parameter name (some origin) (.group g))
  | .required name => declareIn g name (.parameter name none (.group g))

def assembleAll (g : GroupId) : List Declaration → Assemble Unit
  | [] => pure ()
  | d :: r => do
    d.assemble g
    assembleAll g r

end

/-- Lays out the declarations of a group's variables, if it has any. -/
def layOutInitialiser (g : GroupId) : Assemble Unit := do
  let d ← group g
  if d.initialisers.isEmpty then pure ()
  else
    let l ← resolving Resolve.location
    let start ← layOut ⟨l, d.initialisers.reverse, l⟩
    modifyGroup g fun d => { d with group := { d.group with initialiser := some start } }

def Draft.program (d : Draft) : Program where
  code := d.code
  templates := d.templates
  procedures := d.procedures
  groups := completed d.templates (d.groups.map GroupDraft.group)
  globals := everywhere d.templates

/-- A group of a draft with its ancestors and its candidates. -/
def Draft.complete (d : Draft) (g : GroupId) (e : GroupDraft) : Group :=
  { e.group with
    ancestry := ancestryOf (d.groups.map GroupDraft.group) d.groups.size (some g)
    candidates := ranked d.templates
      (visibleIn d.templates (d.groups.map GroupDraft.group) e.group) }

theorem Draft.getElem?_program (d : Draft) (g : GroupId) :
    d.program.groups[g]? = d.groups[g]?.map (d.complete g) := by
  rw [Draft.program, completed, Array.getElem?_mapIdx, Array.getElem?_map, Array.size_map,
    Option.map_map]
  rfl

/-- Nothing but the outermost group. -/
def Draft.initial : Draft where
  groups := #[⟨default, [], []⟩]

/-- The draft of a whole script. -/
def draft (declarations : List Declaration) : Draft :=
  let assembled : Assemble Unit := do
    assembleAll Program.rootGroup declarations
    (List.range (← get).groups.size).forM layOutInitialiser
  (assembled.run Draft.initial).2

/-- The program of the draft, or all problems in order. -/
def assembled (declarations : List Declaration) : Except Fault Program :=
  let d := draft declarations
  if d.reading.problems.isEmpty then .ok d.program
  else .error (.defective d.reading.problems.reverse)

/-! ## What declarations leave true -/

namespace Assemble

variable {α β : Type}

/-- From a draft with one property, what the assembling leads to has the other. -/
def Leads (P : Draft → Prop) (m : Assemble α) (Q : α → Draft → Prop) : Prop :=
  ∀ d, P d → Q (m.run d).1 (m.run d).2

variable {P : Draft → Prop} {Q : α → Draft → Prop} {R : β → Draft → Prop}

theorem leads_pure {a : α} (h : ∀ d, P d → Q a d) : Leads P (pure a) Q := h

theorem leads_bind {m : Assemble α} {k : α → Assemble β} (h : Leads P m Q)
    (hk : ∀ a, Leads (Q a) (k a) R) : Leads P (m >>= k) R := fun d hd => hk _ _ (h d hd)

theorem leads_get {Q : Draft → Draft → Prop} (h : ∀ d, P d → Q d d) :
    Leads P (get : Assemble Draft) Q := h

theorem leads_modify {f : Draft → Draft} {Q : PUnit → Draft → Prop} (h : ∀ d, P d → Q ⟨⟩ (f d)) :
    Leads P (modify f) Q := h

theorem leads_forM {γ : Type} {k : γ → Assemble PUnit} (h : ∀ c, Leads P (k c) fun _ => P)
    (cs : List γ) : Leads P (cs.forM k) fun _ => P := by
  induction cs with
  | nil => exact leads_pure fun _ h => h
  | cons c cs ih => exact leads_bind (h c) fun _ => ih

theorem leads_and {P' : Draft → Prop} {Q' : α → Draft → Prop} {m : Assemble α}
    (h : Leads P m Q) (h' : Leads P' m Q') :
    Leads (fun d => P d ∧ P' d) m fun a d => Q a d ∧ Q' a d := fun d hd => ⟨h d hd.1, h' d hd.2⟩

theorem leads_group (g : GroupId) : Leads P (group g) fun _ => P := fun _ h => h

theorem leads_resolving (r : Resolve α) (hP : ∀ d reading, P d → P { d with reading := reading }) :
    Leads P (resolving r) fun _ => P := fun d hd => hP d _ hd

/-! ### Whole scripts -/

/-- There are at least so many groups. -/
def Sized (n : Nat) (d : Draft) : Prop := n ≤ d.groups.size

/-- A property of drafts, while there are at least so many groups. -/
def Within (I : Draft → Prop) (n : Nat) (d : Draft) : Prop := I d ∧ Sized n d

section
variable {n : Nat}

theorem sized_resolving (r : Resolve α) : Leads (Sized n) (resolving r) fun _ => Sized n :=
  leads_resolving r fun _ _ h => h

theorem sized_layOut (b : Body) : Leads (Sized n) (layOut b) fun _ => Sized n := fun _ h => h

theorem sized_modifyGroup (g : GroupId) (f : GroupDraft → GroupDraft) :
    Leads (Sized n) (modifyGroup g f) fun _ => Sized n :=
  leads_modify fun d h => by
    change n ≤ (d.groups.modify g f).size
    rw [Array.size_modify]
    exact h

theorem sized_addTemplate (t : Template) : Leads (Sized n) (addTemplate t) fun _ => Sized n :=
  leads_bind (leads_get fun _ h => h) fun _ => leads_bind (leads_modify fun _ h => h) fun _ =>
    sized_modifyGroup t.group _

theorem sized_addProcedure (q : Procedure) :
    Leads (Sized n) (addProcedure q) fun _ => Sized n :=
  leads_bind (leads_get fun _ h => h) fun _ => leads_bind (leads_modify fun _ h => h) fun _ =>
    sized_modifyGroup q.group _

theorem sized_addGroup (name : String) (parent : GroupId) :
    Leads (Sized n) (addGroup name parent) fun id => Sized (max n (id + 1)) := by
  intro d h
  change max n (d.groups.size + 1) ≤ ((d.groups.push _).modify parent _).size
  rw [Array.size_modify, Array.size_push]
  exact Nat.max_le.mpr ⟨Nat.le_succ_of_le h, Nat.le_refl _⟩

theorem sized_declareIn (g : GroupId) (name : String) (c : Container) :
    Leads (Sized n) (declareIn g name c) fun _ => Sized n := by
  refine leads_bind (leads_group g) fun e => ?_
  split
  · exact sized_resolving _
  · exact leads_bind (sized_resolving _) fun s => sized_modifyGroup g _

theorem sized_layOutInitialiser (g : GroupId) :
    Leads (Sized n) (layOutInitialiser g) fun _ => Sized n := by
  refine leads_bind (leads_group g) fun e => ?_
  split
  · exact leads_pure fun _ h => h
  · exact leads_bind (sized_resolving _) fun l => leads_bind (sized_layOut _) fun start =>
      sized_modifyGroup g _

theorem sized_template (g : GroupId) (source : String) (options : TemplateOptions)
    (content : List Command) :
    Leads (Sized n) ((Declaration.template source options content).assemble g)
      fun _ => Sized n := by
  refine leads_bind (sized_resolving _) fun pattern => leads_bind (sized_resolving _) fun b =>
    leads_bind (sized_layOut b) fun start => ?_
  split
  · exact leads_pure fun _ h => h
  · exact leads_forM (fun p => sized_addTemplate _) _

theorem sized_procedure (g : GroupId) (name : String) (visibility : Visibility)
    (content : List Command) :
    Leads (Sized n) ((Declaration.procedure name visibility content).assemble g)
      fun _ => Sized n := by
  have laidOut : Leads (Sized n) (do
      let b ← resolving (resolveBody content)
      let start ← layOut b
      addProcedure ⟨name, g, visibility, b.opening, start⟩) fun _ => Sized n :=
    leads_bind (sized_resolving _) fun b => leads_bind (sized_layOut b) fun start =>
      sized_addProcedure _
  refine leads_bind (leads_get fun _ h => h) fun d => leads_bind (leads_group g) fun e => ?_
  split
  · exact leads_bind (sized_resolving _) fun _ => laidOut
  · exact laidOut

end

/-- The container declares a variable of the group, and has no content. -/
def DeclaresIn (g : GroupId) (c : Container) : Prop :=
  (∃ name e, c = .variable name (.selected e) (.group g)) ∨
    (∃ name o, c = .parameter name o (.group g))

/-- What every declaration in a group that exists leaves true of the draft. -/
structure Kept (I : Draft → Prop) : Prop where
  reading : ∀ d r, I d → I { d with reading := r }
  template : ∀ {n g}, g < n → ∀ source options content,
    Leads (Within I n) ((Declaration.template source options content).assemble g) fun _ => I
  procedure : ∀ {n g}, g < n → ∀ name visibility content,
    Leads (Within I n) ((Declaration.procedure name visibility content).assemble g) fun _ => I
  group : ∀ {n g}, g < n → ∀ name, Leads (Within I n) (addGroup name g) fun _ => I
  declaration : ∀ {n g}, g < n → ∀ name {c}, DeclaresIn g c →
    Leads (Within I n) (declareIn g name c) fun _ => I
  initialiser : ∀ g, Leads I (layOutInitialiser g) fun _ => I

namespace Kept

variable {I : Draft → Prop}

theorem reads (h : Kept I) (n : Nat) (r : Resolve α) :
    Leads (Within I n) (resolving r) fun _ => Within I n :=
  leads_and (leads_resolving r h.reading) (sized_resolving r)

theorem declares (h : Kept I) {n : Nat} {g : GroupId} (hn : g < n) (name : String)
    {c : Container} (hc : DeclaresIn g c) :
    Leads (Within I n) (declareIn g name c) fun _ => Within I n := fun d hd =>
  ⟨h.declaration hn name hc d hd, sized_declareIn g name c d hd.2⟩

end Kept

mutual

theorem Kept.assembles {I : Draft → Prop} (h : Kept I) (g : GroupId) :
    ∀ (d : Declaration) (n : Nat), g < n → Leads (Within I n) (d.assemble g) fun _ => Within I n
  | .locate l, n, _ => h.reads n _
  | .bind q uri, n, _ => leads_modify fun d hd => ⟨h.reading d _ hd.1, hd.2⟩
  | .template source options content, _, hn => fun d hd =>
    ⟨h.template hn source options content d hd, sized_template g source options content d hd.2⟩
  | .procedure name visibility content, _, hn => fun d hd =>
    ⟨h.procedure hn name visibility content d hd,
      sized_procedure g name visibility content d hd.2⟩
  | .group name members, n, hn => by
    -- the members are declared in the new group, so there is one group more for them
    have added : Leads (Within I n) (do
        let id ← addGroup name g
        assembleAll id members) fun _ => Within I n := by
      refine leads_bind (Q := fun id => Within I (max n (id + 1)))
        (fun d hd => ⟨h.group hn name d hd, sized_addGroup name g d hd.2⟩) fun id d hd => ?_
      obtain ⟨hi, hs⟩ := h.assembles_all id members _ (Nat.le_max_right _ _) d hd
      exact ⟨hi, Nat.le_trans (Nat.le_max_left _ _) hs⟩
    refine leads_bind (leads_get fun _ h => h) fun d => ?_
    split
    · exact leads_bind (h.reads n _) fun _ => added
    · exact added
  | .variable name select, n, hn =>
    leads_bind (h.reads n _) fun e => h.declares hn name (.inl ⟨name, e, rfl⟩)
  | .parameter name select, n, hn =>
    leads_bind (h.reads n _) fun e => h.declares hn name (.inr ⟨name, _, rfl⟩)
  | .required name, _, hn => h.declares hn name (.inr ⟨name, none, rfl⟩)

theorem Kept.assembles_all {I : Draft → Prop} (h : Kept I) (g : GroupId) :
    ∀ (ds : List Declaration) (n : Nat), g < n →
      Leads (Within I n) (assembleAll g ds) fun _ => Within I n
  | [], _, _ => leads_pure fun _ hd => hd
  | d :: ds, n, hn =>
    leads_bind (h.assembles g d n hn) fun _ => h.assembles_all g ds n hn

end

/-- What declarations leave true holds of the draft of every script. -/
theorem Kept.of_draft {I : Draft → Prop} (h : Kept I) (h₀ : I Draft.initial)
    (ds : List Declaration) : I (draft ds) := by
  have whole : Leads (Within I 1) (do
      assembleAll Program.rootGroup ds
      (List.range (← get).groups.size).forM layOutInitialiser) fun _ => Within I 1 :=
    leads_bind (h.assembles_all _ ds 1 Nat.zero_lt_one) fun _ => leads_bind (leads_get fun _ h => h)
      fun d => leads_forM (fun g d hd => ⟨h.initialiser g d hd.1,
        sized_layOutInitialiser g d hd.2⟩) _
  exact (whole _ ⟨h₀, Nat.le_refl _⟩).1

end Assemble

end StreamTransform.Script
