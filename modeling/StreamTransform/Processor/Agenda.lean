import StreamTransform.Processor.Execution
import StreamTransform.Processor.Selection

/-!
# The agenda

What a transformation still has to do for an input event is a list of tasks.
Performing the first one yields the tasks that take its place. An activation
runs one instruction at a time; when it is parked it leaves the agenda and waits
at its node. A fault discards the agenda. A run can also end because its fuel is
spent, which is an outcome of its own.
-/

namespace StreamTransform

/-- What follows the end of a node. -/
inductive Closing where
  /-- Siblings: activations that wait for them are handed to the parent. -/
  | sibling
  /-- Nothing, as for the root and attributes: every activation is resumed. -/
  | final
  /-- The node was open again for activations that waited for its siblings. -/
  | restored
  deriving Repr, DecidableEq

inductive Task where
  /-- Starts the document. -/
  | begin
  /-- Starts the end of the document, unless an element is open. -/
  | conclude
  /-- Ends the output. -/
  | endOutput
  /-- Delivers what is held back; `closing` says that the end of the pending element follows. -/
  | flush (closing : Bool)
  /-- Holds a start tag back. -/
  | hold (name : QName) (attributes : List Attribute)
  /-- Checks an end tag of the input. -/
  | checkEnd (name : QName)
  /-- Ends the current element, or one of the content that is skipped. -/
  | leave
  /-- Meets a node of the input. -/
  | meet (content : Content) (hasChildren : Bool)
  /-- Offers a node to those who wait for siblings, and processes or skips it. -/
  | offer (event : Event) (hasChildren : Bool)
  /-- Runs the best template of a group for the current node, or the built-in rule. -/
  | dispatch (handover : Handover) (exclude : List TemplateId) (hasChildren : Bool)
  /-- Gives a group a fresh frame and declares its variables. -/
  | enterGroup (group : GroupId)
  | run (activation : Activation)
  /-- Processes attributes of the current element, each with its place. -/
  | attributes (rest : List (Attribute × Nat)) (handover : Handover)
  /-- Goes on with the activation above so many others, if no further one is parked. -/
  | selfDone (below : Nat)
  /-- Resumes those who wait for further children of the current node, then ends it. -/
  | close (mode : Closing)
  /-- Resumes the activations of the current node, then takes it off the stack. -/
  | unwind (mode : Closing)

namespace Operation

variable (env : Environment)

/-! ## Activations -/

/-- Parks an activation at the current node. -/
def park (a : Activation) : Operation Unit :=
  modifyCurrent fun n => { n with activations := a :: n.activations }

def parkForChildren (a : Activation) (h : Handover) : Operation Unit :=
  modifyCurrent fun n =>
    { n with
      children := some h
      activations := { a with phase := .awaitingChildren } :: n.activations }

/-- The attributes with their places, from 1. -/
def withPlaces (as : List Attribute) : List (Attribute × Nat) := as.zipIdx 1

/-- Does what an activation asks for. It is parked, unless it asks for attributes. -/
def suspend (a : Activation) (r : Request) : Operation (List Task) := do
  match r.walk with
  | .attributes =>
    let n ← current
    pure [.attributes (withPlaces n.event.content.attributes) r.handover, .run a]
  | .children =>
    parkForChildren a r.handover
    pure []
  | .siblings =>
    park { a with phase := .awaitingSiblings ⟨r.handover, r.instruction⟩ }
    pure []
  | .self =>
    let n ← current
    let exclude := a.template?.toList ++ n.activations.filterMap Activation.template?
    park { a with phase := .awaitingSelf }
    pure [.dispatch r.handover exclude a.hasChildren, .selfDone n.activations.length]

/-- Ends an activation. -/
def conclude (a : Activation) : Operation Unit := do
  match a.entered with
  | some g => modify fun s => { s with frames := s.frames.pop g }
  | none => pure ()
  match a.template? with
  | some id => note (.leaveTemplate id (env.program.sourceOf id))
  | none => pure ()

/-- Calls a procedure from an activation, unless too many bodies are in execution. -/
def enterProcedure (a : Activation) (id : ProcedureId) (passed : Bindings) :
    Operation (List Task) := do
  let limit := env.configuration.recursionLimit
  if limit ≤ a.frames.length then fatal env (.recursionLimit limit)
  else
    match env.program.procedures[id]? with
    | some p => pure [.run { a with frames := .start p.group p.body passed :: a.frames }]
    | none => pure [.run a]

/-- Runs one instruction of an activation, or ends it if it has no body left. -/
def advance (a : Activation) : Operation (List Task) := do
  match a.frames with
  | [] =>
    conclude env a
    pure []
  | f :: rest =>
    match env.program.code[f.cursor]? with
    | none => pure [.run { a with frames := rest }]
    | some n =>
      match ← execute env a f n with
      | .on f => pure [.run { a with frames := f :: rest }]
      | .done => pure [.run { a with frames := rest }]
      | .call f procedure passed =>
        enterProcedure env { a with frames := f :: rest } procedure passed
      | .walk f r =>
        suspend { a with
          frames := f :: rest
          suspendedBy := if r.walk.suspends then some r.walk else a.suspendedBy } r

/-- Lets a parked activation go on. The built-in rule has only its end tag left. -/
def resume (a : Activation) : Operation (List Task) := do
  match a.role with
  | .builtIn copied =>
    match copied with
    | some n => emit env (.closing n) none
    | none => pure ()
    pure []
  | .template _ | .initialiser _ => pure [.run { a with phase := .running }]

/-- Goes on after a walk over the node itself, unless the templates it ran are still parked. -/
def selfDone (below : Nat) : Operation (List Task) := do
  match (← current).activations with
  | a :: rest =>
    if rest.length = below then
      modifyCurrent fun n => { n with activations := rest }
      pure [.run { a with phase := .running }]
    else pure []
  | [] => pure []

/-! ## Templates -/

/-- A frame for a group, and the declaration of its variables. Only the outermost group has
parameters from outside. -/
def enterGroup (g : GroupId) : Operation (List Task) := do
  modify fun s => { s with frames := s.frames.push g }
  match (env.program.group g).initialiser with
  | none => pure []
  | some b =>
    let s ← get
    let passed := if g = Program.rootGroup then s.parameters else []
    pure [.run (.start (.initialiser g) s.depth 1 false [.start g b passed])]

/-- The built-in rule: elements and the root are descended into, the rest is copied as far as
configured. -/
def builtIn (h : Handover) (hasChildren : Bool) : Operation Unit := do
  let n ← current
  let pass := env.configuration.passThrough
  let descend := fun (copied : Option QName) => do
    parkForChildren (.start (.builtIn copied) (← get).depth 1 hasChildren []) h
  match n.event.content with
  | .root => descend none
  | .element name as =>
    if pass.copiesMarkup then
      emit env (.opening name as) none
      descend (some name)
    else descend none
  | .text s => if pass.copiesText then emit env (.characters s) none else pure ()
  | .comment s => if pass.copiesAll then emit env (.comment s) none else pure ()
  | .instruction target data =>
    if pass.copiesAll then emit env (.instruction target data) none else pure ()
  | .attr a _ => if pass.copiesMarkup then addAttribute env a none else pure ()

/-- Starts a template for the current node. -/
def startTemplate (f : Found) (passed : Bindings) (hasChildren : Bool) :
    Operation (List Task) := do
  match env.program.templates[f.id]? with
  | none => pure []
  | some t =>
    let n ← current
    note (.enterTemplate f.id t.source n.event)
    let a := Activation.start (.template f.id) (← get).depth f.position hasChildren
      [.start t.group t.body passed]
    if t.recursionEntry then pure [.enterGroup t.group, .run { a with entered := some t.group }]
    else pure [.run a]

def dispatch (h : Handover) (exclude : List TemplateId) (hasChildren : Bool) :
    Operation (List Task) := do
  match ← selectTemplate env h.group exclude hasChildren with
  | some f => startTemplate env f h.passed hasChildren
  | none =>
    builtIn env h hasChildren
    pure []

/-! ## Nodes -/

/-- Makes an attribute a node of its own and processes it, then the attributes after it. -/
def attributes (rest : List (Attribute × Nat)) (h : Handover) : Operation (List Task) := do
  match rest with
  | [] => pure []
  | (attr, place) :: rest =>
    let e ← newEvent (.attr attr place)
    enterNode (.fresh e)
    pure [.dispatch h [] false, .close .final, .attributes rest h]

/-- Whether the patterns of a request let it take a node, judged with the node on the stack. -/
def accepts (whilst till : Option Path.Pattern) (ctx : Path.Context) :
    Except Path.Fault Bool := do
  let inside ← match whilst with
    | some p => do pure (← p.match? ctx ctx.depth).isSome
    | none => pure true
  if inside then
    match till with
    | some p => do pure (← p.match? ctx ctx.depth).isNone
    | none => pure true
  else pure false

/-- What the patterns of a request see, with the locals of the frame that waits. -/
def waitContext (s : State) (w : SiblingWait) (r : SiblingRequest) (e : Event) :
    Path.Context :=
  let f := w.activations.head?.bind fun a => a.frames.head?
  let group := (f.map Frame.group).getD r.handover.group
  { ancestors := s.path ++ [e]
    lookup := findVariable ((f.map Frame.scopes).getD []) s.frames (env.program.group group).ancestry
    position := 1
    hasChildNodes := false }

/-- Whether a request takes a node; a pattern that cannot be evaluated is reported and does not. -/
def takes (w : SiblingWait) (r : SiblingRequest) (e : Event) : Operation Bool := do
  match env.program.code[r.instruction]?.map Node.instruction with
  | some (.act (.processSiblings _ whilst till)) =>
    let ctx := waitContext env (← get) w r e
    settle env r.instruction false (accepts whilst till ctx)
  | _ => pure true

/-- Opens a child of the current node and processes it. -/
def openChild (e : Event) (h : Handover) (hasChildren : Bool) : Operation (List Task) := do
  enterNode (.fresh e)
  pure (.dispatch h [] hasChildren ::
    if e.content.isElement then [] else [.close .sibling])

/-- Passes over a child that nobody asked for, with all its content. -/
def skip (e : Event) : Operation Unit :=
  if e.content.isElement then modify fun s => { s with skipDepth := 1 } else pure ()

/-- Opens the node of waiters again, to resume them. -/
def restore (w : SiblingWait) : Operation Unit :=
  modify fun s => { s with nodes := .ofWait w :: s.nodes }

/-- Takes the waiters that were parked last off the current node and opens their node again. -/
def releaseWait (w : SiblingWait) (rest : List SiblingWait) : Operation Unit := do
  modifyCurrent fun n => { n with waits := rest }
  restore w

/-- Offers a node to the waiters of the current node, the one parked last first. One that declines
is resumed; the first that accepts decides how the node is processed. -/
def offer (e : Event) (hasChildren : Bool) : Operation (List Task) := do
  let n ← current
  match n.waits with
  | [] =>
    match n.children with
    | some h => openChild e h hasChildren
    | none =>
      skip e
      pure []
  | w :: rest =>
    match w.request? with
    | none =>
      releaseWait w rest
      pure [.close .restored, .offer e hasChildren]
    | some r =>
      if ← takes env w r e then openChild e r.handover hasChildren
      else
        releaseWait w rest
        pure [.close .restored, .offer e hasChildren]

/-- Meets a node: counts it with its parent and offers it, unless it belongs to skipped content. -/
def meet (c : Content) (hasChildren : Bool) : Operation (List Task) := do
  let s ← get
  if 0 < s.skipDepth then
    if c.isElement then modify fun s => { s with skipDepth := s.skipDepth + 1 }
    pure []
  else
    match s.nodes with
    | [] => fatal env .outsideDocument
    | n :: _ =>
      let e ← newEvent c
      let (tally, e) := Event.register n.tally e
      modifyCurrent fun n => { n with tally := tally }
      pure [.offer e hasChildren]

def close (mode : Closing) : Operation (List Task) := do
  match (← get).nodes with
  | [] => pure [.unwind mode]
  | n :: _ =>
    match n.waits with
    | [] => pure [.unwind mode]
    | w :: rest =>
      releaseWait w rest
      pure [.close .restored, .close mode]

/-- Takes the current node off the stack. What is still parked waits for its siblings. -/
def popNode (mode : Closing) : Operation Unit := do
  let s ← get
  match s.nodes with
  | [] => throw .unbalancedNode
  | n :: rest =>
    set { s with nodes := rest }
    if mode ≠ .restored then note (.leaveNode n.event s.depth)
    if !n.activations.isEmpty && !rest.isEmpty then
      modifyCurrent fun parent =>
        { parent with waits := ⟨n.event, n.activations⟩ :: parent.waits }

/-- Whether an activation stays parked beyond the end of its node. -/
def outlives (mode : Closing) (a : Activation) : Bool :=
  mode == .sibling && a.siblingRequest?.isSome

def unwind (mode : Closing) : Operation (List Task) := do
  match (← get).nodes with
  | [] =>
    popNode mode
    pure []
  | n :: _ =>
    match n.activations with
    | [] =>
      popNode mode
      pure []
    | a :: rest =>
      if outlives mode a then
        popNode mode
        pure []
      else
        modifyCurrent fun n => { n with children := none, activations := rest }
        let tasks ← resume env a
        pure (tasks ++ [.unwind mode])

/-! ## Input -/

/-- The text held back, unless it is empty or white space to be dropped. -/
def takeText : Operation (Option String) := do
  let text := (← get).pendingText
  modify fun s => { s with pendingText := "" }
  if text.isEmpty || (env.configuration.stripSpace && text.toList.all Text.isXmlSpace) then
    pure none
  else pure (some text)

def flush (closing : Bool) : Operation (List Task) := do
  let text ← takeText env
  let start := (← get).pendingStart
  modify fun s => { s with pendingStart := none }
  let element := match start with
    | some (n, as) => [Task.meet (.element n as) (text.isSome || !closing)]
    | none => []
  let leaf := match text with
    | some t => [Task.meet (.text t) false]
    | none => []
  pure (element ++ leaf)

def hold (n : QName) (as : List Attribute) : Operation Unit :=
  modify fun s => { s with inputOpen := n :: s.inputOpen, pendingStart := some (n, as) }

def checkEnd (n : QName) : Operation Unit := do
  match (← get).inputOpen with
  | [] => fatal env (.inputUnopened n)
  | o :: rest =>
    modify fun s => { s with inputOpen := rest }
    if o.same n then pure () else fatal env (.inputMismatch n o)

def leave : Operation (List Task) := do
  let s ← get
  if 0 < s.skipDepth then
    set { s with skipDepth := s.skipDepth - 1 }
    pure []
  else pure [.close .sibling]

/-- Opens the output and the root, and gives every group its first frame. -/
def begin : Operation (List Task) := do
  note .startDocument
  emit env .startDocument none
  let root ← newEvent .root
  enterNode (.fresh root)
  pure ((List.range env.program.groups.size).map Task.enterGroup
    ++ [.dispatch ⟨Program.rootGroup, []⟩ [] true])

def concludeInput : Operation (List Task) := do
  match (← get).inputOpen with
  | n :: _ => fatal env (.inputUnclosed n)
  | [] => pure [.flush false, .close .final, .endOutput]

def endOutput : Operation Unit := do
  emit env .endDocument none
  note .endDocument

end Operation

/-- Performs a task and yields the tasks that take its place. -/
def Task.perform (env : Environment) : Task → Operation (List Task)
  | begin => Operation.begin env
  | conclude => Operation.concludeInput env
  | endOutput => do
    Operation.endOutput env
    pure []
  | flush closing => Operation.flush env closing
  | hold n as => do
    Operation.hold n as
    pure []
  | checkEnd n => do
    Operation.checkEnd env n
    pure []
  | leave => Operation.leave
  | meet c hasChildren => Operation.meet env c hasChildren
  | offer e hasChildren => Operation.offer env e hasChildren
  | dispatch h exclude hasChildren => Operation.dispatch env h exclude hasChildren
  | enterGroup g => Operation.enterGroup env g
  | run a => Operation.advance env a
  | attributes rest h => Operation.attributes rest h
  | selfDone below => Operation.selfDone below
  | close mode => Operation.close mode
  | unwind mode => Operation.unwind env mode

/-- How the work on an agenda ends. -/
inductive Outcome where
  | completed
  | failed (fault : Fault)
  /-- The fuel was spent before the agenda was empty. -/
  | unfinished
  deriving Repr

/-- Performs tasks until none is left, a fault ends the work, or the fuel is spent. -/
def carryOut (env : Environment) : Nat → List Task → State → Outcome × State
  | _, [], s => (.completed, s)
  | 0, _ :: _, s => (.unfinished, s)
  | fuel + 1, t :: rest, s =>
    match ((t.perform env).run).run s with
    | (.ok tasks, s) => carryOut env fuel (tasks ++ rest) s
    | (.error f, s) => (.failed f, s)

/-- More fuel keeps a result: only work that was not finished goes on. -/
theorem carryOut_stable (env : Environment) {fuel : Nat} {ts : List Task} {s s' : State}
    {o : Outcome} (h : carryOut env fuel ts s = (o, s')) (ended : o ≠ .unfinished) (more : Nat) :
    carryOut env (fuel + more) ts s = (o, s') := by
  induction fuel generalizing ts s with
  | zero =>
    cases ts with
    | nil => cases more <;> simpa [carryOut] using h
    | cons t ts =>
      simp only [carryOut, Prod.mk.injEq] at h
      exact absurd h.1.symm ended
  | succ fuel ih =>
    cases ts with
    | nil => simpa [carryOut, Nat.succ_add] using h
    | cons t ts =>
      rw [Nat.succ_add]
      simp only [carryOut] at h ⊢
      split at h
      · exact ih h
      · exact h

end StreamTransform
