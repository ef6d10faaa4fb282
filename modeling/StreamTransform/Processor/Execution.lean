import StreamTransform.Program.ComputedName
import StreamTransform.Processor.State
import StreamTransform.Text.Search

/-!
# Execution of instructions

What one instruction does in a frame, and where control goes. A container
enters its content or skips it; the closing node finishes what the opening node
began. A walk or a call hands control over; the frame already stands at the
instruction that follows.
-/

namespace StreamTransform

/-- A walk that an activation asks for. -/
structure Request where
  walk : Walk
  handover : Handover
  instruction : NodeId
  deriving Repr

/-- Where control goes after an instruction. -/
inductive Flow where
  | on (frame : Frame)
  | walk (frame : Frame) (request : Request)
  | call (frame : Frame) (procedure : ProcedureId) (passed : Bindings)
  | done
  deriving Repr

/-- A comment may neither hold two hyphens in a row nor end in one. -/
def commentText (s : String) : String :=
  let spaced := Text.spaceBetween '-' '-' s.toList
  String.ofList (if spaced.getLast? == some '-' then spaced ++ [' '] else spaced)

/-- The data of a processing instruction may not hold its end mark. -/
def instructionData (s : String) : String :=
  String.ofList (Text.spaceBetween '?' '>' s.toList)

def isXmlTarget (target : String) : Bool :=
  target.toList.map Char.toLower == ['x', 'm', 'l']

/-- The output event for a copy of a node that has no content and is no attribute. -/
def copyOfLeaf (c : Content) : Output.Event :=
  match c with
  | .comment s => .comment s
  | .instruction target data => .instruction target data
  | .root | .element .. | .attr .. | .text _ => .characters c.value

namespace Operation

variable (env : Environment) (a : Activation) (f : Frame)

def evaluate (e : Path.Expr) : Operation Value := do
  settle env f.cursor .empty (e.evaluate ((← get).context env.program a f) a.depth)

def evaluateText (t : Path.TextTemplate) : Operation String := do
  settle env f.cursor "" (t.evaluate ((← get).context env.program a f) a.depth)

/-- The values of the arguments that are handed over; of equal names the last one counts. -/
def evaluateArguments (arguments : List (String × Path.Expr)) : Operation Bindings :=
  arguments.foldlM (fun passed p => do pure (passed.insert p.1 (← evaluate env a f p.2))) []

/-- The name that a template stands for, unless it is no valid name. -/
def evaluateName (t : NameTemplate) : Operation (Option QName) := do
  let lexical ← evaluateText env a f t.lexical
  let uri ← match t.uri with
    | some u => do pure (some (← evaluateText env a f u))
    | none => pure none
  match computedName lexical uri t.namespaces with
  | .ok n => pure (some n)
  | .error fault =>
    report env .error fault (some f.cursor)
    pure none

def emitHere (e : Output.Event) : Operation Unit := emit env e (some f.cursor)

/-- Reports an error at the current instruction. -/
def reportHere (fault : Fault) : Operation Unit := report env .error fault (some f.cursor)

/-- Emits text, unless there is none. -/
def emitText (s : String) : Operation Unit :=
  if s.isEmpty then pure () else emitHere env f (.characters s)

/-- Enters the content with its output captured, and with a name owed to its end. -/
def capture (n : Node) (context : String) (owed : Option QName) : Operation Flow := do
  match ← attempt env (some f.cursor) (Output.Writing.openCapture f.cursor context) with
  | some _ =>
    match owed with
    | some name => pure (.on (f.owe name).enter)
    | none => pure (.on f.enter)
  | none => pure (.on (f.skip n))

/-- The text captured for the instruction at a node. -/
def captured (start : NodeId) : Operation (Option String) :=
  attempt env (some f.cursor) (Output.Writing.closeCapture start)

/-! ## Variables -/

/-- Binds a variable where it lives. -/
def declareVariable (home : Home) (name : String) (v : Value) : Operation Frame := do
  match home with
  | .body => pure { f with scopes := declareInScopes f.scopes name v }
  | .group g =>
    match (← get).frames.current? g with
    | some _ =>
      modify fun s => { s with frames := s.frames.insert g name v }
      pure f
    | none =>
      reportHere env f (.noGroupFrame name)
      pure f

/-- Assigns to the binding that a look-up finds. -/
def assignVariable (name : String) (v : Value) : Operation Frame := do
  match assignInScopes name v f.scopes with
  | some scopes => pure { f with scopes := scopes }
  | none =>
    let ancestry := (env.program.group f.group).ancestry
    match assignInGroups (← get).frames ancestry name v with
    | some frames =>
      modify fun s => { s with frames := frames }
      pure f
    | none =>
      reportHere env f (.assignsUndeclared name)
      pure f

/-- Declares a variable with a selected value or starts to capture its text. -/
def openVariable (n : Node) (name : String) (origin : Origin) (home : Home) :
    Operation Flow := do
  match origin with
  | .selected e =>
    let v ← evaluate env a f e
    let f ← declareVariable env f home name v
    pure (.on (f.skip n))
  | .written => capture env f n s!"variable `{name}'" none

/-- Declares a parameter; a value that was passed wins over the default. -/
def openParameter (n : Node) (name : String) (default : Option Origin) (home : Home) :
    Operation Flow := do
  match f.passed.get? name with
  | some v =>
    let f ← declareVariable env f home name v
    pure (.on (f.skip n))
  | none =>
    match default with
    | some origin => openVariable env a f n name origin home
    | none =>
      reportHere env f (.noValue name)
      let f ← declareVariable env f home name .empty
      pure (.on (f.skip n))

/-! ## Walks and calls -/

/-- The group that control is handed over to. -/
def targetGroup (d : Delegation) : Operation (Option GroupId) := do
  match d.group with
  | none => pure (some f.group)
  | some name =>
    match env.program.groupNamed? name with
    | some g => pure (some g)
    | none =>
      reportHere env f (.noGroup name)
      pure none

/-- Asks for a walk, unless the activation may not. -/
def requestWalk (w : Walk) (d : Delegation) : Operation Flow := do
  if a.isInitialiser then
    reportHere env f (.walkInDeclaration w)
    pure (.on f.next)
  else
    match (if w.suspends then a.suspendedBy else none) with
    | some previous =>
      reportHere env f (.secondWalk w previous)
      pure (.on f.next)
    | none =>
      match ← targetGroup env f d with
      | none => pure (.on f.next)
      | some g =>
        let passed ← evaluateArguments env a f d.arguments
        pure (.walk f.next ⟨w, ⟨g, passed⟩, f.cursor⟩)

def callProcedure (name : String) (d : Delegation) : Operation Flow := do
  match ← targetGroup env f d with
  | none => pure (.on f.next)
  | some g =>
    match env.program.procedureNamed? name g with
    | none =>
      reportHere env f (.noProcedure name)
      pure (.on f.next)
    | some procedure =>
      let passed ← evaluateArguments env a f d.arguments
      pure (.call f.next procedure passed)

/-! ## Actions -/

def act : Action → Operation Flow
  | .process w d => requestWalk env a f w d
  | .processSiblings d _ _ => requestWalk env a f .siblings d
  | .call name d => callProcedure env a f name d
  | .startElement t => do
    match ← evaluateName env a f t with
    | some n => emitHere env f (.opening n [])
    | none => pure ()
    pure (.on f.next)
  | .endElement t => do
    match ← evaluateName env a f t with
    | some n => emitHere env f (.closing n)
    | none => pure ()
    pure (.on f.next)
  | .text s => do
    emitText env f s
    pure (.on f.next)
  | .valueOf select separator => do
    let v ← evaluate env a f select
    let separator ← evaluateText env a f separator
    emitText env f (v.joined separator)
    pure (.on f.next)

/-! ## Starts of containers -/

/-- Starts a shallow copy of the node of the activation. -/
def startCopy (withAttributes : Bool) : Operation Unit := do
  let e ← eventAt a.depth
  match e.content with
  | .element n as => emitHere env f (.opening n (if withAttributes then as else []))
  | .attr attr _ => addAttribute env attr (some f.cursor)
  | .root => pure ()
  | c => emitHere env f (copyOfLeaf c)

def startAttribute (n : Node) (t : NameTemplate) (origin : Origin) : Operation Flow := do
  match ← evaluateName env a f t with
  | none => pure (.on (f.skip n))
  | some name =>
    match origin with
    | .written => capture env f n s!"attribute `{name.display}'" (some name)
    | .selected e =>
      let v ← evaluate env a f e
      addAttribute env ⟨name, v.joined " "⟩ (some f.cursor)
      pure (.on (f.skip n))

def startInstruction (n : Node) (t : Path.TextTemplate) : Operation Flow := do
  let target ← evaluateText env a f t
  if !isNCName target || isXmlTarget target then
    reportHere env f (.invalidTarget target)
    pure (.on (f.skip n))
  else capture env f n s!"processing-instruction `{target}'" (some (QName.simple target))

/-- A message is heard by nobody, but it can end the transformation. -/
def deliverMessage (text : String) (terminate : Bool) : Operation Unit :=
  if terminate then fatal env (.terminated text) else pure ()

/-- Starts the next round of a loop over items, with the item bound to a name. -/
def nextItem (n : Node) (name : String) : Operation Flow :=
  match f.loops with
  | ⟨start, item :: rest⟩ :: loops =>
    let inner := { f.enter with loops := ⟨start, rest⟩ :: loops }
    pure (.on { inner with scopes := declareInScopes inner.scopes name ⟨[item]⟩ })
  | _ => pure (.on { f.skip n with loops := f.loops.tail })

/-- The frame with the loop at the cursor on top, started if it is not yet. -/
def enterLoop (select : Path.Expr) : Operation Frame := do
  if (f.loops.head?.map Loop.node) == some f.cursor then pure f
  else
    let v ← evaluate env a f select
    pure { f with loops := ⟨f.cursor, v.items⟩ :: f.loops }

/-- Enters the content if the test holds. -/
def enterIf (n : Node) (test : Path.Expr) : Operation Flow := do
  let v ← evaluate env a f test
  pure (.on (if v.toBoolean then f.enter else f.skip n))

def startContainer (n : Node) : Container → Operation Flow
  | .literal name as => do
    let as ← as.mapM fun p => do pure (Attribute.mk p.1 (← evaluateText env a f p.2))
    emitHere env f (.opening name as)
    pure (.on f.enter)
  | .element t => do
    match ← evaluateName env a f t with
    | some name =>
      emitHere env f (.opening name [])
      pure (.on (f.owe name).enter)
    | none => pure (.on (f.skip n))
  | .attr t origin => startAttribute env a f n t origin
  | .copy as => do
    startCopy env a f as
    pure (.on f.enter)
  | .comment => capture env f n "comment" none
  | .processingInstruction t => startInstruction env a f n t
  | .cdata => capture env f n "CDATA section" none
  | .document t => do
    let href ← evaluateText env a f t
    match ← attempt env (some f.cursor)
        (Output.Writing.openDocument env.surroundings f.cursor href) with
    | some _ => pure (.on f.enter)
    | none => pure (.on (f.skip n))
  | .message origin terminate => do
    match origin with
    | .selected e =>
      let v ← evaluate env a f e
      deliverMessage env (v.joined " ") terminate
      pure (.on (f.skip n))
    | .written => capture env f n "message" none
  | .variable name origin home => openVariable env a f n name origin home
  | .parameter name default home => openParameter env a f n name default home
  | .assign name origin => do
    match origin with
    | .selected e =>
      let v ← evaluate env a f e
      let f ← assignVariable env f name v
      pure (.on (f.skip n))
    | .written => capture env f n s!"assign `{name}'" none
  | .loop test => enterIf env a f n test
  | .each name select => do
    let f ← enterLoop env a f select
    nextItem f n name

/-! ## Ends of containers -/

/-- Binds a captured text, if there is one. -/
def finishVariable (begun : NodeId) (name : String) (home : Home) : Operation Frame := do
  match ← captured env f begun with
  | some text => declareVariable env f home name (.text text)
  | none => pure f

/-- Ends the container that began at a node. -/
def finishContainer (begun : NodeId) : Container → Operation Flow
  | .literal name _ => do
    emitHere env f (.closing name)
    pure (.on f.next)
  | .element _ => do
    match f.owed with
    | name :: _ => emitHere env f (.closing name)
    | [] => pure ()
    pure (.on f.settle.next)
  | .attr .. => do
    match ← captured env f begun with
    | none => pure (.on f.next)
    | some value =>
      match f.owed with
      | name :: _ => addAttribute env ⟨name, value⟩ (some f.cursor)
      | [] => pure ()
      pure (.on f.settle.next)
  | .copy _ => do
    let e ← eventAt a.depth
    match e.content with
    | .element n _ => emitHere env f (.closing n)
    | .root | .attr .. | .text _ | .comment _ | .instruction .. => pure ()
    pure (.on f.next)
  | .comment => do
    match ← captured env f begun with
    | some text => emitHere env f (.comment (commentText text))
    | none => pure ()
    pure (.on f.next)
  | .processingInstruction _ => do
    match ← captured env f begun, f.owed with
    | some text, target :: _ =>
      emitHere env f (.instruction target.localName (instructionData text))
    | _, _ => pure ()
    pure (.on f.settle.next)
  | .cdata => do
    match ← captured env f begun with
    | some text =>
      emitHere env f .startCdata
      emitHere env f (.characters text)
      emitHere env f .endCdata
    | none => pure ()
    pure (.on f.next)
  | .document _ => do
    discard (attempt env (some f.cursor)
      (Output.Writing.closeDocument env.surroundings begun))
    pure (.on f.next)
  | .message _ terminate => do
    match ← captured env f begun with
    | some text => deliverMessage env text terminate
    | none => pure ()
    pure (.on f.next)
  | .variable name _ home => do
    let f ← finishVariable env f begun name home
    pure (.on f.next)
  | .parameter name _ home => do
    let f ← finishVariable env f begun name home
    pure (.on f.next)
  | .assign name _ => do
    match ← captured env f begun with
    | some text =>
      let f ← assignVariable env f name (.text text)
      pure (.on f.next)
    | none => pure (.on f.next)
  | .loop _ | .each .. => pure (.on (f.moveTo begun))

/-- The frame after the content of the start at a node, or after all of it. -/
def leaveTo (node : NodeId) : Frame :=
  match env.program.code[node]? with
  | some n => f.moveTo (n.close.getD f.cursor)
  | none => f.next

/-- Ends what began at a node; `f` has left the scope of the content. -/
def closeAt (begun : NodeId) : Operation Flow := do
  match env.program.code[begun]? with
  | none => pure (.on f.next)
  | some n =>
    match n.instruction with
    | .body => pure .done
    | .container c => finishContainer env a f begun c
    | .condition _ (some alternative) => pure (.on (leaveTo env f alternative).next)
    | .when _ choice => pure (.on (leaveTo env f choice))
    | .condition _ none | .alternative | .choice | .otherwise | .act _ | .closing _ =>
      pure (.on f.next)

/-- Executes the instruction of a node, which is the one at the cursor. -/
def execute (n : Node) : Operation Flow :=
  match n.instruction with
  | .body | .alternative | .choice | .otherwise => pure (.on f.enter)
  | .act action => act env a f action
  | .container c => startContainer env a f n c
  | .condition test _ | .when test _ => enterIf env a f n test
  | .closing begun => closeAt env a f.leave begun

end Operation

end StreamTransform
