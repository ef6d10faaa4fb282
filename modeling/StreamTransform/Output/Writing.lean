import StreamTransform.Output.Scope

/-!
# Writing to output scopes

Operations on the scopes. One that fails keeps what it did before: a refused
start tag is lost, and with it the event that made it leave. An end tag is
taken off the open elements before its sink is asked.
-/

namespace StreamTransform.Output

/-- An operation on the outlet that can fail. -/
abbrev Writing := ExceptT Fault (StateM Outlet)

namespace Writing

/-- Offers an event to a sink and records the answer. -/
def send (s : Surroundings) (d : Destination) (e : Event) : Writing Unit := do
  let o ← get
  let refusal := s.sink d o.record e
  set { o with record := .sent d e refusal :: o.record }
  match refusal with
  | some f => throw f
  | none => pure ()

/-- The innermost scope. -/
def top : Writing Scope := do
  match (← get).scopes with
  | t :: _ => pure t
  | [] => throw .noSink

def setTop (t : Scope) : Writing Unit :=
  modify fun o => { o with scopes := t :: o.scopes.tail }

/-- Hands an event to the target of the innermost scope. -/
def deliver (s : Surroundings) (e : Event) : Writing Unit := do
  let t ← top
  match t.target with
  | .sink d => send s d e
  | .capture c =>
    match TextSink.refusal? c.context e with
    | some f => throw f
    | none => setTop { t with target := .capture (c.take e) }

/-- Lets the start tag that is held back go. -/
def flush (s : Surroundings) : Writing Unit := do
  let t ← top
  match t.pending with
  | some (n, as) =>
    setTop { t with pending := none }
    deliver s (.opening n as)
  | none => pure ()

/-- Fails if an element of the scope is open. -/
def checkClosed (t : Scope) : Writing Unit :=
  match t.opened with
  | n :: _ => throw (.outputUnclosed n)
  | [] => pure ()

/-- Writes an event to the innermost scope. -/
def emit (s : Surroundings) (e : Event) : Writing Unit := do
  flush s
  let t ← top
  match e, t.target with
  | .opening n as, .sink _ => setTop { t with opened := n :: t.opened, pending := some (n, as) }
  | .closing n, .sink _ =>
    match t.opened with
    | o :: os =>
      if o.same n then
        setTop { t with opened := os }
        deliver s e
      else throw (.outputMismatch n o)
    | [] => throw (.outputUnopened n)
  | .endDocument, _ =>
    checkClosed t
    deliver s e
  | _, _ => deliver s e

/-- Adds an attribute to the start tag that is held back. -/
def addAttribute (a : Attribute) : Writing Unit := do
  let t ← top
  match t.pending with
  | some (n, as) => setTop { t with pending := some (n, putAttribute a as) }
  | none => throw (.noPendingTag a.name)

/-- Opens a scope for an instruction that has none open. -/
def push (target : Target) (owner : Nat) : Writing Unit :=
  modify fun o => { o with scopes := .fresh target (some owner) :: o.scopes }

def openCapture (owner : Nat) (context : String) : Writing Unit := do
  if (← get).isActive owner then throw (.nestedUse context)
  push (.capture (.empty context)) owner

/-- Asks the resolver for a further document. -/
def resolve (s : Surroundings) (href : String) : Writing Destination := do
  match s.resolver with
  | none => throw (.noResolver href)
  | some ask =>
    let o ← get
    let refusal := ask o.record href
    set { o with record := .resolved href refusal :: o.record }
    match refusal with
    | some f => throw f
    | none => pure (.document o.record.documents.length)

/-- Redirects output to a further document. -/
def openDocument (s : Surroundings) (owner : Nat) (href : String) : Writing Unit := do
  let d ← resolve s href
  if (← get).isActive owner then throw (.nestedUse "result document")
  send s d .startDocument
  push (.sink d) owner

/-- Takes the innermost scope away if it belongs to the instruction. -/
def popOwned (owner : Nat) : Writing Scope := do
  match (← get).scopes with
  | t :: r =>
    if t.owner = some owner then
      modify fun o => { o with scopes := r }
      pure t
    else throw .unbalancedScopes
  | [] => throw .unbalancedScopes

/-- Ends a capture and yields its text. -/
def closeCapture (owner : Nat) : Writing String := do
  match (← popOwned owner).target with
  | .capture c => pure c.buffer
  | .sink _ => throw .notACapture

/-- Ends a redirection and its document. -/
def closeDocument (s : Surroundings) (owner : Nat) : Writing Unit := do
  let t ← popOwned owner
  match t.target with
  | .capture _ => checkClosed t
  | .sink d =>
    match t.pending with
    | some (n, as) => send s d (.opening n as)
    | none => pure ()
    checkClosed t
    send s d .endDocument

end Writing

end StreamTransform.Output
