import StreamTransform.Path.Comparison
import StreamTransform.Path.Functions

/-!
# Evaluation over the ancestor stack

A path starts at the root or at the current node and moves step by step over
the stack; nothing that is not open can be reached, attributes apart.
Predicates of a step are judged at the candidate, those of an attribute at its
element. A predicate with exactly one number selects by position.
-/

namespace StreamTransform.Path

/-- The nodes an axis leads to, in document order. -/
def Axis.reach (axis : Axis) (n : NodeRef) (ctx : Context) : List NodeRef :=
  match axis with
  | .self => [n]
  | .parent =>
    if (n.event.content.isAttribute || ctx.isLive n) && n.depth > 1 then
      (ctx.ref? (n.depth - 1)).toList
    else []
  | .child => if ctx.isLive n then (ctx.ref? (n.depth + 1)).toList else []
  | .descendant =>
    if ctx.isLive n then
      (List.range' (n.depth + 1) (ctx.depth - n.depth)).filterMap ctx.ref?
    else []
  | .attributes =>
    n.event.content.attributes.mapIdx fun i a =>
      ⟨Event.attributeOf n.event a (i + 1), n.depth + 1⟩

/-- A test for any node also accepts the root on the parent and self axes. -/
def NodeTest.acceptsOn (test : NodeTest) (axis : Axis) (n : NodeRef) : Bool :=
  match axis, test with
  | .self, .node | .parent, .node => true
  | _, _ => test.accepts n.event.content axis

/-- The depth at which predicates of a candidate are judged. -/
def Context.judgedAt (ctx : Context) (n : NodeRef) : Nat :=
  if ctx.isLive n then n.depth else max (n.depth - 1) 1

/-- Whether the value of a predicate selects the node at a position. -/
def selects (v : Value) (position : Nat) : Bool :=
  match v.items with
  | [.number x] => x == Float.ofNat position
  | _ => v.toBoolean

/-- The nodes for which a condition holds, in order. -/
def keep (condition : NodeRef → Except Fault Bool) : List NodeRef → Except Fault (List NodeRef)
  | [] => .ok []
  | n :: r => do
    let kept ← condition n
    let rest ← keep condition r
    .ok (if kept then n :: rest else rest)

mutual

/-- The value of an expression with the node at depth `top` as the current one. -/
def Expr.evaluate (ctx : Context) (top : Nat) : Expr → Except Fault Value
  | .literal s => .ok (.text s)
  | .number x => .ok (.number x)
  | .sequence items => do
    let vs ← evaluateAll ctx top items
    .ok ⟨vs.flatMap Value.items⟩
  | .reference n =>
    match ctx.lookup n with
    | some v => .ok v
    | none => .error (.unknownVariable n)
  | .path absolute steps => do
    let start := if absolute then 1 else top
    let e ← ctx.nodeAt start
    let nodes ← walk ctx [⟨e, start⟩] steps
    .ok ⟨nodes.map .node⟩
  | .call n args => do
    let vs ← evaluateAll ctx top args
    callFunction n vs ctx top
  | .binary op l r => do
    let left ← l.evaluate ctx top
    match op with
    | .or =>
      if left.toBoolean then .ok (.boolean true)
      else
        let right ← r.evaluate ctx top
        .ok (.boolean right.toBoolean)
    | .and =>
      if left.toBoolean then
        let right ← r.evaluate ctx top
        .ok (.boolean right.toBoolean)
      else .ok (.boolean false)
    | op =>
      if op.isComparison then
        let right ← r.evaluate ctx top
        .ok (.boolean (compare op left right))
      else if left.isEmpty then .ok .empty
      else
        let right ← r.evaluate ctx top
        arithmetic op left right
  | .negate e => do
    let v ← e.evaluate ctx top
    .ok (if v.isEmpty then v else .number (-v.toNumber))
  | .conditional test yes no => do
    let t ← test.evaluate ctx top
    if t.toBoolean then yes.evaluate ctx top else no.evaluate ctx top

def evaluateAll (ctx : Context) (top : Nat) : List Expr → Except Fault (List Value)
  | [] => .ok []
  | e :: es => do
    let v ← e.evaluate ctx top
    let vs ← evaluateAll ctx top es
    .ok (v :: vs)

/-- The nodes that the steps lead to from the given ones. -/
def walk (ctx : Context) (nodes : List NodeRef) : List Step → Except Fault (List NodeRef)
  | [] => .ok nodes
  | s :: r => do
    let next ← s.select ctx nodes
    walk ctx next r

/-- The candidates of one step that pass its test and its predicates. -/
def Step.select (ctx : Context) (nodes : List NodeRef) : Step → Except Fault (List NodeRef)
  | .mk axis test ps =>
    keep (fun n =>
        let depth := ctx.judgedAt n
        let position := n.event.positionOf test.group
        holdAll (ctx.seenFrom depth position) depth position ps)
      (nodes.flatMap fun n => (axis.reach n ctx).filter (test.acceptsOn axis))

/-- Whether every predicate selects the node at `top`, in order up to the first that does not. -/
def holdAll (ctx : Context) (top position : Nat) : List Expr → Except Fault Bool
  | [] => .ok true
  | p :: ps => do
    let v ← p.evaluate ctx top
    if selects v position then holdAll ctx top position ps else .ok false

end

/-- The text of a template: its fixed parts and the texts of its expressions. -/
def TextTemplate.evaluate (ctx : Context) (top : Nat) : TextTemplate → Except Fault String
  | .fixed s => .ok s
  | .parts ps => do
    let texts ← ps.mapM fun part =>
      match part with
      | .fixed s => Except.ok s
      | .computed e => do .ok (← e.evaluate ctx top).toText
    .ok (String.join texts)

end StreamTransform.Path
