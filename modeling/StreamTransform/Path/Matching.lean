import StreamTransform.Path.Evaluation

/-!
# Matching of patterns

A pattern is matched from its last step upwards: the last step at the node, the
others at its ancestors, with any distance where a double slash stands. A match
yields the node's position among the siblings that satisfy the last test. A
path without steps matches the root only.
-/

namespace StreamTransform.Path

/-- Whether one step accepts the node at a depth, predicates included. -/
def PatternStep.holdsAt (s : PatternStep) (ctx : Context) (depth : Nat) : Except Fault Bool := do
  match ctx.event? depth with
  | none => .ok false
  | some e =>
    let axis := if s.isAttribute then Axis.attributes else Axis.child
    if s.test.accepts e.content axis then
      let position := e.positionOf s.test.group
      holdAll (ctx.seenFrom depth position) depth position s.predicates
    else .ok false

/-- Whether the condition holds at some depth from `d` down to 1, tried in this order. -/
def anyAbove (condition : Nat → Except Fault Bool) : Nat → Except Fault Bool
  | 0 => .ok false
  | d + 1 => do if ← condition (d + 1) then .ok true else anyAbove condition d

/-- Whether the steps, the last one first, match from a depth upwards. -/
def matchUpwards (absolute : Bool) (ctx : Context) : List PatternStep → Nat → Except Fault Bool
  | [], _ => .ok true
  | [s], depth => do
    if ← s.holdsAt ctx depth then
      .ok (if absolute && !s.afterGap then depth == 2 else 2 ≤ depth)
    else .ok false
  | s :: t :: r, depth => do
    if ← s.holdsAt ctx depth then
      if s.afterGap then anyAbove (matchUpwards absolute ctx (t :: r)) (depth - 1)
      else matchUpwards absolute ctx (t :: r) (depth - 1)
    else .ok false

/-- The position of the node at depth `top`, if the pattern matches it. -/
def PathPattern.match? (p : PathPattern) (ctx : Context) (top : Nat) :
    Except Fault (Option Nat) := do
  match p.steps.reverse with
  | [] =>
    if top = 1 then
      let root ← ctx.nodeAt 1
      .ok (if root.content = .root then some 1 else none)
    else .ok none
  | last :: r =>
    if ← matchUpwards p.absolute ctx (last :: r) top then
      let e ← ctx.nodeAt top
      .ok (some (e.positionOf last.test.group))
    else .ok none

/-- The match of the first of several alternatives that matches. -/
def firstMatch? (ctx : Context) (top : Nat) : List PathPattern → Except Fault (Option Nat)
  | [] => .ok none
  | p :: ps => do
    match ← p.match? ctx top with
    | some position => .ok (some position)
    | none => firstMatch? ctx top ps

def Pattern.match? (p : Pattern) (ctx : Context) (top : Nat) : Except Fault (Option Nat) :=
  firstMatch? ctx top p.alternatives

end StreamTransform.Path
