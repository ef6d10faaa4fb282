import StreamTransform.Value
import StreamTransform.Path.Fault

/-!
# What an expression can see

The ancestor stack from the root down, the variables, the position of the
current node and whether it has children. Depth counts from 1. A node item is
live while the stack holds its event at its depth.
-/

namespace StreamTransform.Path

structure Context where
  /-- The root first, the most recently opened node last. -/
  ancestors : List Event
  lookup : String → Option Value
  position : Nat
  hasChildNodes : Bool

namespace Context

def depth (ctx : Context) : Nat := ctx.ancestors.length

def event? (ctx : Context) : Nat → Option Event
  | 0 => none
  | d + 1 => ctx.ancestors[d]?

def nodeAt (ctx : Context) (d : Nat) : Except Fault Event :=
  match ctx.event? d with
  | some e => .ok e
  | none => .error .noContextNode

def isLive (ctx : Context) (n : NodeRef) : Bool :=
  (ctx.event? n.depth).any fun e => e.identity == n.event.identity

/-- The live node at a depth, if there is one. -/
def ref? (ctx : Context) (d : Nat) : Option NodeRef := (ctx.event? d).map fun e => ⟨e, d⟩

/-- The same stack seen from a node at `d` with a position of its own. -/
def seenFrom (ctx : Context) (d position : Nat) : Context :=
  { ctx with position := position, hasChildNodes := d < ctx.depth || ctx.hasChildNodes }

end Context

end StreamTransform.Path
