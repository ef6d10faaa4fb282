import StreamTransform.Surroundings

/-!
# Output scopes

Output goes to the innermost scope. A scope writes to a sink or captures text,
and belongs to the instruction that opened it; the outermost one writes to the
main output and has no owner. A start tag is held back while it may still
receive attributes.
-/

namespace StreamTransform.Output

inductive Target where
  | sink (destination : Destination)
  | capture (sink : TextSink)
  deriving Repr

structure Scope where
  target : Target
  owner : Option Nat
  /-- The start tag held back. -/
  pending : Option (QName × List Attribute)
  /-- The open elements, innermost first, the one held back included. -/
  opened : List QName
  deriving Repr

/-- A scope that nothing was written to. -/
def Scope.fresh (target : Target) (owner : Option Nat) : Scope := ⟨target, owner, none, []⟩

/-- Adds an attribute to others; the value of one with the same name is replaced. -/
def putAttribute (a : Attribute) : List Attribute → List Attribute
  | [] => [a]
  | b :: r => if b.name.same a.name then { b with value := a.value } :: r else b :: putAttribute a r

/-- The scopes, innermost first, and the record. -/
structure Outlet where
  scopes : List Scope
  record : Record
  deriving Repr

def Outlet.initial : Outlet := ⟨[.fresh (.sink .main) none], []⟩

/-- Whether a scope of this owner is open. -/
def Outlet.isActive (o : Outlet) (owner : Nat) : Bool :=
  o.scopes.any fun s => s.owner == some owner

end StreamTransform.Output
