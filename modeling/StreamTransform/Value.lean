import StreamTransform.Event
import StreamTransform.Decimal.Numeral

/-!
# Values of paths

A value is an ordered sequence of items. Conversions look at the first item
only. A node item keeps the depth at which its event was found; two node items
are equal when they hold the same event.
-/

namespace StreamTransform

structure NodeRef where
  event : Event
  /-- Depth on the ancestor stack, where the root has depth 1. -/
  depth : Nat
  deriving Repr

inductive Item where
  | boolean (value : Bool)
  | number (value : Float)
  | text (value : String)
  | node (ref : NodeRef)
  deriving Repr

namespace Item

def toBoolean : Item → Bool
  | boolean b => b
  | number x => x != 0.0 && !x.isNaN
  | text s => !s.isEmpty
  | node _ => true

def toNumber : Item → Float
  | boolean b => if b then 1.0 else 0.0
  | number x => x
  | text s => Decimal.read s
  | node n => Decimal.read n.event.value

def toText : Item → String
  | boolean b => if b then "true" else "false"
  | number x => Decimal.write x
  | text s => s
  | node n => n.event.value

def isBoolean : Item → Bool
  | boolean _ => true
  | _ => false

def isNumber : Item → Bool
  | number _ => true
  | _ => false

/-- Equality of items; nodes are compared by identity, and a NaN differs from itself. -/
def same : Item → Item → Bool
  | boolean a, boolean b => a == b
  | number a, number b => a == b
  | text a, text b => a == b
  | node a, node b => a.event.identity == b.event.identity
  | _, _ => false

end Item

structure Value where
  items : List Item
  deriving Repr, Inhabited

namespace Value

def empty : Value := ⟨[]⟩
def boolean (b : Bool) : Value := ⟨[.boolean b]⟩
def number (x : Float) : Value := ⟨[.number x]⟩
def text (s : String) : Value := ⟨[.text s]⟩
def node (e : Event) (depth : Nat) : Value := ⟨[.node ⟨e, depth⟩]⟩

def append (a b : Value) : Value := ⟨a.items ++ b.items⟩

def size (v : Value) : Nat := v.items.length

def isEmpty (v : Value) : Bool := v.items.isEmpty

def first? (v : Value) : Option Item := v.items.head?

/-- The first item, if it is a node. -/
def node? (v : Value) : Option NodeRef :=
  match v.first? with
  | some (.node n) => some n
  | _ => none

def toBoolean (v : Value) : Bool :=
  match v.first? with
  | some i => i.toBoolean
  | none => false

def toNumber (v : Value) : Float :=
  match v.first? with
  | some i => i.toNumber
  | none => Decimal.nan

def toText (v : Value) : String :=
  match v.first? with
  | some i => i.toText
  | none => ""

/-- The texts of all items with `separator` between neighbours. -/
def joined (v : Value) (separator : String) : String :=
  separator.intercalate (v.items.map Item.toText)

def same (a b : Value) : Bool :=
  a.items.length == b.items.length && (a.items.zip b.items).all fun p => p.1.same p.2

end Value

/-- Named values; a name is bound at most once. -/
abbrev Bindings := List (String × Value)

namespace Bindings

def get? (b : Bindings) (name : String) : Option Value := b.lookup name

def holds (b : Bindings) (name : String) : Bool := (b.lookup name).isSome

/-- Binds a name, in place of an earlier binding. -/
def insert : Bindings → String → Value → Bindings
  | [], name, v => [(name, v)]
  | (n, w) :: r, name, v => if n = name then (n, v) :: r else (n, w) :: insert r name v

theorem get?_insert (b : Bindings) (name other : String) (v : Value) :
    (b.insert name v).get? other = if other = name then some v else b.get? other := by
  induction b with
  | nil =>
    by_cases e : other = name
    · simp [insert, get?, e]
    · simp [insert, get?, List.lookup_cons, beq_false_of_ne e, e]
  | cons p r ih =>
    obtain ⟨k, w⟩ := p
    simp only [get?] at ih ⊢
    by_cases e : k = name
    · subst e
      by_cases e' : other = k
      · subst e'; simp [insert]
      · simp [insert, List.lookup_cons, e', beq_false_of_ne e']
    · by_cases e' : other = k
      · subst e'; simp [insert, e]
      · simp only [insert, if_neg e, List.lookup_cons, beq_false_of_ne e']
        exact ih

end Bindings

end StreamTransform
