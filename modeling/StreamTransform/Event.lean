import StreamTransform.Name

/-!
# Events of the input

An event is a node of the document at the moment it is met. Its identity tells
it from every other event with the same content. Siblings are counted in
groups, one for each kind of node test; registering a child with its parent
fixes the child's position in every group it belongs to.
-/

namespace StreamTransform

inductive Content where
  | root
  | element (name : QName) (attributes : List Attribute)
  /-- An attribute and its place among the attributes of its element, from 1. -/
  | attr (attr : Attribute) (ordinal : Nat)
  | text (value : String)
  | comment (value : String)
  | instruction (target data : String)
  deriving Repr, DecidableEq

namespace Content

def isElement : Content → Bool
  | element .. => true
  | _ => false

def isAttribute : Content → Bool
  | attr .. => true
  | _ => false

/-- The name of an element or attribute; the target of a processing instruction. -/
def name? : Content → Option QName
  | element n _ => some n
  | attr a _ => some a.name
  | instruction target _ => some (QName.simple target)
  | root | text _ | comment _ => none

def attributes : Content → List Attribute
  | element _ as => as
  | _ => []

/-- Character content, the value of an attribute, the data of a processing instruction. The
content of elements is never kept. -/
def value : Content → String
  | root | element .. => ""
  | attr a _ => a.value
  | text s | comment s => s
  | instruction _ data => data

end Content

/-- The nodes that satisfy one node test are counted together. -/
inductive SiblingGroup where
  | named (uri localName : String)
  | anyNamespace (localName : String)
  | inNamespace (uri : String)
  | anyElement
  | text
  | comment
  | instruction (target : Option String)
  | node
  deriving Repr, DecidableEq

/-- Every group that a child with this content is counted in. -/
def Content.groups : Content → List SiblingGroup
  | element n _ =>
    [.named n.uri n.localName, .anyNamespace n.localName, .inNamespace n.uri, .anyElement, .node]
  | text _ => [.text, .node]
  | comment _ => [.comment, .node]
  | instruction target _ => [.instruction (some target), .instruction none, .node]
  | root | attr .. => []

/-- How many children were counted in each group. -/
abbrev Tally := List (SiblingGroup × Nat)

namespace Tally

def count (t : Tally) (g : SiblingGroup) : Nat := (t.lookup g).getD 0

/-- Counts one more child in a group. -/
def bump : Tally → SiblingGroup → Tally
  | [], g => [(g, 1)]
  | (h, n) :: r, g => if h = g then (h, n + 1) :: r else (h, n) :: bump r g

theorem count_bump (t : Tally) (g h : SiblingGroup) :
    (t.bump g).count h = if h = g then t.count g + 1 else t.count h := by
  induction t with
  | nil =>
    by_cases e : h = g
    · simp [bump, count, e]
    · simp [bump, count, List.lookup_cons, beq_false_of_ne e, e]
  | cons p r ih =>
    obtain ⟨k, n⟩ := p
    simp only [count] at ih ⊢
    by_cases e : k = g
    · subst e
      by_cases e' : h = k
      · subst e'; simp [bump]
      · simp [bump, List.lookup_cons, e', beq_false_of_ne e']
    · by_cases e' : h = k
      · subst e'; simp [bump, e]
      · have hk : (h == k) = false := beq_false_of_ne e'
        have gk : (g == k) = false := beq_false_of_ne (Ne.symm e)
        simp only [bump, if_neg e, List.lookup_cons, hk, gk]
        exact ih

end Tally

/-- What tells an event from all others: the order in which it was met, or for an attribute
selected by a path its owner and place. -/
inductive Identity where
  | met (serial : Nat)
  | attributeOf (owner : Identity) (ordinal : Nat)
  deriving Repr, DecidableEq

structure Event where
  identity : Identity
  content : Content
  /-- Positions among the siblings, set when the event is registered. -/
  positions : Tally
  deriving Repr, DecidableEq

namespace Event

def met (serial : Nat) (content : Content) : Event := ⟨.met serial, content, []⟩

/-- The attribute of an element at a place counted from 1. -/
def attributeOf (owner : Event) (a : Attribute) (ordinal : Nat) : Event :=
  ⟨.attributeOf owner.identity ordinal, .attr a ordinal, []⟩

def name? (e : Event) : Option QName := e.content.name?

/-- Elements and the root have the empty string value. -/
def value (e : Event) : String := e.content.value

/-- The position in a group: the place of an attribute, and 1 for an event never counted. -/
def positionOf (e : Event) (g : SiblingGroup) : Nat :=
  match e.content with
  | .attr _ ordinal => ordinal
  | _ => (e.positions.lookup g).getD 1

/-- Counts `child` and gives it its positions. -/
def register (counts : Tally) (child : Event) : Tally × Event :=
  let counts' := child.content.groups.foldl Tally.bump counts
  let positions := child.content.groups.map fun g => (g, counts'.count g)
  (counts', { child with positions := positions })

end Event

end StreamTransform
