import StreamTransform.Program
import StreamTransform.Value

/-!
# Variables

The scopes of a body come first, the innermost at the head; then the current
frames of its group and of the group's ancestors. Every group has a stack of
frames, the current one at the head. An assignment replaces the binding that a
look-up finds.
-/

namespace StreamTransform

/-- The frames of every group, by the number of the group. -/
abbrev GroupFrames := List (List Bindings)

namespace GroupFrames

/-- No frame for any of so many groups. -/
def empty (groups : Nat) : GroupFrames := List.replicate groups []

def depth (fs : GroupFrames) (g : GroupId) : Nat := (fs.getD g []).length

/-- A fresh current frame for a group. -/
def push (fs : GroupFrames) (g : GroupId) : GroupFrames := fs.modify g ([] :: ·)

def pop (fs : GroupFrames) (g : GroupId) : GroupFrames := fs.modify g List.tail

/-- The current frame of a group. -/
def current? (fs : GroupFrames) (g : GroupId) : Option Bindings := (fs.getD g []).head?

def get? (fs : GroupFrames) (g : GroupId) (name : String) : Option Value :=
  (fs.current? g).bind (·.get? name)

/-- Binds a name in the current frame of a group. -/
def insert (fs : GroupFrames) (g : GroupId) (name : String) (v : Value) : GroupFrames :=
  fs.modify g fun
    | f :: r => f.insert name v :: r
    | [] => []

end GroupFrames

/-- The value of a name in the innermost scope that binds it. -/
def findInScopes (scopes : List Bindings) (name : String) : Option Value :=
  scopes.findSome? (·.get? name)

/-- The value of a name in the nearest group that binds it. -/
def findInGroups (fs : GroupFrames) (ancestry : List GroupId) (name : String) : Option Value :=
  ancestry.findSome? fun g => fs.get? g name

def findVariable (scopes : List Bindings) (fs : GroupFrames) (ancestry : List GroupId)
    (name : String) : Option Value :=
  (findInScopes scopes name).or (findInGroups fs ancestry name)

/-- The scopes after an assignment to the innermost binding of a name, if there is one. -/
def assignInScopes (name : String) (v : Value) : List Bindings → Option (List Bindings)
  | [] => none
  | s :: r =>
    if s.holds name then some (s.insert name v :: r)
    else (assignInScopes name v r).map (s :: ·)

/-- The frames after an assignment in the nearest group that binds a name, if there is one. -/
def assignInGroups (fs : GroupFrames) (ancestry : List GroupId) (name : String) (v : Value) :
    Option GroupFrames :=
  (ancestry.find? fun g => (fs.get? g name).isSome).map fun g => fs.insert g name v

/-- Binds a name in the innermost scope. -/
def declareInScopes (scopes : List Bindings) (name : String) (v : Value) : List Bindings :=
  match scopes with
  | s :: r => s.insert name v :: r
  | [] => []

end StreamTransform
