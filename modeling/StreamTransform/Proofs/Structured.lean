import StreamTransform.Proofs.Operation
import StreamTransform.Proofs.Statements

/-!
# The meaning of a body

What a body does is said on the tree, without a cursor and without jumps: the
statements of a content are done one after the other, a loop starts over, one
branch of several is taken, and every content has a scope of its own. A deed is
one instruction that is executed; what evaluation and output come to is read off
the deed. `Does` relates a tree to the deeds that it stands for, up to its end
or up to any point before. Positions only name the places in the tree.
-/

namespace StreamTransform

/-- An instruction that a frame of an activation executes, from one state to another. -/
structure Deed where
  activation : Activation
  frame : Frame
  node : Node
  before : State
  flow : Flow
  after : State

/-- The frame that goes on, at once or later. -/
def Flow.frame? : Flow → Option Frame
  | .on f | .walk f _ | .call f .. => some f
  | .done => none

/-- Something was reported after the earlier record. -/
def Record.Reports (earlier later : Record) : Prop :=
  ∃ new d answer, later = new ++ earlier ∧ .reported d answer ∈ new

/-- The scopes of a body once a variable that lives there is bound, in the innermost one. -/
def Home.bind (home : Home) (name : String) (v : Value) (scopes : List Bindings) : List Bindings :=
  match home with
  | .body => declareInScopes scopes name v
  | .group _ => scopes

namespace Container

/-- The variable of the body that the container declares. -/
def declares? : Container → Option String
  | .variable name _ .body | .parameter name _ .body => some name
  | _ => none

/-- The scopes once the container has taken its value. An assignment changes the binding that is
found. -/
def bind (c : Container) (v : Value) (scopes : List Bindings) : List Bindings :=
  match c with
  | .variable name _ home | .parameter name _ home => home.bind name v scopes
  | .assign name _ => (assignInScopes name v scopes).getD scopes
  | _ => scopes

/-- The container does not take its value from its content. -/
def isSelected (passed : Bindings) : Container → Bool
  | .attr _ (.selected _) | .message (.selected _) _ | .variable _ (.selected _) _
  | .assign _ (.selected _) => true
  | .parameter name default _ =>
    (passed.get? name).isSome ||
      match default with
      | some .written => false
      | some (.selected _) | none => true
  | _ => false

/-- The content may be done more than once. -/
def isRepeated : Container → Bool
  | .loop _ | .each .. => true
  | _ => false

end Container

namespace Deed

/-- The deed executes the instruction at a position, with these scopes. -/
structure Runs (d : Deed) (position : NodeId) (instruction : Instruction) (location : Location)
    (scopes : List Bindings) : Prop where
  cursor : d.frame.cursor = position
  instruction : d.node.instruction = instruction
  location : d.node.location = location
  scopes : d.frame.scopes = scopes

/-- The frame goes on with these scopes. -/
def Leaves (d : Deed) (scopes : List Bindings) : Prop :=
  ∃ f, d.flow.frame? = some f ∧ f.scopes = scopes

/-- All that is done is to evaluate a test, to this truth value. -/
def Tests (env : Environment) (d : Deed) (test : Path.Expr) (holds : Bool) : Prop :=
  ∃ v, (Operation.evaluate env d.activation d.frame test).Yields d.before v d.after ∧
    v.toBoolean = holds

/-- The items of a loop: those that are known, or those that all that is done selects. -/
def Draws (env : Environment) (d : Deed) (select : Path.Expr) (items : List Item) :
    Option (List Item) → Prop
  | some known => items = known ∧ d.after = d.before
  | none => ∃ v, (Operation.evaluate env d.activation d.frame select).Yields d.before v d.after ∧
      v.items = items

/-- Something is reported. -/
def Complains (d : Deed) : Prop := d.before.record.Reports d.after.record

/-- What the end of a content does: the scope of the content goes, and the container takes the value
that the content wrote, unless that is lost. -/
inductive Closes (d : Deed) (scopes : List Bindings) : Instruction → List Bindings → Prop
  | body : d.flow = .done → Closes d scopes .body scopes.tail
  | container {c : Container} (v : Value) : d.Leaves (c.bind v scopes.tail) →
      Closes d scopes (.container c) (c.bind v scopes.tail)
  | lost {c : Container} : d.Complains → d.Leaves scopes.tail →
      Closes d scopes (.container c) scopes.tail
  | plain {i : Instruction} : i ≠ .body → (∀ c, i ≠ .container c) → d.Leaves scopes.tail →
      Closes d scopes i scopes.tail

end Deed

/-! ## Pieces -/

/-- A part of a tree that is to be done. -/
inductive Piece where
  | sequence (content : List Statement)
  | statement (s : Statement)
  /-- Branches of the choice at a node. -/
  | branches (choice : NodeId) (bs : List Branch)
  /-- A start that enters its content in any case. -/
  | plain (instruction : Instruction) (opening : Location) (content : List Statement)
      (closing : Location)
  /-- The end of what an instruction began at a node. -/
  | closing (begun : NodeId) (instruction : Instruction) (location : Location)
  /-- A loop over items, which are not known before it has begun. -/
  | rounds (opening : Location) (name : String) (select : Path.Expr) (items : Option (List Item))
      (content : List Statement) (closing : Location)

/-- The nodes of a piece whose first node is `start`. -/
def Piece.code (start : NodeId) : Piece → List Node
  | .sequence content => codeOf start content
  | .statement s => s.code start
  | .branches choice bs => branchesCode choice start bs
  | .plain i l content l' => encloseCode start i l (codeOf (start + 1) content) l'
  | .closing begun _ l => [⟨.closing begun, l, none⟩]
  | .rounds l name select _ content l' =>
    encloseCode start (.container (.each name select)) l (codeOf (start + 1) content) l'

/-- Pieces with their positions, to be done one after the other. -/
abbrev Plan := List (NodeId × Piece)

/-- The content of what began at a position, and its end. -/
def Plan.inside (start : NodeId) (i : Instruction) (content : Piece) (closing : Location) : Plan :=
  [(start + 1, content),
    (start + 1 + (content.code (start + 1)).length, .closing start i closing)]

/-- Where the alternative of a condition begins. -/
def alternativeAt (start : NodeId) (yes : List Statement) : NodeId :=
  start + (codeOf (start + 1) yes).length + 2

/-- The statements are those of a body. -/
def Body.piece (b : Body) : Piece := .plain .body b.opening b.statements b.closing

/-- All of a plan was done, or something is left of it. -/
inductive Ending where
  | finished
  | stopped

open Deed Plan in
/-- `Does env p scopes ds scopes' e`: with `scopes` at first, the deeds `ds` are what the plan
stands for, and leave `scopes'`. -/
inductive Does (env : Environment) :
    Plan → List Bindings → List Deed → List Bindings → Ending → Prop
  | stop (w : NodeId × Piece) (p : Plan) (scopes : List Bindings) :
      Does env (w :: p) scopes [] scopes .stopped
  | nil (scopes : List Bindings) : Does env [] scopes [] scopes .finished
  | within {w w' : NodeId × Piece} {p : Plan} {s s' : List Bindings} {ds : List Deed} :
      Does env [w] s ds s' .stopped → Does env (w :: w' :: p) s ds s' .stopped
  | after {w w' : NodeId × Piece} {p : Plan} {s s₁ s' : List Bindings} {ds ds' : List Deed}
      {e : Ending} : Does env [w] s ds s₁ .finished → Does env (w' :: p) s₁ ds' s' e →
      Does env (w :: w' :: p) s (ds ++ ds') s' e
  | nothing (i : NodeId) (s : List Bindings) : Does env [(i, .sequence [])] s [] s .finished
  | sequence {i : NodeId} {x : Statement} {xs : List Statement} {s s' : List Bindings}
      {ds : List Deed} {e : Ending} :
      Does env [(i, .statement x), (i + (x.code i).length, .sequence xs)] s ds s' e →
      Does env [(i, .sequence (x :: xs))] s ds s' e
  | act {i : NodeId} {l : Location} {a : Action} {s : List Bindings} {d : Deed} :
      d.Runs i (.act a) l s → d.Leaves s → Does env [(i, .statement (.act l a))] s [d] s .finished
  /-- A container that takes its value from elsewhere is passed over. -/
  | selected {i : NodeId} {l l' : Location} {c : Container} {xs : List Statement}
      {s : List Bindings} {d : Deed} (v : Value) : c.isRepeated = false →
      d.Runs i (.container c) l s → c.isSelected d.frame.passed → d.Leaves (c.bind v s) →
      Does env [(i, .statement (.enclose l c xs l'))] s [d] (c.bind v s) .finished
  /-- So is one that cannot begin, with a report. -/
  | refused {i : NodeId} {l l' : Location} {c : Container} {xs : List Statement}
      {s : List Bindings} {d : Deed} : c.isRepeated = false → d.Runs i (.container c) l s →
      c.isSelected d.frame.passed = false → d.Complains → d.Leaves s →
      Does env [(i, .statement (.enclose l c xs l'))] s [d] s .finished
  | entered {i : NodeId} {l l' : Location} {c : Container} {xs : List Statement}
      {s s' : List Bindings} {d : Deed} {ds : List Deed} {e : Ending} : c.isRepeated = false →
      d.Runs i (.container c) l s → c.isSelected d.frame.passed = false → d.Leaves ([] :: s) →
      Does env (inside i (.container c) (.sequence xs) l') ([] :: s) ds s' e →
      Does env [(i, .statement (.enclose l c xs l'))] s (d :: ds) s' e
  | loopEnds {i : NodeId} {l l' : Location} {test : Path.Expr} {xs : List Statement}
      {s : List Bindings} {d : Deed} : d.Runs i (.container (.loop test)) l s →
      d.Tests env test false → d.Leaves s →
      Does env [(i, .statement (.enclose l (.loop test) xs l'))] s [d] s .finished
  /-- The loop is done again after its content. -/
  | loop {i : NodeId} {l l' : Location} {test : Path.Expr} {xs : List Statement}
      {s s' : List Bindings} {d : Deed} {ds : List Deed} {e : Ending} :
      d.Runs i (.container (.loop test)) l s → d.Tests env test true → d.Leaves ([] :: s) →
      Does env (inside i (.container (.loop test)) (.sequence xs) l' ++
        [(i, .statement (.enclose l (.loop test) xs l'))]) ([] :: s) ds s' e →
      Does env [(i, .statement (.enclose l (.loop test) xs l'))] s (d :: ds) s' e
  | each {i : NodeId} {l l' : Location} {name : String} {select : Path.Expr}
      {xs : List Statement} {s s' : List Bindings} {ds : List Deed} {e : Ending} :
      Does env [(i, .rounds l name select none xs l')] s ds s' e →
      Does env [(i, .statement (.enclose l (.each name select) xs l'))] s ds s' e
  | roundsEnd {i : NodeId} {l l' : Location} {name : String} {select : Path.Expr}
      {items : Option (List Item)} {xs : List Statement} {s : List Bindings} {d : Deed} :
      d.Runs i (.container (.each name select)) l s → d.Draws env select [] items → d.Leaves s →
      Does env [(i, .rounds l name select items xs l')] s [d] s .finished
  /-- One round, with an item bound, and then those for the rest. -/
  | round {i : NodeId} {l l' : Location} {name : String} {select : Path.Expr}
      {items : Option (List Item)} {item : Item} {rest : List Item} {xs : List Statement}
      {s s' : List Bindings} {d : Deed} {ds : List Deed} {e : Ending} :
      d.Runs i (.container (.each name select)) l s → d.Draws env select (item :: rest) items →
      d.Leaves ([(name, ⟨[item]⟩)] :: s) →
      Does env (inside i (.container (.each name select)) (.sequence xs) l' ++
        [(i, .rounds l name select (some rest) xs l')]) ([(name, ⟨[item]⟩)] :: s) ds s' e →
      Does env [(i, .rounds l name select items xs l')] s (d :: ds) s' e
  | conditionFails {i : NodeId} {l l' : Location} {test : Path.Expr} {yes : List Statement}
      {s : List Bindings} {d : Deed} : d.Runs i (.condition test none) l s →
      d.Tests env test false → d.Leaves s →
      Does env [(i, .statement (.condition l test yes l'))] s [d] s .finished
  | condition {i : NodeId} {l l' : Location} {test : Path.Expr} {yes : List Statement}
      {s s' : List Bindings} {d : Deed} {ds : List Deed} {e : Ending} :
      d.Runs i (.condition test none) l s → d.Tests env test true → d.Leaves ([] :: s) →
      Does env (inside i (.condition test none) (.sequence yes) l') ([] :: s) ds s' e →
      Does env [(i, .statement (.condition l test yes l'))] s (d :: ds) s' e
  | eitherYes {i : NodeId} {l l' l'' : Location} {test : Path.Expr} {yes no : List Statement}
      {s s' : List Bindings} {d : Deed} {ds : List Deed} {e : Ending} :
      d.Runs i (.condition test (some (alternativeAt i yes))) l s → d.Tests env test true →
      d.Leaves ([] :: s) →
      Does env (inside i (.condition test (some (alternativeAt i yes))) (.sequence yes) l')
        ([] :: s) ds s' e →
      Does env [(i, .statement (.either l test yes l' no l''))] s (d :: ds) s' e
  | eitherNo {i : NodeId} {l l' l'' : Location} {test : Path.Expr} {yes no : List Statement}
      {s s' : List Bindings} {d : Deed} {ds : List Deed} {e : Ending} :
      d.Runs i (.condition test (some (alternativeAt i yes))) l s → d.Tests env test false →
      d.Leaves s →
      Does env [(alternativeAt i yes, .plain .alternative l' no l'')] s ds s' e →
      Does env [(i, .statement (.either l test yes l' no l''))] s (d :: ds) s' e
  | choose {i : NodeId} {l l' : Location} {bs : List Branch} {s s' : List Bindings} {d : Deed}
      {ds : List Deed} {e : Ending} : d.Runs i .choice l s → d.Leaves ([] :: s) →
      Does env (inside i .choice (.branches i bs) l') ([] :: s) ds s' e →
      Does env [(i, .statement (.choose l bs l'))] s (d :: ds) s' e
  | noBranch (i choice : NodeId) (s : List Bindings) :
      Does env [(i, .branches choice [])] s [] s .finished
  /-- The branches after one that is taken are not looked at. -/
  | when {i choice : NodeId} {l l' : Location} {test : Path.Expr} {xs : List Statement}
      {bs : List Branch} {s s' : List Bindings} {d : Deed} {ds : List Deed} {e : Ending} :
      d.Runs i (.when test choice) l s → d.Tests env test true → d.Leaves ([] :: s) →
      Does env (inside i (.when test choice) (.sequence xs) l') ([] :: s) ds s' e →
      Does env [(i, .branches choice (.when l test xs l' :: bs))] s (d :: ds) s' e
  | whenFails {i choice : NodeId} {l l' : Location} {test : Path.Expr} {xs : List Statement}
      {bs : List Branch} {s s' : List Bindings} {d : Deed} {ds : List Deed} {e : Ending} :
      d.Runs i (.when test choice) l s → d.Tests env test false → d.Leaves s →
      Does env [(i + ((Branch.when l test xs l').code choice i).length, .branches choice bs)]
        s ds s' e →
      Does env [(i, .branches choice (.when l test xs l' :: bs))] s (d :: ds) s' e
  | otherwise {i choice : NodeId} {l l' : Location} {xs : List Statement} {bs : List Branch}
      {s s' : List Bindings} {ds : List Deed} {e : Ending} :
      Does env [(i, .plain .otherwise l xs l')] s ds s' e →
      Does env [(i, .branches choice (.otherwise l xs l' :: bs))] s ds s' e
  | plain {i : NodeId} {instruction : Instruction} {l l' : Location} {xs : List Statement}
      {s s' : List Bindings} {d : Deed} {ds : List Deed} {e : Ending} :
      d.Runs i instruction l s → d.Leaves ([] :: s) →
      Does env (inside i instruction (.sequence xs) l') ([] :: s) ds s' e →
      Does env [(i, .plain instruction l xs l')] s (d :: ds) s' e
  | closing {i begun : NodeId} {instruction : Instruction} {l : Location} {s s' : List Bindings}
      {d : Deed} : d.Runs i (.closing begun) l s → d.Closes s instruction s' →
      Does env [(i, .closing begun instruction l)] s [d] s' .finished

/-! ## Bodies whose choices end with their otherwise -/

mutual

/-- An otherwise is the last branch of its choice. -/
def Statement.Tidy : Statement → Prop
  | .act .. => True
  | .enclose _ _ content _ => TidyContent content
  | .condition _ _ yes _ => TidyContent yes
  | .either _ _ yes _ no _ => TidyContent yes ∧ TidyContent no
  | .choose _ branches _ => TidyBranches branches

def TidyContent : List Statement → Prop
  | [] => True
  | s :: r => s.Tidy ∧ TidyContent r

def TidyBranches : List Branch → Prop
  | [] => True
  | .when _ _ content _ :: r => TidyContent content ∧ TidyBranches r
  | .otherwise _ content _ :: r => r = [] ∧ TidyContent content

end

def Body.Tidy (b : Body) : Prop := TidyContent b.statements

/-! ## Plans in parts -/

section
variable {env : Environment} {w : NodeId × Piece} {p q : Plan} {s s' : List Bindings}
  {ds : List Deed} {e : Ending}

/-- The deeds of a plan end in its first piece, or go on with the others. -/
theorem Does.split (h : Does env (w :: p) s ds s' e) :
    (e = .stopped ∧ Does env [w] s ds s' .stopped) ∨
      ∃ s₁ ds₁ ds₂, Does env [w] s ds₁ s₁ .finished ∧ Does env p s₁ ds₂ s' e ∧ ds = ds₁ ++ ds₂ := by
  cases p with
  | nil =>
    cases e with
    | finished => exact .inr ⟨s', ds, [], h, .nil s', by simp⟩
    | stopped => exact .inl ⟨rfl, h⟩
  | cons w' p =>
    cases h with
    | stop => exact .inl ⟨rfl, .stop w [] _⟩
    | within h => exact .inl ⟨rfl, h⟩
    | after h h' => exact .inr ⟨_, _, _, h, h', rfl⟩

theorem Does.first (p : Plan) (h : Does env [w] s ds s' .stopped) :
    Does env (w :: p) s ds s' .stopped := by
  cases p with
  | nil => exact h
  | cons w' p => exact .within h

theorem Does.cons {s₁ : List Bindings} {ds' : List Deed} (h : Does env [w] s ds s₁ .finished)
    (h' : Does env p s₁ ds' s' e) : Does env (w :: p) s (ds ++ ds') s' e := by
  cases p with
  | nil =>
    cases h'
    rwa [List.append_nil]
  | cons w' p => exact .after h h'

theorem Does.append_split (h : Does env (p ++ q) s ds s' e) :
    (e = .stopped ∧ Does env p s ds s' .stopped) ∨
      ∃ s₁ ds₁ ds₂, Does env p s ds₁ s₁ .finished ∧ Does env q s₁ ds₂ s' e ∧ ds = ds₁ ++ ds₂ := by
  induction p generalizing s ds with
  | nil => exact .inr ⟨s, [], ds, .nil s, h, rfl⟩
  | cons w p ih =>
    rcases h.split with ⟨he, hw⟩ | ⟨s₁, ds₁, ds₂, h₁, h₂, rfl⟩
    · exact .inl ⟨he, .first p hw⟩
    · rcases ih h₂ with ⟨he, hp⟩ | ⟨s₂, ds₃, ds₄, hp, hq, rfl⟩
      · exact .inl ⟨he, .cons h₁ hp⟩
      · exact .inr ⟨s₂, ds₁ ++ ds₃, ds₄, .cons h₁ hp, hq, by rw [List.append_assoc]⟩

/-- A first deed leaves a plan of its piece to be done, before the pieces that follow. -/
theorem Does.step {d : Deed} {s₁ : List Bindings}
    (hstep : ∀ ds s' e, Does env q s₁ ds s' e → Does env [w] s (d :: ds) s' e)
    (h : Does env (q ++ p) s₁ ds s' e) : Does env (w :: p) s (d :: ds) s' e := by
  rcases h.append_split with ⟨rfl, hq⟩ | ⟨s₂, ds₁, ds₂, hq, hp, rfl⟩
  · exact .first p (hstep _ _ _ hq)
  · exact .cons (hstep _ _ _ hq) hp

/-- A piece that comes to others without a deed. -/
theorem Does.unfold (hsame : ∀ ds s' e, Does env q s ds s' e → Does env [w] s ds s' e)
    (h : Does env (q ++ p) s ds s' e) : Does env (w :: p) s ds s' e := by
  rcases h.append_split with ⟨rfl, hq⟩ | ⟨s₂, ds₁, ds₂, hq, hp, rfl⟩
  · exact .first p (hsame _ _ _ hq)
  · exact .cons (hsame _ _ _ hq) hp

end

end StreamTransform
