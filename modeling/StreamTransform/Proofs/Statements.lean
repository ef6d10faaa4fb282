import StreamTransform.Program.Code

/-!
# Bodies as trees

The content of a template, a procedure or a group as a tree, with the location of the start and of
the end of every construct, and the code that such a tree is laid out as.
-/

namespace StreamTransform

mutual

inductive Statement where
  | act (location : Location) (action : Action)
  | enclose (opening : Location) (container : Container) (content : List Statement)
      (closing : Location)
  /-- The content is entered if the test holds. -/
  | condition (opening : Location) (test : Path.Expr) (yes : List Statement) (closing : Location)
  /-- One of two contents is entered. -/
  | either (opening : Location) (test : Path.Expr) (yes : List Statement) (between : Location)
      (no : List Statement) (closing : Location)
  /-- The first branch whose test holds is entered. -/
  | choose (opening : Location) (branches : List Branch) (closing : Location)

inductive Branch where
  | when (opening : Location) (test : Path.Expr) (content : List Statement) (closing : Location)
  | otherwise (opening : Location) (content : List Statement) (closing : Location)

end

/-- The statements of a body between the locations of its start and its end. -/
structure Body where
  opening : Location
  statements : List Statement
  closing : Location

/-! ## Code -/

/-- A start node at `start`, the nodes of its content and its closing node. -/
def encloseCode (start : NodeId) (instruction : Instruction) (opening : Location)
    (content : List Node) (closing : Location) : List Node :=
  ⟨instruction, opening, some (start + 1 + content.length)⟩ ::
    content ++ [⟨.closing start, closing, none⟩]

@[simp] theorem length_encloseCode (start : NodeId) (i : Instruction) (l l' : Location)
    (content : List Node) : (encloseCode start i l content l').length = content.length + 2 := by
  simp [encloseCode]

mutual

/-- The nodes of a statement whose first node is `start`. -/
def Statement.code (start : NodeId) : Statement → List Node
  | .act l a => [⟨.act a, l, none⟩]
  | .enclose l c content l' =>
    encloseCode start (.container c) l (codeOf (start + 1) content) l'
  | .condition l test yes l' =>
    encloseCode start (.condition test none) l (codeOf (start + 1) yes) l'
  | .either l test yes between no l' =>
    let content := codeOf (start + 1) yes
    let other := start + content.length + 2
    encloseCode start (.condition test (some other)) l content between
      ++ encloseCode other .alternative between (codeOf (other + 1) no) l'
  | .choose l branches l' =>
    encloseCode start .choice l (branchesCode start (start + 1) branches) l'

def Branch.code (choice start : NodeId) : Branch → List Node
  | .when l test content l' =>
    encloseCode start (.when test choice) l (codeOf (start + 1) content) l'
  | .otherwise l content l' =>
    encloseCode start .otherwise l (codeOf (start + 1) content) l'

def codeOf (start : NodeId) : List Statement → List Node
  | [] => []
  | s :: r =>
    let first := s.code start
    first ++ codeOf (start + first.length) r

def branchesCode (choice start : NodeId) : List Branch → List Node
  | [] => []
  | b :: r =>
    let first := b.code choice start
    first ++ branchesCode choice (start + first.length) r

end

def Body.code (start : NodeId) (b : Body) : List Node :=
  encloseCode start .body b.opening (codeOf (start + 1) b.statements) b.closing

/-! ## The inside of a body -/

/-- None of the nodes starts a body. -/
def Inside (ns : List Node) : Prop := ∀ n ∈ ns, n.instruction ≠ .body

theorem inside_append {ns ms : List Node} (h : Inside ns) (h' : Inside ms) : Inside (ns ++ ms) :=
  fun n hn => (List.mem_append.mp hn).elim (h n) (h' n)

theorem inside_closing (start : NodeId) (l : Location) : Inside [⟨.closing start, l, none⟩] := by
  intro n hn
  obtain rfl := List.mem_singleton.mp hn
  exact nofun

theorem inside_encloseCode {start : NodeId} {i : Instruction} {content : List Node}
    (l l' : Location) (hi : i ≠ .body) (h : Inside content) :
    Inside (encloseCode start i l content l') :=
  List.forall_mem_cons.mpr ⟨hi, inside_append h (inside_closing start l')⟩

mutual

theorem Statement.inside_code (start : NodeId) : ∀ s : Statement, Inside (s.code start)
  | .act l a => fun n hn => by
    obtain rfl := List.mem_singleton.mp hn
    exact nofun
  | .enclose l c content l' => inside_encloseCode l l' nofun (inside_codeOf _ content)
  | .condition l _ yes l' => inside_encloseCode l l' nofun (inside_codeOf _ yes)
  | .either l _ yes between no l' =>
    inside_append (inside_encloseCode l between nofun (inside_codeOf _ yes))
      (inside_encloseCode between l' nofun (inside_codeOf _ no))
  | .choose l branches l' => inside_encloseCode l l' nofun (inside_branchesCode _ _ branches)

theorem Branch.inside_code (choice start : NodeId) : ∀ b : Branch, Inside (b.code choice start)
  | .when l _ content l' => inside_encloseCode l l' nofun (inside_codeOf _ content)
  | .otherwise l content l' => inside_encloseCode l l' nofun (inside_codeOf _ content)

theorem inside_codeOf (start : NodeId) : ∀ ss : List Statement, Inside (codeOf start ss)
  | [] => List.forall_mem_nil _
  | s :: ss => inside_append (s.inside_code start) (inside_codeOf _ ss)

theorem inside_branchesCode (choice start : NodeId) :
    ∀ bs : List Branch, Inside (branchesCode choice start bs)
  | [] => List.forall_mem_nil _
  | b :: bs => inside_append (b.inside_code choice start) (inside_branchesCode _ _ bs)

end

end StreamTransform
