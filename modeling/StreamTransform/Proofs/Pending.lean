import StreamTransform.Proofs.Deeds
import StreamTransform.Proofs.Layout

/-!
# What a frame has still to do

The cursor of a frame and its loops stand for a plan: what is left of the body
at that place. The pieces of the plan are laid out in the code so that each
leads to the next, and a deed of the frame takes the first of them further. So
a frame follows the tree of its body, wherever jumps take it.
-/

namespace StreamTransform

/-- The instruction enters its content in any case. -/
def Instruction.isPlain : Instruction → Bool
  | .body | .alternative | .choice | .otherwise => true
  | .act _ | .container _ | .condition .. | .when .. | .closing _ => false

/-- The test that decides whether the content is entered. -/
def Instruction.test? : Instruction → Option Path.Expr
  | .container (.loop test) | .condition test _ | .when test _ => some test
  | _ => none

/-- The place of the closing node of what starts at a node, seen from another place. -/
def closeFrom (code : Array Node) (place start : NodeId) : NodeId :=
  match code[start]? with
  | some n => n.close.getD place
  | none => place + 1

/-- Where control is after the closing node at `place` of what an instruction began. After a body
it is nowhere. -/
def Instruction.exit? (code : Array Node) (begun place : NodeId) : Instruction → Option NodeId
  | .body => none
  | .container c => some (if c.isRepeated then begun else place + 1)
  | .condition _ (some other) => some (closeFrom code place other + 1)
  | .when _ c => some (closeFrom code place c)
  | .condition _ none | .alternative | .choice | .otherwise | .act _ | .closing _ =>
    some (place + 1)

namespace Piece

def Tidy : Piece → Prop
  | .sequence xs | .rounds _ _ _ _ xs _ => TidyContent xs
  | .statement x => x.Tidy
  | .branches _ bs => TidyBranches bs
  | .plain i _ xs _ => i.isPlain ∧ TidyContent xs
  | .closing .. => True

/-- Where control is once the piece is done. -/
def exit? (code : Array Node) (start : NodeId) : Piece → Option NodeId
  | .closing begun i _ => i.exit? code begun start
  | .plain i _ xs _ => i.exit? code start (start + 1 + (codeOf (start + 1) xs).length)
  | .sequence xs => some (start + (codeOf start xs).length)
  | .statement x => some (start + (x.code start).length)
  | .branches choice bs => some (start + (branchesCode choice start bs).length)
  | .rounds _ _ _ _ xs _ => some (start + 1 + (codeOf (start + 1) xs).length + 1)

/-- The items left of a loop that has begun. -/
def loop? (start : NodeId) : Piece → Option Loop
  | .rounds _ _ _ items _ _ => items.map fun rest => ⟨start, rest⟩
  | .sequence _ | .statement _ | .branches .. | .plain .. | .closing .. => none

/-- The piece can stand between a start and its end. -/
def isContent : Piece → Bool
  | .sequence _ | .branches .. => true
  | .statement _ | .plain .. | .closing .. | .rounds .. => false

/-- The piece stands for itself, neither as the end of a start nor as branches of a choice. -/
def isFree : Piece → Bool
  | .closing .. | .branches .. => false
  | .sequence _ | .statement _ | .plain .. | .rounds .. => true

/-- The piece is laid out in the code. An end is the end of what it says, and branches are the last
ones of their choice. -/
structure Laid (code : Array Node) (start : NodeId) (x : Piece) : Prop where
  sits : Sits code start (x.code start)
  tidy : x.Tidy
  begun : ∀ b i l, x = .closing b i l → ∃ n, code[b]? = some n ∧ n.instruction = i
  chosen : ∀ choice bs, x = .branches choice bs → ∀ place,
    closeFrom code place choice = start + (branchesCode choice start bs).length

end Piece

namespace Plan

/-- The loops that have begun, innermost first. -/
def loops (p : Plan) : List Loop := p.filterMap fun w => w.2.loop? w.1

/-- From a place control goes through the pieces of the plan. A loop is further out than what comes
before it. -/
def Pending (code : Array Node) : Option NodeId → Plan → Prop
  | place, [] => place = none
  | place, (i, x) :: rest => place = some i ∧ x.Laid code i ∧ (∀ l ∈ loops rest, l.node < i) ∧
      Pending code (x.exit? code i) rest

@[simp] theorem loops_nil : loops [] = [] := rfl

theorem loops_cons (i : NodeId) (x : Piece) (p : Plan) :
    loops ((i, x) :: p) = (x.loop? i).toList ++ p.loops := by
  cases h : x.loop? i <;> simp [loops, h]

end Plan

/-- The plan is what a frame has still to do. -/
structure Frame.Awaits (code : Array Node) (f : Frame) (p : Plan) : Prop where
  pending : p.Pending code (some f.cursor)
  loops : f.loops = p.loops

/-- The deed executes the node at the cursor of its frame. -/
structure Deed.Happens (env : Environment) (d : Deed) : Prop where
  node : env.program.code[d.frame.cursor]? = some d.node
  yields : (Operation.execute env d.activation d.frame d.node).Yields d.before d.flow d.after

namespace Deed.Happens

variable {env : Environment} {d : Deed} (hd : d.Happens env)
include hd

theorem act {action : Action} (hi : d.node.instruction = .act action) :
    (Operation.act env d.activation d.frame action).Yields d.before d.flow d.after := by
  have hy := hd.yields
  rwa [Operation.execute, hi] at hy

theorem startContainer {c : Container} (hi : d.node.instruction = .container c) :
    (Operation.startContainer env d.activation d.frame d.node c).Yields d.before d.flow
      d.after := by
  have hy := hd.yields
  rwa [Operation.execute, hi] at hy

theorem closeAt {b : NodeId} (hi : d.node.instruction = .closing b) :
    (Operation.closeAt env d.activation d.frame.leave b).Yields d.before d.flow d.after := by
  have hy := hd.yields
  rwa [Operation.execute, hi] at hy

end Deed.Happens

/-- The deed is the first of a plan: its frame awaits the rest, or has ended. -/
inductive Deed.Begins (env : Environment) (d : Deed) (p : Plan) : Prop
  | on {f : Frame} {q : Plan} : d.flow.frame? = some f → f.group = d.frame.group →
      f.passed = d.frame.passed → f.Awaits env.program.code q →
      (∀ ds s e, Does env q f.scopes ds s e → Does env p d.frame.scopes (d :: ds) s e) →
      Begins env d p
  | done : d.flow = .done → Does env p d.frame.scopes [d] d.frame.scopes.tail .finished →
      Begins env d p

/-- The frame goes on with the closing node of what starts at a node. -/
theorem Operation.leaveTo_eq (env : Environment) (f : Frame) (node : NodeId) :
    leaveTo env f node = f.moveTo (closeFrom env.program.code f.cursor node) := by
  cases h : env.program.code[node]? <;> simp [leaveTo, closeFrom, Frame.next, h]

/-! ## Pieces of code -/

section
variable {code : Array Node} {i : NodeId} {instruction : Instruction} {l l' : Location}

/-- What follows a content with its end follows its closing node. -/
theorem Plan.pending_after {content : List Node} {rest : Plan} (h : rest.Pending code
    (some (i + (encloseCode i instruction l content l').length))) :
    rest.Pending code (some (i + 1 + content.length + 1)) := by
  have hsum : ∀ n k : Nat, n + (k + 2) = n + 1 + k + 1 := by omega
  rwa [length_encloseCode, hsum] at h

theorem Piece.laid_of_free {x : Piece} (hs : Sits code i (x.code i)) (ht : x.Tidy)
    (hx : x.isFree) : x.Laid code i where
  sits := hs
  tidy := ht
  begun b j m h := by simp [h, Piece.isFree] at hx
  chosen choice bs h := by simp [h, Piece.isFree] at hx

theorem Piece.laid_sequence {xs : List Statement} (hs : Sits code i (codeOf i xs))
    (ht : TidyContent xs) : (Piece.sequence xs).Laid code i := Piece.laid_of_free hs ht rfl

/-- What is left once a content has been entered. -/
theorem Plan.pending_inside {x : Piece} {rest : Plan} (hc : x.isContent)
    (hs : Sits code i (encloseCode i instruction l (x.code (i + 1)) l')) (hx : x.Laid code (i + 1))
    (hrest : rest.Pending code (instruction.exit? code i (i + 1 + (x.code (i + 1)).length)))
    (hloops : ∀ l ∈ rest.loops, l.node ≤ i) :
    Pending code (some (i + 1)) (inside i instruction x l' ++ rest) := by
  have outside : ∀ l ∈ loops rest, l.node < i + 1 := fun l hl => Nat.lt_succ_of_le (hloops l hl)
  have hexit : x.exit? code (i + 1) = some (i + 1 + (x.code (i + 1)).length) := by
    cases x <;> first | rfl | cases hc
  refine ⟨rfl, hx, outside, hexit, ⟨hs.tail.append.2, trivial, ?_, nofun⟩,
    fun l hl => Nat.lt_of_lt_of_le (outside l hl) (Nat.le_add_right _ _), hrest⟩
  rintro b j m heq
  obtain ⟨rfl, rfl, rfl⟩ := Piece.closing.inj heq
  exact ⟨_, hs.head, rfl⟩

theorem Plan.loops_inside {x : Piece} (hc : x.isContent) (rest : Plan) :
    loops (inside i instruction x l' ++ rest) = loops rest := by
  have hx : x.loop? (i + 1) = none := by
    cases x <;> first | rfl | cases hc
  change loops ((i + 1, x) :: (_, .closing i instruction l') :: rest) = _
  rw [loops_cons, loops_cons, hx]
  rfl

end

/-! ## First deeds -/

theorem Deed.Happens.node_eq {env : Environment} {d : Deed} {n : Node} (h : d.Happens env)
    (hn : env.program.code[d.frame.cursor]? = some n) : d.node = n :=
  Option.some.inj (h.node.symm.trans hn)

namespace Deed

variable {env : Environment} {d : Deed} {w : NodeId × Piece} {q rest : Plan} {cursor : NodeId}
  {scopes : List Bindings} {loops : List Loop}

theorem runs_of_node {i : Instruction} {l : Location} {close : Option NodeId}
    (h : d.node = ⟨i, l, close⟩) : d.Runs d.frame.cursor i l d.frame.scopes := by
  constructor <;> simp [h]

theorem leaves_of_goes (h : d.flow.Goes d.frame cursor scopes loops) : d.Leaves scopes := by
  obtain ⟨owed, h⟩ := h
  exact ⟨_, h, rfl⟩

/-- After a first deed the rest of its piece comes before the pieces that follow. -/
theorem Begins.of_step (hg : d.flow.Goes d.frame cursor scopes loops)
    (hp : Plan.Pending env.program.code (some cursor) (q ++ rest))
    (hl : loops = Plan.loops (q ++ rest))
    (hstep : ∀ ds s e, Does env q scopes ds s e → Does env [w] d.frame.scopes (d :: ds) s e) :
    d.Begins env (w :: rest) := by
  obtain ⟨owed, hf⟩ := hg
  exact .on hf rfl rfl ⟨hp, hl⟩ fun ds s e h => .step hstep h

/-- A deed that is all of its piece. -/
theorem Begins.of_only (hg : d.flow.Goes d.frame cursor scopes loops)
    (hp : Plan.Pending env.program.code (some cursor) rest) (hl : loops = Plan.loops rest)
    (hdoes : Does env [w] d.frame.scopes [d] scopes .finished) : d.Begins env (w :: rest) := by
  refine .of_step (q := []) hg hp hl fun ds s e h => ?_
  cases h
  exact hdoes

/-- A piece that comes to others without a deed. -/
theorem Begins.of_same
    (hsame : ∀ ds s e, Does env q d.frame.scopes ds s e → Does env [w] d.frame.scopes ds s e)
    (h : d.Begins env (q ++ rest)) : d.Begins env (w :: rest) := by
  cases h with
  | on hf hgroup hpassed hawaits hdoes =>
    exact .on hf hgroup hpassed hawaits fun ds s e h => .unfold hsame (hdoes ds s e h)
  | done hflow hdoes => exact .done hflow (.unfold hsame hdoes)

/-- A content is entered, and something may be done again after its end. -/
theorem Begins.of_content {x : Piece} {i : Instruction} {l l' : Location} {b : Bindings}
    (again : Plan) (hg : d.flow.Goes d.frame (d.frame.cursor + 1) (b :: d.frame.scopes) loops)
    (hc : x.isContent) (hs : Sits env.program.code d.frame.cursor
      (encloseCode d.frame.cursor i l (x.code (d.frame.cursor + 1)) l'))
    (hx : x.Laid env.program.code (d.frame.cursor + 1))
    (hp : Plan.Pending env.program.code (i.exit? env.program.code d.frame.cursor
      (d.frame.cursor + 1 + (x.code (d.frame.cursor + 1)).length)) (again ++ rest))
    (hl : loops = Plan.loops (again ++ rest))
    (hloops : ∀ l ∈ Plan.loops (again ++ rest), l.node ≤ d.frame.cursor)
    (hstep : ∀ ds s e, Does env (Plan.inside d.frame.cursor i x l' ++ again)
      (b :: d.frame.scopes) ds s e → Does env [w] d.frame.scopes (d :: ds) s e) :
    d.Begins env (w :: rest) := by
  refine .of_step hg ?_ ?_ hstep
  · rw [List.append_assoc]
    exact Plan.pending_inside hc hs hx hp hloops
  · rw [List.append_assoc, Plan.loops_inside hc, hl]

/-- The deed executes the start of a content. -/
theorem opens {i : Instruction} {l l' : Location} {content : List Node} (hd : d.Happens env)
    (hs : Sits env.program.code d.frame.cursor (encloseCode d.frame.cursor i l content l')) :
    d.Runs d.frame.cursor i l d.frame.scopes ∧
      d.node.close = some (d.frame.cursor + 1 + content.length) := by
  have hnode := hd.node_eq hs.head
  exact ⟨runs_of_node hnode, by rw [hnode]⟩

theorem enters {i : Instruction} {l : Location} (hd : d.Happens env) (hr : d.Runs cursor i l scopes)
    (hi : i.isPlain) :
    d.flow.Goes d.frame (d.frame.cursor + 1) ([] :: d.frame.scopes) d.frame.loops := by
  have hexecute : Operation.execute env d.activation d.frame d.node = pure (.on d.frame.enter) := by
    rw [Operation.execute, hr.instruction]
    cases i <;> first | rfl | cases hi
  have hy := hd.yields
  rw [hexecute] at hy
  obtain ⟨hflow, -⟩ := Operation.yields_pure.mp hy
  exact ⟨d.frame.owed, congrArg Flow.frame? hflow⟩

/-- A test decides whether the content is entered. -/
theorem tested {i : Instruction} {l : Location} {test : Path.Expr} {close : NodeId}
    (hd : d.Happens env) (hr : d.Runs cursor i l scopes)
    (hi : i.test? = some test) (hclose : d.node.close = some close) :
    d.Tests env test true ∧
        d.flow.Goes d.frame (d.frame.cursor + 1) ([] :: d.frame.scopes) d.frame.loops ∨
      d.Tests env test false ∧ d.flow.Goes d.frame (close + 1) d.frame.scopes d.frame.loops := by
  have hy := hd.yields
  have hexecute : Operation.execute env d.activation d.frame d.node =
      Operation.enterIf env d.activation d.frame d.node test := by
    rw [Operation.execute, hr.instruction]
    unfold Instruction.test? at hi
    split at hi <;> cases hi <;> rfl
  rw [hexecute] at hy
  obtain ⟨v, hv, hflow⟩ := Operation.yields_enterIf hy
  rw [hflow]
  cases hb : v.toBoolean with
  | true => exact .inl ⟨⟨v, hv, hb⟩, d.frame.owed, rfl⟩
  | false => exact .inr ⟨⟨v, hv, hb⟩, Operation.goes_skip hclose d.frame.scopes⟩

section
variable {i : NodeId} {l l' : Location} (hd : d.Happens env) (hi : d.frame.cursor = i)
  (hloops : ∀ l ∈ Plan.loops rest, l.node < i) (hl : d.frame.loops = Plan.loops rest)
include hd hi hl

theorem begins_act {a : Action}
    (hx : (Piece.statement (.act l a)).Laid env.program.code i)
    (hrest : rest.Pending env.program.code
      ((Piece.statement (.act l a)).exit? env.program.code i)) :
    d.Begins env ((i, .statement (.act l a)) :: rest) := by
  subst hi
  have hnode := hd.node_eq hx.sits.head
  have hg : d.flow.Goes d.frame (d.frame.cursor + 1) d.frame.scopes d.frame.loops := by
    have hy := hd.yields
    rw [hnode] at hy
    exact Operation.goes_act a _ _ _ hy
  exact .of_only hg hrest hl (.act (runs_of_node hnode) (leaves_of_goes hg))

include hloops

theorem begins_enclose {c : Container} {xs : List Statement} (hr : c.isRepeated = false)
    (hx : (Piece.statement (.enclose l c xs l')).Laid env.program.code i)
    (hrest : rest.Pending env.program.code
      ((Piece.statement (.enclose l c xs l')).exit? env.program.code i)) :
    d.Begins env ((i, .statement (.enclose l c xs l')) :: rest) := by
  subst hi
  obtain ⟨hruns, hclose⟩ := opens hd hx.sits
  have hy := hd.startContainer hruns.instruction
  have hexit : rest.Pending env.program.code
      (some (d.frame.cursor + 1 + (codeOf (d.frame.cursor + 1) xs).length + 1)) :=
    Plan.pending_after hrest
  cases hc : c.isSelected d.frame.passed with
  | true =>
    obtain ⟨v, hg⟩ := Operation.passes_startContainer hclose c hc _ _ _ hy
    exact .of_only hg hexit hl (.selected v hr hruns hc (leaves_of_goes hg))
  | false =>
    rcases Operation.unless_startContainer hclose c hr hc _ _ _ hy with hg | ⟨hg, hreports⟩
    · refine .of_content (x := .sequence xs) [] hg rfl hx.sits
        (Piece.laid_sequence hx.sits.tail.append.1 hx.tidy) ?_ hl
        (fun l hl => Nat.le_of_lt (hloops l hl))
        fun ds s e => .entered hr hruns hc (leaves_of_goes hg)
      rw [Instruction.exit?, hr]
      exact hexit
    · exact .of_only hg hexit hl (.refused hr hruns hc hreports (leaves_of_goes hg))

theorem begins_loop {test : Path.Expr} {xs : List Statement}
    (hx : (Piece.statement (.enclose l (.loop test) xs l')).Laid env.program.code i)
    (hrest : rest.Pending env.program.code
      ((Piece.statement (.enclose l (.loop test) xs l')).exit? env.program.code i)) :
    d.Begins env ((i, .statement (.enclose l (.loop test) xs l')) :: rest) := by
  subst hi
  obtain ⟨hruns, hclose⟩ := opens hd hx.sits
  rcases tested hd hruns rfl hclose with ⟨htest, hg⟩ | ⟨htest, hg⟩
  · let again : Plan := [(d.frame.cursor, .statement (.enclose l (.loop test) xs l'))]
    have hagain : Plan.Pending env.program.code (some d.frame.cursor) (again ++ rest) :=
      ⟨rfl, hx, hloops, hrest⟩
    exact .of_content (x := .sequence xs) again hg rfl hx.sits
      (Piece.laid_sequence hx.sits.tail.append.1 hx.tidy) hagain hl
      (fun l hl => Nat.le_of_lt (hloops l hl)) fun ds s e => .loop hruns htest (leaves_of_goes hg)
  · exact .of_only hg (Plan.pending_after hrest) hl (.loopEnds hruns htest (leaves_of_goes hg))

theorem begins_condition {test : Path.Expr} {yes : List Statement}
    (hx : (Piece.statement (.condition l test yes l')).Laid env.program.code i)
    (hrest : rest.Pending env.program.code
      ((Piece.statement (.condition l test yes l')).exit? env.program.code i)) :
    d.Begins env ((i, .statement (.condition l test yes l')) :: rest) := by
  subst hi
  obtain ⟨hruns, hclose⟩ := opens hd hx.sits
  have hexit : rest.Pending env.program.code
      (some (d.frame.cursor + 1 + (codeOf (d.frame.cursor + 1) yes).length + 1)) :=
    Plan.pending_after hrest
  rcases tested hd hruns rfl hclose with ⟨htest, hg⟩ | ⟨htest, hg⟩
  · exact .of_content (x := .sequence yes) [] hg rfl hx.sits
      (Piece.laid_sequence hx.sits.tail.append.1 hx.tidy) hexit hl
      (fun l hl => Nat.le_of_lt (hloops l hl))
      fun ds s e => .condition hruns htest (leaves_of_goes hg)
  · exact .of_only hg hexit hl (.conditionFails hruns htest (leaves_of_goes hg))

theorem begins_either {test : Path.Expr} {yes no : List Statement} {between : Location}
    (hx : (Piece.statement (.either l test yes between no l')).Laid env.program.code i)
    (hrest : rest.Pending env.program.code
      ((Piece.statement (.either l test yes between no l')).exit? env.program.code i)) :
    d.Begins env ((i, .statement (.either l test yes between no l')) :: rest) := by
  subst hi
  let other := alternativeAt d.frame.cursor yes
  have hsits : Sits env.program.code d.frame.cursor (encloseCode d.frame.cursor
      (.condition test (some other)) l (codeOf (d.frame.cursor + 1) yes) between ++
      encloseCode other .alternative between (codeOf (other + 1) no) l') := hx.sits
  obtain ⟨hfirst, hsecond⟩ := hsits.append
  rw [length_encloseCode] at hsecond
  have hother : d.frame.cursor + ((codeOf (d.frame.cursor + 1) yes).length + 2) = other := rfl
  rw [hother] at hsecond
  have hsum : ∀ n k j : Nat, n + (k + 2 + (j + 2)) = n + k + 2 + 1 + j + 1 := by omega
  have hexit : rest.Pending env.program.code
      (some (other + 1 + (codeOf (other + 1) no).length + 1)) := by
    simp only [Piece.exit?, Statement.code, List.length_append, length_encloseCode] at hrest
    rw [hsum] at hrest
    exact hrest
  obtain ⟨hruns, hclose⟩ := opens hd hfirst
  rcases tested hd hruns rfl hclose with ⟨htest, hg⟩ | ⟨htest, hg⟩
  · refine .of_content (x := .sequence yes) [] hg rfl hfirst
      (Piece.laid_sequence hfirst.tail.append.1 hx.tidy.1) ?_ hl
      (fun l hl => Nat.le_of_lt (hloops l hl))
      fun ds s e => .eitherYes hruns htest (leaves_of_goes hg)
    simp only [Instruction.exit?, closeFrom, hsecond.head, Option.getD_some]
    exact hexit
  · refine .of_step (q := [(other, .plain .alternative between no l')]) hg
      ⟨?_, Piece.laid_of_free hsecond ⟨rfl, hx.tidy.2⟩ rfl, fun l hl => ?_, hexit⟩ hl
      fun ds s e => .eitherNo hruns htest (leaves_of_goes hg)
    · rw [Nat.add_right_comm d.frame.cursor 1]
      rfl
    · exact Nat.lt_of_lt_of_le (hloops l hl) (Nat.le_add_right_of_le (Nat.le_add_right _ _))

theorem begins_choose {bs : List Branch}
    (hx : (Piece.statement (.choose l bs l')).Laid env.program.code i)
    (hrest : rest.Pending env.program.code
      ((Piece.statement (.choose l bs l')).exit? env.program.code i)) :
    d.Begins env ((i, .statement (.choose l bs l')) :: rest) := by
  subst hi
  obtain ⟨hruns, hclose⟩ := opens hd hx.sits
  have hg := enters hd hruns rfl
  have hbranches :
      (Piece.branches d.frame.cursor bs).Laid env.program.code (d.frame.cursor + 1) := by
    refine ⟨hx.sits.tail.append.1, hx.tidy, nofun, ?_⟩
    rintro c bs' heq place
    obtain ⟨rfl, rfl⟩ := Piece.branches.inj heq
    rw [closeFrom, hx.sits.head]
    rfl
  exact .of_content (x := .branches d.frame.cursor bs) [] hg rfl hx.sits hbranches
    (Plan.pending_after hrest) hl (fun l hl => Nat.le_of_lt (hloops l hl))
    fun ds s e => .choose hruns (leaves_of_goes hg)

theorem begins_when {choice : NodeId} {test : Path.Expr} {xs : List Statement} {bs : List Branch}
    (hx : (Piece.branches choice (.when l test xs l' :: bs)).Laid env.program.code i)
    (hrest : rest.Pending env.program.code
      ((Piece.branches choice (.when l test xs l' :: bs)).exit? env.program.code i)) :
    d.Begins env ((i, .branches choice (.when l test xs l' :: bs)) :: rest) := by
  subst hi
  have hsits : Sits env.program.code d.frame.cursor (encloseCode d.frame.cursor
      (.when test choice) l (codeOf (d.frame.cursor + 1) xs) l' ++ branchesCode choice _ bs) :=
    hx.sits
  obtain ⟨hfirst, hothers⟩ := hsits.append
  obtain ⟨hruns, hclose⟩ := opens hd hfirst
  rcases tested hd hruns rfl hclose with ⟨htest, hg⟩ | ⟨htest, hg⟩
  · refine .of_content (x := .sequence xs) [] hg rfl hfirst
      (Piece.laid_sequence hfirst.tail.append.1 hx.tidy.1) ?_ hl
      (fun l hl => Nat.le_of_lt (hloops l hl))
      fun ds s e => .when hruns htest (leaves_of_goes hg)
    rw [Instruction.exit?, hx.chosen choice _ rfl]
    exact hrest
  · let next := d.frame.cursor + ((Branch.when l test xs l').code choice d.frame.cursor).length
    have hlength : d.frame.cursor + (branchesCode choice d.frame.cursor
        (.when l test xs l' :: bs)).length = next + (branchesCode choice next bs).length := by
      rw [branchesCode, List.length_append, ← Nat.add_assoc]
    refine .of_step (q := [(next, .branches choice bs)]) hg
      ⟨?_, ⟨hothers, hx.tidy.2, nofun, ?_⟩, fun l hl => ?_, ?_⟩ hl
      fun ds s e => .whenFails hruns htest (leaves_of_goes hg)
    · have hsum : ∀ n k : Nat, n + 1 + k + 1 = n + (k + 2) := by omega
      rw [hsum, ← length_encloseCode d.frame.cursor (.when test choice) l l']
      rfl
    · rintro c bs' heq place
      obtain ⟨rfl, rfl⟩ := Piece.branches.inj heq
      rw [hx.chosen choice _ rfl, hlength]
    · exact Nat.lt_of_lt_of_le (hloops l hl) (Nat.le_add_right _ _)
    · rw [Piece.exit?, hlength] at hrest
      exact hrest

/-- A start that enters its content in any case. -/
theorem begins_plain {instruction : Instruction} {xs : List Statement}
    (hx : (Piece.plain instruction l xs l').Laid env.program.code i)
    (hrest : rest.Pending env.program.code
      ((Piece.plain instruction l xs l').exit? env.program.code i)) :
    d.Begins env ((i, .plain instruction l xs l') :: rest) := by
  subst hi
  obtain ⟨hruns, hclose⟩ := opens hd hx.sits
  have hg := enters hd hruns hx.tidy.1
  exact .of_content (x := .sequence xs) [] hg rfl hx.sits
    (Piece.laid_sequence hx.sits.tail.append.1 hx.tidy.2) hrest hl
    (fun l hl => Nat.le_of_lt (hloops l hl)) fun ds s e => .plain hruns (leaves_of_goes hg)

omit hd hl in
/-- The items of a loop are selected when it begins, and known in every later round. -/
theorem draws {select : Path.Expr} {name : String} {items : Option (List Item)}
    {xs : List Statement} {g : Frame}
    (hl : d.frame.loops = Plan.loops ((i, .rounds l name select items xs l') :: rest))
    (hg : (Operation.enterLoop env d.activation d.frame select).Yields d.before g d.after) :
    ∃ left, d.Draws env select left items ∧
      g = { d.frame with loops := ⟨i, left⟩ :: Plan.loops rest } := by
  subst hi
  cases items with
  | none =>
    have hnew : ((d.frame.loops.head?.map Loop.node) == some d.frame.cursor) = false := by
      change d.frame.loops = Plan.loops rest at hl
      rw [hl]
      cases hrest : Plan.loops rest with
      | nil => rfl
      | cons first others =>
        have hlt : first.node < d.frame.cursor := hloops first (hrest ▸ List.mem_cons_self)
        simpa using Nat.ne_of_lt hlt
    rw [Operation.enterLoop, hnew] at hg
    obtain ⟨v, s₁, hv, hg⟩ := Operation.yields_bind.mp hg
    obtain ⟨rfl, rfl⟩ := Operation.yields_pure.mp hg
    exact ⟨v.items, ⟨v, hv, rfl⟩, by rw [hl]; rfl⟩
  | some known =>
    have hbegun : ((d.frame.loops.head?.map Loop.node) == some d.frame.cursor) = true := by
      rw [hl]
      exact beq_self_eq_true (some d.frame.cursor)
    rw [Operation.enterLoop, hbegun] at hg
    obtain ⟨rfl, hafter⟩ := Operation.yields_pure.mp hg
    have hloop : d.frame.loops = ⟨d.frame.cursor, known⟩ :: Plan.loops rest := hl
    exact ⟨known, ⟨rfl, hafter⟩, by rw [← hloop]⟩

omit hl in
theorem begins_rounds {select : Path.Expr} {name : String} {items : Option (List Item)}
    {xs : List Statement}
    (hl : d.frame.loops = Plan.loops ((i, .rounds l name select items xs l') :: rest))
    (hx : (Piece.rounds l name select items xs l').Laid env.program.code i)
    (hrest : rest.Pending env.program.code
      ((Piece.rounds l name select items xs l').exit? env.program.code i)) :
    d.Begins env ((i, .rounds l name select items xs l') :: rest) := by
  subst hi
  obtain ⟨hruns, hclose⟩ := opens hd hx.sits
  have hy := hd.yields
  rw [Operation.execute, hruns.instruction] at hy
  obtain ⟨g, s₁, hg, hy⟩ := Operation.yields_bind.mp hy
  rw [← Operation.after_nextItem hy] at hg
  obtain ⟨left, hleft, rfl⟩ := draws rfl hloops hl hg
  cases left with
  | nil =>
    obtain ⟨hflow, -⟩ := Operation.yields_pure.mp hy
    have hg : d.flow.Goes d.frame (d.frame.cursor + 1 + (codeOf (d.frame.cursor + 1) xs).length + 1)
        d.frame.scopes (Plan.loops rest) := by
      rw [hflow]
      exact ⟨d.frame.owed, by simp [Flow.frame?, Frame.skip, Frame.moveTo, hclose]⟩
    exact .of_only hg hrest rfl (.roundsEnd hruns hleft (leaves_of_goes hg))
  | cons item left =>
    obtain ⟨hflow, -⟩ := Operation.yields_pure.mp hy
    let again : Plan := [(d.frame.cursor, .rounds l name select (some left) xs l')]
    have hg : d.flow.Goes d.frame (d.frame.cursor + 1)
        ([(name, ⟨[item]⟩)] :: d.frame.scopes) (Plan.loops (again ++ rest)) := by
      rw [hflow]
      exact ⟨d.frame.owed, rfl⟩
    have hagain : Plan.Pending env.program.code (some d.frame.cursor) (again ++ rest) :=
      ⟨rfl, Piece.laid_of_free hx.sits hx.tidy rfl, hloops, hrest⟩
    have hinner : ∀ l ∈ Plan.loops (again ++ rest), l.node ≤ d.frame.cursor := by
      rintro l (_ | ⟨_, hl⟩)
      · exact Nat.le_refl _
      · exact Nat.le_of_lt (hloops l hl)
    exact .of_content (x := .sequence xs) again hg rfl hx.sits
      (Piece.laid_sequence hx.sits.tail.append.1 hx.tidy) hagain rfl hinner
      fun ds s e => .round hruns hleft (leaves_of_goes hg)

omit hloops in
/-- An end leads to where its content began, to what follows, or out of the body. -/
theorem begins_closing {begun : NodeId} {instruction : Instruction}
    (hx : (Piece.closing begun instruction l).Laid env.program.code i)
    (hrest : rest.Pending env.program.code
      ((Piece.closing begun instruction l).exit? env.program.code i)) :
    d.Begins env ((i, .closing begun instruction l) :: rest) := by
  subst hi
  have hruns := runs_of_node (hd.node_eq hx.sits.head)
  obtain ⟨n, hn, hinstruction⟩ := hx.begun begun instruction l rfl
  have hy : (Operation.closeAt env d.activation d.frame.leave begun).Yields d.before d.flow
      d.after := by
    have hy := hd.yields
    rwa [Operation.execute, hruns.instruction] at hy
  rw [Operation.closeAt, hn] at hy
  simp only [hinstruction] at hy
  -- most ends leave the scope of the content, and nothing else
  have ends : ∀ {place : NodeId}, instruction ≠ .body → (∀ c, instruction ≠ .container c) →
      rest.Pending env.program.code (some place) →
      d.flow = .on (d.frame.leave.moveTo place) →
      d.Begins env ((d.frame.cursor, .closing begun instruction l) :: rest) := by
    intro place hbody hcontainer hp hflow
    have hg : d.flow.Goes d.frame place d.frame.scopes.tail d.frame.loops := by
      rw [hflow]
      exact ⟨d.frame.owed, rfl⟩
    exact .of_only hg hp hl (.closing hruns (.plain hbody hcontainer (leaves_of_goes hg)))
  cases instruction with
  | body =>
    obtain ⟨hflow, -⟩ := Operation.yields_pure.mp hy
    obtain rfl : rest = [] := by
      cases rest with
      | nil => rfl
      | cons w rest => cases hrest.1
    exact .done hflow (.closing hruns (.body hflow))
  | container c =>
    cases hr : c.isRepeated with
    | true =>
      have hexit : rest.Pending env.program.code (some begun) := by
        simpa [Piece.exit?, Instruction.exit?, hr] using hrest
      have hg : d.flow.Goes d.frame begun d.frame.scopes.tail d.frame.loops ∧
          c.bind .empty d.frame.scopes.tail = d.frame.scopes.tail := by
        cases c with
        | loop | each =>
          obtain ⟨hflow, -⟩ := Operation.yields_pure.mp hy
          exact ⟨⟨d.frame.owed, by rw [hflow]; rfl⟩, rfl⟩
        | _ => cases hr
      refine .of_only hg.1 hexit hl ?_
      have hcloses : d.Closes d.frame.scopes (.container c) (c.bind .empty d.frame.scopes.tail) :=
        .container .empty (leaves_of_goes (hg.2.symm ▸ hg.1))
      exact hg.2 ▸ .closing hruns hcloses
    | false =>
      have hexit : rest.Pending env.program.code (some (d.frame.cursor + 1)) := by
        simpa [Piece.exit?, Instruction.exit?, hr] using hrest
      rcases Operation.unless_finishContainer begun c hr _ _ _ hy with ⟨v, hg⟩ | ⟨hg, hreports⟩
      · exact .of_only hg hexit hl (.closing hruns (.container v (leaves_of_goes hg)))
      · exact .of_only hg hexit hl (.closing hruns (.lost hreports (leaves_of_goes hg)))
  | condition test other =>
    cases other with
    | none => exact ends (by simp) (by simp) hrest (Operation.yields_pure.mp hy).1
    | some other =>
      refine ends (by simp) (by simp) hrest ?_
      rw [(Operation.yields_pure.mp hy).1, Operation.leaveTo_eq]
      rfl
  | when test choice =>
    refine ends (by simp) (by simp) hrest ?_
    rw [(Operation.yields_pure.mp hy).1, Operation.leaveTo_eq]
    rfl
  | _ => exact ends (by simp) (by simp) hrest (Operation.yields_pure.mp hy).1

theorem begins_statement {x : Statement} (hx : (Piece.statement x).Laid env.program.code i)
    (hrest : rest.Pending env.program.code ((Piece.statement x).exit? env.program.code i)) :
    d.Begins env ((i, .statement x) :: rest) := by
  cases x with
  | act l a => exact begins_act hd hi hl hx hrest
  | enclose l c xs l' =>
    cases hr : c.isRepeated with
    | false => exact begins_enclose hd hi hloops hl hr hx hrest
    | true =>
      cases c with
      | loop test => exact begins_loop hd hi hloops hl hx hrest
      | each name select =>
        refine .of_same (q := [(i, .rounds l name select none xs l')]) (fun _ _ _ => .each) ?_
        exact begins_rounds hd hi hloops hl (Piece.laid_of_free hx.sits hx.tidy rfl)
          (Plan.pending_after hrest)
      | _ => cases hr
  | condition l test yes l' => exact begins_condition hd hi hloops hl hx hrest
  | either l test yes between no l' => exact begins_either hd hi hloops hl hx hrest
  | choose l bs l' => exact begins_choose hd hi hloops hl hx hrest

end

/-- A deed of a frame takes the first piece of its plan further. -/
theorem begins {p : Plan} (hd : d.Happens env) (h : d.frame.Awaits env.program.code p) :
    d.Begins env p := by
  induction p with
  | nil => cases h.pending
  | cons w rest ih =>
    obtain ⟨i, x⟩ := w
    obtain ⟨⟨hcursor, hx, hloops, hrest⟩, hl⟩ := h
    obtain hi : d.frame.cursor = i := Option.some.inj hcursor
    cases x with
    | sequence xs =>
      cases xs with
      | nil =>
        refine .of_same (q := []) (fun ds s e h => ?_) (ih ⟨?_, hl⟩)
        · cases h
          exact .nothing i d.frame.scopes
        · rw [hi]
          exact hrest
      | cons x xs =>
        let others : Plan := (i + (x.code i).length, .sequence xs) :: rest
        have hl : d.frame.loops = Plan.loops others := hl
        have houtside : ∀ l ∈ Plan.loops others, l.node < i := hloops
        obtain ⟨hfirst, hothers⟩ := Sits.append hx.sits
        refine .of_same (q := [(i, .statement x), (i + (x.code i).length, .sequence xs)])
          (fun _ _ _ => .sequence) (begins_statement hd hi houtside hl
            (Piece.laid_of_free hfirst hx.tidy.1 rfl)
            ⟨rfl, Piece.laid_sequence hothers hx.tidy.2, fun l hmem => ?_, ?_⟩)
        · exact Nat.lt_of_lt_of_le (hloops l hmem) (Nat.le_add_right _ _)
        · rw [Piece.exit?, codeOf, List.length_append, ← Nat.add_assoc] at hrest
          exact hrest
    | statement x => exact begins_statement hd hi hloops hl hx hrest
    | branches choice bs =>
      cases bs with
      | nil =>
        refine .of_same (q := []) (fun ds s e h => ?_) (ih ⟨?_, hl⟩)
        · cases h
          exact .noBranch i choice d.frame.scopes
        · rw [hi]
          exact hrest
      | cons b bs =>
        cases b with
        | when l test xs l' => exact begins_when hd hi hloops hl hx hrest
        | otherwise l xs l' =>
          obtain ⟨rfl, htidy⟩ := hx.tidy
          refine .of_same (q := [(i, .plain .otherwise l xs l')]) (fun _ _ _ => .otherwise) ?_
          have hcode : branchesCode choice i [.otherwise l xs l'] =
              encloseCode i .otherwise l (codeOf (i + 1) xs) l' := by
            simp [branchesCode, Branch.code]
          rw [Piece.exit?, hcode] at hrest
          refine begins_plain hd hi hloops hl (Piece.laid_of_free ?_ ⟨rfl, htidy⟩ rfl)
            (Plan.pending_after hrest)
          rw [Piece.code, ← hcode]
          exact hx.sits
    | plain instruction l xs l' => exact begins_plain hd hi hloops hl hx hrest
    | closing begun instruction l =>
      have hl : d.frame.loops = Plan.loops rest := hl
      exact begins_closing hd hi hl hx hrest
    | rounds l name select items xs l' => exact begins_rounds hd hi hloops hl hx hrest

end Deed

/-- A body that has been started awaits all of it. -/
theorem Frame.awaits_start {code : Array Node} {b : NodeId} {body : Body}
    (hs : Sits code b (body.code b)) (ht : body.Tidy) (g : GroupId) (passed : Bindings) :
    (Frame.start g b passed).Awaits code [(b, body.piece)] :=
  ⟨⟨rfl, Piece.laid_of_free hs ⟨rfl, ht⟩ rfl, by simp, rfl⟩, rfl⟩

end StreamTransform
