import StreamTransform.Proofs.Conduct
import StreamTransform.Proofs.Moves

/-!
# Branches of a choice

A body comes to the branches of a choice in their order. A when is passed over
if its test fails; its content is entered if the test holds, and the end of the
content leaves the choice. An otherwise is entered in any case, and its end
leads to the branch after it. So at most one branch is entered where an
otherwise only stands last, and more than one can be where others follow it.
-/

namespace StreamTransform

namespace Branch

/-- The test that decides whether the content is entered. -/
def test? : Branch → Option Path.Expr
  | .when _ test _ _ => some test
  | .otherwise .. => none

def isWhen (b : Branch) : Bool := b.test?.isSome

/-- The instruction that a branch of the choice at a node starts with. -/
def instruction (choice : NodeId) : Branch → Instruction
  | .when _ test _ _ => .when test choice
  | .otherwise .. => .otherwise

def content : Branch → List Statement
  | .when _ _ content _ | .otherwise _ content _ => content

def opening : Branch → Location
  | .when l _ _ _ | .otherwise l _ _ => l

def closing : Branch → Location
  | .when _ _ _ l | .otherwise _ _ l => l

theorem code_eq (choice start : NodeId) (b : Branch) : b.code choice start = encloseCode start
    (b.instruction choice) b.opening (codeOf (start + 1) b.content) b.closing := by
  cases b <;> rfl

/-- A branch ends with its closing node. -/
theorem after_code (choice : NodeId) (start : Nat) (b : Branch) :
    start + (b.code choice start).length =
      start + 1 + (codeOf (start + 1) b.content).length + 1 := by
  rw [code_eq, length_encloseCode]
  omega

theorem test?_instruction (choice : NodeId) (b : Branch) :
    (b.instruction choice).test? = b.test? := by
  cases b <;> rfl

end Branch

/-! ## How a choice goes on -/

/-- The branches that a body has come to, each with whether its content was entered. -/
abbrev Visits := List (Branch × Bool)

/-- How far a body has come with a choice. -/
inductive Choosing where
  /-- Before the branches that start at a position. Before none, it is at the end of the choice. -/
  | before (seen : Visits) (i : NodeId) (left : List Branch)
  /-- In the content of a branch that starts at a position, with others after it. -/
  | inside (seen : Visits) (i : NodeId) (b : Branch) (left : List Branch)
  /-- The end of the choice has been executed. -/
  | finished (seen : Visits)

namespace Choosing

def seen : Choosing → Visits
  | before seen .. | inside seen .. | finished seen => seen

/-- The branches that can still be come to. -/
def left : Choosing → List Branch
  | before _ _ left => left
  | inside _ _ b left => if b.isWhen then [] else left
  | finished _ => []

/-- What a deed of the body does, if the choice is the one at a node. -/
inductive Step (env : Environment) (choice : NodeId) : Choosing → Deed → Choosing → Prop
  | passes {seen : Visits} {i : NodeId} {b : Branch} {left : List Branch} {d : Deed}
      {test : Path.Expr} : d.Runs i (b.instruction choice) b.opening d.frame.scopes →
      b.test? = some test → d.Tests env test false → Step env choice (before seen i (b :: left)) d
        (before (seen ++ [(b, false)]) (i + (b.code choice i).length) left)
  | enters {seen : Visits} {i : NodeId} {b : Branch} {left : List Branch} {d : Deed} :
      d.Runs i (b.instruction choice) b.opening d.frame.scopes →
      (∀ test, b.test? = some test → d.Tests env test true) →
      Step env choice (before seen i (b :: left)) d (inside (seen ++ [(b, true)]) i b left)
  /-- Whatever is done in the content of a branch, up to its end. -/
  | within {seen : Visits} {i : NodeId} {b : Branch} {left : List Branch} {d : Deed} :
      LiesIn env.program.code i d.frame.cursor → d.node.instruction ≠ .closing i →
      Step env choice (inside seen i b left) d (inside seen i b left)
  /-- The end of a when leaves the branches after it out. -/
  | leaves {seen : Visits} {i : NodeId} {b : Branch} {left : List Branch} {d : Deed} :
      d.node.instruction = .closing i → b.isWhen → Step env choice (inside seen i b left) d
        (before seen (i + (branchesCode choice i (b :: left)).length) [])
  /-- The end of an otherwise does not. -/
  | goesOn {seen : Visits} {i : NodeId} {b : Branch} {left : List Branch} {d : Deed} :
      d.node.instruction = .closing i → b.isWhen = false → Step env choice (inside seen i b left) d
        (before seen (i + (b.code choice i).length) left)
  | ends {seen : Visits} {i : NodeId} {d : Deed} : d.node.instruction = .closing choice →
      Step env choice (before seen i []) d (finished seen)

end Choosing

/-- The deeds execute a choice at a node: they start it, and come so far with its branches. -/
inductive Chooses (env : Environment) (choice : NodeId) (bs : List Branch) :
    List Deed → Choosing → Prop
  | start {d : Deed} {l : Location} : d.Runs choice .choice l d.frame.scopes →
      Chooses env choice bs [d] (.before [] (choice + 1) bs)
  | next {ds : List Deed} {d : Deed} {c c' : Choosing} : Chooses env choice bs ds c →
      c.Step env choice d c' → Chooses env choice bs (ds ++ [d]) c'

/-! ## Where the frame is -/

/-- The branches stand in the code from a position on, up to the end of their choice. -/
def BranchesSit (code : Array Node) (choice i : NodeId) (bs : List Branch) : Prop :=
  ∃ l, Sits code i (branchesCode choice i bs ++ [⟨.closing choice, l, none⟩])

namespace BranchesSit

variable {code : Array Node} {choice i : NodeId} {b : Branch} {bs : List Branch}

theorem first (h : BranchesSit code choice i (b :: bs)) : Sits code i (encloseCode i
    (b.instruction choice) b.opening (codeOf (i + 1) b.content) b.closing) := by
  obtain ⟨l, hs⟩ := h
  rw [branchesCode, List.append_assoc, b.code_eq] at hs
  exact hs.append.1

theorem others (h : BranchesSit code choice i (b :: bs)) :
    BranchesSit code choice (i + (b.code choice i).length) bs := by
  obtain ⟨l, hs⟩ := h
  rw [branchesCode, List.append_assoc] at hs
  exact ⟨l, hs.append.2⟩

theorem none_left (h : BranchesSit code choice i bs) :
    BranchesSit code choice (i + (branchesCode choice i bs).length) [] := by
  obtain ⟨l, hs⟩ := h
  exact ⟨l, hs.append.2⟩

/-- The end of the choice is where the branches end. -/
theorem closeFrom_eq (hw : WellNested code) (place : NodeId) (h : BranchesSit code choice i bs) :
    closeFrom code place choice = i + (branchesCode choice i bs).length := by
  obtain ⟨l, hs⟩ := h
  obtain ⟨-, -, o, ho, hclose⟩ := enclosing_of_closing hw hs.append.2.head rfl
  simp [closeFrom, ho, hclose]

end BranchesSit

/-- A cursor that is so far with the choice at a node. -/
def Choosing.Stands (code : Array Node) (choice cursor : NodeId) : Choosing → Prop
  | before _ i left => cursor = i ∧ BranchesSit code choice i left
  | inside _ i b left => LiesIn code i cursor ∧ BranchesSit code choice i (b :: left)
  | finished _ => False

section
variable {env : Environment} {d : Deed} {choice i : NodeId} {c : Choosing} {seen : Visits}
  {b : Branch} {left : List Branch}

/-- After a deed the frame is further with the choice, or past its end. -/
def Deed.Chooses (env : Environment) (d : Deed) (choice : NodeId) (c : Choosing) : Prop :=
  ∃ c', c.Step env choice d c' ∧ ((∃ seen, c' = .finished seen) ∨
    ∃ f, d.flow.frame? = some f ∧ c'.Stands env.program.code choice f.cursor)

theorem Deed.Happens.chooses_before (hd : d.Happens env)
    (h : BranchesSit env.program.code choice d.frame.cursor left) :
    d.Chooses env choice (.before seen d.frame.cursor left) := by
  cases left with
  | nil =>
    obtain ⟨l, hs⟩ := h
    have hnode := hd.node_eq hs.head
    exact ⟨_, .ends (by rw [hnode]), .inl ⟨_, rfl⟩⟩
  | cons b left =>
    obtain ⟨hruns, hclose⟩ := opens hd h.first
    have hin := liesIn_of_opening hd.node hclose
    cases htest : b.test? with
    | none =>
      have hplain : (b.instruction choice).isPlain := by
        cases b with
        | when => cases htest
        | otherwise => rfl
      obtain ⟨owed, hf⟩ := enters hd hruns hplain
      exact ⟨_, .enters hruns (by simp [htest]), .inr ⟨_, hf, hin, h⟩⟩
    | some test =>
      rcases tested hd hruns ((b.test?_instruction choice).trans htest) hclose with
        ⟨htests, owed, hf⟩ | ⟨htests, owed, hf⟩
      · refine ⟨_, .enters hruns fun test' h' => ?_, .inr ⟨_, hf, hin, h⟩⟩
        obtain rfl := Option.some.inj (htest.symm.trans h')
        exact htests
      · exact ⟨_, .passes hruns htest htests,
          .inr ⟨_, hf, (b.after_code choice d.frame.cursor).symm, h.others⟩⟩

theorem Deed.Happens.chooses_inside (hw : WellNested env.program.code) (hd : d.Happens env)
    (hin : LiesIn env.program.code i d.frame.cursor)
    (h : BranchesSit env.program.code choice i (b :: left)) :
    d.Chooses env choice (.inside seen i b left) := by
  by_cases hclosing : d.node.instruction = .closing i
  · obtain ⟨-, -, o, ho, hclose⟩ := enclosing_of_closing hw hd.node hclosing
    obtain rfl := Option.some.inj (h.first.head.symm.trans ho)
    have hplace : i + 1 + (codeOf (i + 1) b.content).length = d.frame.cursor :=
      Option.some.inj hclose
    cases hwhen : b.isWhen with
    | true =>
      have hexit : (b.instruction choice).exit? env.program.code i d.frame.cursor =
          some (i + (branchesCode choice i (b :: left)).length) := by
        rw [← h.closeFrom_eq hw d.frame.cursor]
        cases b with
        | when => rfl
        | otherwise => cases hwhen
      obtain ⟨f, hf, hcursor⟩ := hd.exits hclosing ho hexit
      exact ⟨_, .leaves hclosing hwhen, .inr ⟨f, hf, hcursor, h.none_left⟩⟩
    | false =>
      have hexit : (b.instruction choice).exit? env.program.code i d.frame.cursor =
          some (i + (b.code choice i).length) := by
        rw [b.after_code choice i, hplace]
        cases b with
        | when => cases hwhen
        | otherwise => rfl
      obtain ⟨f, hf, hcursor⟩ := hd.exits hclosing ho hexit
      exact ⟨_, .goesOn hclosing hwhen, .inr ⟨f, hf, hcursor, h.others⟩⟩
  · obtain ⟨f, hf, hin'⟩ := hd.within hw hin hclosing
    exact ⟨_, .within hin hclosing, .inr ⟨f, hf, hin', h⟩⟩

theorem Deed.Happens.chooses (hw : WellNested env.program.code) (hd : d.Happens env)
    (h : c.Stands env.program.code choice d.frame.cursor) : d.Chooses env choice c := by
  cases c with
  | before seen i left =>
    obtain ⟨rfl, hs⟩ := h
    exact hd.chooses_before hs
  | inside seen i b left => exact hd.chooses_inside hw h.1 h.2
  | finished seen => exact h.elim

end

/-! ## Whole executions -/

/-- What was come to of the branches: so many of the first ones, without a when that was entered, or
those up to the first when that was. -/
inductive Visits.Orderly (bs : List Branch) : Visits → List Branch → Prop
  | all {seen : Visits} {left : List Branch} : (∀ x ∈ seen, x.2 = !x.1.isWhen) →
      seen.map Prod.fst ++ left = bs → Orderly bs seen left
  | taken {seen : Visits} {b : Branch} {later : List Branch} : b.isWhen →
      (∀ x ∈ seen, x.2 = !x.1.isWhen) → seen.map Prod.fst ++ b :: later = bs →
      Orderly bs (seen ++ [(b, true)]) []

section
variable {env : Environment} {choice : NodeId} {bs : List Branch} {ds : List Deed} {d : Deed}
  {c c' : Choosing} {seen : Visits}

theorem Visits.Orderly.next {b : Branch} {left : List Branch} {entered : Bool}
    (h : Visits.Orderly bs seen (b :: left)) (he : entered = !b.isWhen) :
    Visits.Orderly bs (seen ++ [(b, entered)]) left := by
  cases h with
  | all hseen hall =>
    refine .all (fun x hx => ?_) (by simpa using hall)
    rcases List.mem_append.mp hx with hx | hx
    · exact hseen x hx
    · obtain rfl := List.mem_singleton.mp hx
      exact he

theorem Choosing.Step.orderly (h : c.Step env choice d c') (ho : Visits.Orderly bs c.seen c.left) :
    Visits.Orderly bs c'.seen c'.left := by
  cases h with
  | @passes _ _ b _ _ test _ htest => exact ho.next (by simp [Branch.isWhen, htest])
  | @enters seen i b left =>
    cases hwhen : b.isWhen with
    | false => simpa [Choosing.seen, Choosing.left, hwhen] using ho.next (by simp [hwhen])
    | true =>
      cases ho with
      | all hseen hall => simpa [Choosing.seen, Choosing.left, hwhen] using .taken hwhen hseen hall
  | within => exact ho
  | leaves _ hwhen | goesOn _ hwhen => simpa [Choosing.seen, Choosing.left, hwhen] using ho
  | ends => exact ho

theorem Chooses.orderly (h : Chooses env choice bs ds c) : Visits.Orderly bs c.seen c.left := by
  induction h with
  | start => exact .all (by simp [Choosing.seen]) rfl
  | next _ hstep ih => exact hstep.orderly ih

/-! ### Branches that were entered -/

theorem Visits.Orderly.isPrefix {left : List Branch} (h : Visits.Orderly bs seen left) :
    seen.map Prod.fst <+: bs := by
  cases h with
  | all _ hall => exact ⟨left, hall⟩
  | @taken _ _ later _ _ hall => exact ⟨later, by simpa using hall⟩

theorem Visits.Orderly.entered {left : List Branch} (h : Visits.Orderly bs seen left)
    {x : Branch × Bool} (hx : x ∈ seen) (hw : x.1.isWhen = false) : x.2 = true := by
  have plain (h : x.2 = !x.1.isWhen) : x.2 = true := by rw [h, hw]; rfl
  cases h with
  | all hseen => exact plain (hseen x hx)
  | taken _ hseen =>
    rcases List.mem_append.mp hx with hx | hx
    · exact plain (hseen x hx)
    · exact congrArg Prod.snd (List.mem_singleton.mp hx)

/-- A when that was entered was the last branch to be come to. -/
theorem Visits.Orderly.passed {left : List Branch} (h : Visits.Orderly bs seen left)
    {x : Branch × Bool} (hx : x ∈ seen.dropLast) (hw : x.1.isWhen) : x.2 = false := by
  have plain (h : x.2 = !x.1.isWhen) : x.2 = false := by rw [h, hw]; rfl
  cases h with
  | all hseen => exact plain (hseen x (List.dropLast_subset seen hx))
  | taken _ hseen => exact plain (hseen x (by simpa using hx))

theorem Visits.Orderly.whole (h : Visits.Orderly bs seen []) :
    seen.map Prod.fst = bs ∨ ∃ x ∈ seen, x.1.isWhen ∧ x.2 = true := by
  cases h with
  | all _ hall => exact .inl (by simpa using hall)
  | @taken seen b _ hw => exact .inr ⟨(b, true), by simp, hw, rfl⟩

/-- An otherwise at the end is entered alone. -/
theorem Visits.Orderly.at_most_one {left : List Branch} (h : Visits.Orderly bs seen left)
    (hlast : ∀ b ∈ bs.dropLast, b.isWhen) : (seen.filter Prod.snd).length ≤ 1 := by
  have earlier {init : Visits} {b : Branch} {later : List Branch}
      (hinit : ∀ x ∈ init, x.2 = !x.1.isWhen) (hall : init.map Prod.fst ++ b :: later = bs) :
      init.filter Prod.snd = [] := by
    refine List.filter_eq_nil_iff.mpr fun x hx => ?_
    have hmem : x.1 ∈ bs.dropLast := by
      rw [← hall, List.dropLast_append_cons]
      exact List.mem_append_left _ (List.mem_map_of_mem hx)
    simp [hinit x hx, hlast x.1 hmem]
  cases h with
  | all hseen hall =>
    rcases List.eq_nil_or_concat seen with rfl | ⟨init, x, hx⟩
    · exact Nat.zero_le 1
    · obtain rfl : seen = init ++ [x] := hx.trans List.concat_eq_append
      have hnone := earlier (fun y hy => hseen y (List.mem_append_left _ hy))
        (by simpa using hall)
      rw [List.filter_append, hnone]
      exact List.length_filter_le _ [x]
  | taken _ hseen hall =>
    rw [List.filter_append, earlier hseen hall]
    exact List.length_filter_le _ _

/-- What a step adds to the branches that were come to. -/
theorem Choosing.Step.visits (h : c.Step env choice d c') : c'.seen = c.seen ∨
    ∃ b entered, c'.seen = c.seen ++ [(b, entered)] ∧
      d.node.instruction = b.instruction choice ∧
      ∀ test, b.test? = some test → d.Tests env test entered := by
  cases h with
  | @passes _ _ b _ _ test hruns htest htests =>
    refine .inr ⟨b, false, rfl, hruns.instruction, fun test' h' => ?_⟩
    obtain rfl := Option.some.inj (htest.symm.trans h')
    exact htests
  | @enters _ _ b _ _ hruns htests => exact .inr ⟨b, true, rfl, hruns.instruction, htests⟩
  | within | leaves | goesOn | ends => exact .inl rfl

/-- Each test was evaluated. -/
theorem Chooses.tested (h : Chooses env choice bs ds c) {b : Branch} {entered : Bool}
    {test : Path.Expr} (hb : (b, entered) ∈ c.seen) (ht : b.test? = some test) :
    ∃ d ∈ ds, d.node.instruction = b.instruction choice ∧ d.Tests env test entered := by
  induction h with
  | start => cases hb
  | @next ds d c c' _ hstep ih =>
    have earlier (hb : (b, entered) ∈ c.seen) : ∃ d' ∈ ds ++ [d],
        d'.node.instruction = b.instruction choice ∧ d'.Tests env test entered := by
      obtain ⟨d', hd', h'⟩ := ih hb
      exact ⟨d', List.mem_append_left _ hd', h'⟩
    rcases hstep.visits with hseen | ⟨b', entered', hseen, hinstruction, htests⟩
    · exact earlier (hseen ▸ hb)
    · rw [hseen] at hb
      rcases List.mem_append.mp hb with hb | hb
      · exact earlier hb
      · obtain ⟨rfl, rfl⟩ := Prod.mk.inj (List.mem_singleton.mp hb)
        exact ⟨d, List.mem_append_right _ List.mem_cons_self, hinstruction, htests test ht⟩

/-- From a choice on the deeds of a body execute it, and after its end others may follow. -/
theorem Conducts.chooses {m₁ m : Moment} {f : Frame} {below : List Frame} {l l' : Location}
    (hw : env.program.WellNested)
    (hs : Sits env.program.code choice ((Statement.choose l bs l').code choice))
    (hm : Reached env m₁) (hf : f :: below <:+ m₁.bodies) (hc : f.cursor = choice)
    (h : Conducts env below m₁ ds m) :
    (∃ f', f' :: below <:+ m.bodies ∧ (ds = [] ∧ f'.cursor = choice ∨
      ∃ c, Chooses env choice bs ds c ∧ c.Stands env.program.code choice f'.cursor)) ∨
    ∃ ds₁ ds₂ seen, ds = ds₁ ++ ds₂ ∧ Chooses env choice bs ds₁ (.finished seen) := by
  induction h with
  | start => exact .inl ⟨f, hf, .inl ⟨rfl, hc⟩⟩
  | @own ds d m m' hconducts ho hd ih =>
    rcases ih with ⟨f', hf', hstate⟩ | ⟨ds₁, ds₂, seen, rfl, hchooses⟩
    · obtain ⟨rfl, hleads⟩ := ho.leads_own hw (hconducts.reached hm) hd hf'
      rcases hstate with ⟨rfl, rfl⟩ | ⟨c, hchooses, hstands⟩
      · obtain ⟨hruns, -⟩ := Deed.opens ho.happens hs
        obtain ⟨owed, hflow⟩ := Deed.enters ho.happens hruns rfl
        exact .inl ⟨_, hleads.keeps hflow, .inr ⟨_, .start hruns, rfl, _, hs.tail⟩⟩
      · obtain ⟨c', hstep, ⟨seen, rfl⟩ | ⟨g, hflow, hstands'⟩⟩ :=
          ho.happens.chooses hw.code hstands
        · exact .inr ⟨_, [], seen, (List.append_nil _).symm, hchooses.next hstep⟩
        · exact .inl ⟨g, hleads.keeps hflow, .inr ⟨c', hchooses.next hstep, hstands'⟩⟩
    · exact .inr ⟨ds₁, ds₂ ++ [d], seen, List.append_assoc .., hchooses⟩
  | @other ds f₀ m m' hconducts hn hf₀ hothers ih =>
    rcases ih with ⟨f', hf', hstate⟩ | hover
    · exact .inl ⟨f', (body_move hw (hconducts.reached hm) hn).keeps hf' hothers, hstate⟩
    · exact .inr hover

end

/-! ## Choices in built code -/

/-- Where a choice starts, its branches are laid out. -/
def LaysOut (code : Array Node) (i : NodeId) (n : Node) : Prop :=
  n.instruction = .choice → ∃ l bs l', Sits code i ((Statement.choose l bs l').code i)

/-- All choices among nodes that stand from a position on have their branches. -/
abbrev LaysOutAll (code : Array Node) : NodeId → List Node → Prop := Throughout (LaysOut code)

section
variable {code : Array Node} {start : NodeId}

theorem laysOutAll_encloseCode {i : Instruction} {content : List Node} {l l' : Location}
    (h : LaysOut code start ⟨i, l, some (start + 1 + content.length)⟩)
    (hc : LaysOutAll code (start + 1) content) :
    LaysOutAll code start (encloseCode start i l content l') :=
  (throughout_single h).append (hc.append (throughout_single nofun))

mutual

theorem Statement.laysOut {start : NodeId} : ∀ s : Statement, Sits code start (s.code start) →
    LaysOutAll code start (s.code start)
  | .act l a, _ => throughout_single nofun
  | .enclose l c content l', hs =>
    laysOutAll_encloseCode nofun (laysOut_codeOf content hs.tail.append.1)
  | .condition l _ yes l', hs =>
    laysOutAll_encloseCode nofun (laysOut_codeOf yes hs.tail.append.1)
  | .either l _ yes between no l', hs => by
    obtain ⟨hfirst, hsecond⟩ := Sits.append hs
    refine Throughout.append
      (laysOutAll_encloseCode (by nofun) (laysOut_codeOf yes hfirst.tail.append.1)) ?_
    rw [length_encloseCode] at hsecond ⊢
    exact laysOutAll_encloseCode nofun (laysOut_codeOf no hsecond.tail.append.1)
  | .choose l branches l', hs =>
    laysOutAll_encloseCode (fun _ => ⟨l, branches, l', hs⟩)
      (laysOut_branchesCode branches hs.tail.append.1)

theorem Branch.laysOut {choice start : NodeId} : ∀ b : Branch,
    Sits code start (b.code choice start) → LaysOutAll code start (b.code choice start)
  | .when _ _ content _, hs =>
    laysOutAll_encloseCode nofun (laysOut_codeOf content hs.tail.append.1)
  | .otherwise _ content _, hs =>
    laysOutAll_encloseCode nofun (laysOut_codeOf content hs.tail.append.1)

theorem laysOut_codeOf {start : NodeId} : ∀ ss : List Statement,
    Sits code start (codeOf start ss) → LaysOutAll code start (codeOf start ss)
  | [], _ => nofun
  | s :: ss, hs => by
    rw [codeOf] at hs ⊢
    exact (s.laysOut hs.append.1).append (laysOut_codeOf ss hs.append.2)

theorem laysOut_branchesCode {choice start : NodeId} : ∀ bs : List Branch,
    Sits code start (branchesCode choice start bs) →
    LaysOutAll code start (branchesCode choice start bs)
  | [], _ => nofun
  | b :: bs, hs => by
    rw [branchesCode] at hs ⊢
    exact (b.laysOut hs.append.1).append (laysOut_branchesCode bs hs.append.2)

end

theorem Body.laysOut (b : Body) (hs : Sits code start (b.code start)) :
    LaysOutAll code start (b.code start) :=
  laysOutAll_encloseCode nofun (laysOut_codeOf b.statements hs.tail.append.1)

/-- Every choice in the code has its branches. -/
def ChoicesLaidOut (code : Array Node) : Prop :=
  ∀ (i : NodeId) (n : Node), code[i]? = some n → LaysOut code i n

theorem ChoicesLaidOut.layOut (h : ChoicesLaidOut code) (b : Body) :
    ChoicesLaidOut (code ++ b.code code.size) := by
  intro i n hn hchoice
  by_cases hi : i < code.size
  · rw [getElem?_append_of_lt hi] at hn
    obtain ⟨l, bs, l', hs⟩ := h i n hn hchoice
    exact ⟨l, bs, l', fun k m hm => getElem?_append_of_some (hs k m hm)⟩
  · have hle := Nat.le_of_not_lt hi
    rw [getElem?_append_of_le hle] at hn
    have hl := b.laysOut (sits_append code _) _ n hn
    rw [Nat.add_sub_cancel' hle] at hl
    exact hl hchoice

end

theorem Script.choicesLaidOut_of_build {ds : List Declaration} {p : Program}
    (h : build ds = .ok p) : ChoicesLaidOut p.code := by
  have hinitial : ChoicesLaidOut Draft.initial.code := by
    intro i n hn
    simp [Draft.initial] at hn
  have hkept : Assemble.Kept fun d => ChoicesLaidOut d.code :=
    Assemble.kept_of_code fun _ b hp => hp.layOut b
  obtain ⟨d, hd, rfl⟩ := hkept.of_build hinitial h
  exact hd

/-- What holds of the choices of a program. -/
structure ChoosesInOrder (env : Environment) : Prop where
  /-- Every choice is laid out from branches. -/
  laidOut : ∀ i n, env.program.code[i]? = some n → n.instruction = .choice →
    ∃ l bs l', Sits env.program.code i ((Statement.choose l bs l').code i)
  /-- However a run goes on from a choice, a body has its deeds up to there, or up to its own
  end, -/
  conducted : ∀ m₁ m f below, Reached env m₁ → f :: below <:+ m₁.bodies →
    Stretch env (fun _ => True) m₁ m →
    (∃ ds f', Conducts env below m₁ ds m ∧ f' :: below <:+ m.bodies) ∨
    ∃ ds m₂, Conducts env below m₁ ds m₂ ∧ m₂.bodies = below ∧ Stretch env (fun _ => True) m₂ m
  /-- and these execute the choice, to its end before they do anything else. -/
  executed : ∀ i l bs l' m₁ m f below ds,
    Sits env.program.code i ((Statement.choose l bs l').code i) → Reached env m₁ →
    f :: below <:+ m₁.bodies → f.cursor = i → Conducts env below m₁ ds m →
    ((∃ f', f' :: below <:+ m.bodies) ∧ (ds = [] ∨ ∃ c, Chooses env i bs ds c)) ∨
      ∃ ds₁ ds₂ seen, ds = ds₁ ++ ds₂ ∧ Chooses env i bs ds₁ (.finished seen)
  /-- Branches are come to in their order. -/
  inOrder : ∀ i bs ds c, Chooses env i bs ds c → c.seen.map Prod.fst <+: bs
  /-- A when that is come to is entered if its test holds, and passed over if it fails. -/
  tested : ∀ i bs ds c b entered test, Chooses env i bs ds c → (b, entered) ∈ c.seen →
    b.test? = some test →
    ∃ d ∈ ds, d.node.instruction = b.instruction i ∧ d.Tests env test entered
  /-- No branch is come to after a when that is entered. -/
  last : ∀ i bs ds c, Chooses env i bs ds c → ∀ x ∈ c.seen.dropLast, x.1.isWhen → x.2 = false
  /-- An otherwise that is come to is entered, whatever was entered before. -/
  otherwise : ∀ i bs ds c, Chooses env i bs ds c →
    ∀ x ∈ c.seen, x.1.isWhen = false → x.2 = true
  /-- Unless a when was entered, all branches have been come to at the end. -/
  whole : ∀ i bs ds seen, Chooses env i bs ds (.finished seen) →
    seen.map Prod.fst = bs ∨ ∃ x ∈ seen, x.1.isWhen ∧ x.2 = true
  /-- If an otherwise only stands last, at most one branch is entered. -/
  one : ∀ i bs ds c, Chooses env i bs ds c → (∀ b ∈ bs.dropLast, b.isWhen) →
    (c.seen.filter Prod.snd).length ≤ 1

/-- The branches of a choice are taken as they come, wherever bodies are suspended in them. -/
theorem chooses_in_order {ds : List Script.Declaration} {env : Environment}
    (h : Script.build ds = .ok env.program) : ChoosesInOrder env := by
  have hw : env.program.WellNested := Script.wellNested_of_build h
  constructor
  case laidOut => exact fun i n hn => Script.choicesLaidOut_of_build h i n hn
  case conducted => exact fun m₁ m f below hm hf hs => conducts_of_stretch hw hm hf hs
  case executed =>
    intro i l bs l' m₁ m f below ds hs hm hf hc hconducts
    rcases hconducts.chooses hw hs hm hf hc with ⟨f', hf', hstate⟩ | hover
    · rcases hstate with ⟨hnone, -⟩ | ⟨c, hchooses, -⟩
      · exact .inl ⟨⟨f', hf'⟩, .inl hnone⟩
      · exact .inl ⟨⟨f', hf'⟩, .inr ⟨c, hchooses⟩⟩
    · exact .inr hover
  case inOrder => exact fun i bs ds c hc => hc.orderly.isPrefix
  case tested => exact fun i bs ds c b entered test hc hb ht => hc.tested hb ht
  case last => exact fun i bs ds c hc x hx hwhen => hc.orderly.passed hx hwhen
  case otherwise => exact fun i bs ds c hc x hx hwhen => hc.orderly.entered hx hwhen
  case whole => exact fun i bs ds seen hc => hc.orderly.whole
  case one => exact fun i bs ds c hc hlast => hc.orderly.at_most_one hlast

/-- Two branches without a test. -/
def choosingBranches : List Branch :=
  [.otherwise .unknown [] .unknown, .otherwise .unknown [] .unknown]

def choosingBody : Body := ⟨.unknown, [.choose .unknown choosingBranches .unknown], .unknown⟩

/-- One template, for the root, that is a choice. -/
def choosingProgram : Program where
  code := (choosingBody.code 0).toArray
  templates := #[⟨⟨true, []⟩, "/", 0, .group, false, 0, .unknown, 0⟩]
  procedures := #[]
  groups := #[{ (default : Group) with
    templates := [0], candidates := [0], ancestry := [Program.rootGroup] }]
  globals := []

theorem build_choosing : Script.build [.template "/" { priority := some 0 }
    [.choose [.otherwise [], .otherwise []]]] = .ok choosingProgram :=
  (Script.build_eq _).trans (by with_unfolding_all rfl)

def choosing : Environment := ⟨choosingProgram, {}, .plain fun _ => none⟩

theorem otherwise_of_choosing : ∀ b ∈ choosingBranches, b.isWhen = false := by
  simp [choosingBranches, Branch.isWhen, Branch.test?]

/-- Both branches are entered, one after the other. -/
theorem chooses_in_order_choosing : ChoosesInOrder choosing ∧
    ∃ m₁ f m₂ ds₁ ds₂ seen, Reached choosing m₁ ∧ m₁.bodies = [f] ∧ f.cursor = 1 ∧
      Conducts choosing [] m₁ (ds₁ ++ ds₂) m₂ ∧
      Chooses choosing 1 choosingBranches ds₁ (.finished seen) ∧
      seen.map Prod.fst = choosingBranches ∧ ∀ x ∈ seen, x.2 = true := by
  have hchooses : ChoosesInOrder choosing := chooses_in_order build_choosing
  have h₀ : Reached choosing _ := .first .startDocument rfl
  have h₁ := h₀.next (.task rfl)
  have h₂ := h₁.next (.task rfl)
  have h₃ := h₂.next (.task rfl)
  have h₄ := h₃.next (.task rfl)
  have hbody : Sits choosing.program.code 0 (choosingBody.code 0) := fun i n hn => by
    rw [Nat.zero_add]
    exact List.getElem?_toArray.trans hn
  have hchoice : Sits choosing.program.code 1
      ((Statement.choose .unknown choosingBranches .unknown).code 1) :=
    hbody.tail.append.1.append.1
  have here : ∀ {m}, Reached choosing m → Stretch choosing (fun _ => True) m m :=
    fun _ => .refl trivial
  have hs₅ := (here h₄).next (.task rfl) trivial
  have hs₆ := hs₅.next (.task rfl) trivial
  have hs₇ := hs₆.next (.task rfl) trivial
  have hs₈ := hs₇.next (.task rfl) trivial
  have hs₉ := hs₈.next (.task rfl) trivial
  have hs₁₀ := hs₉.next (.task rfl) trivial
  have hs₁₁ := hs₁₀.next (.task rfl) trivial
  refine ⟨hchooses, ?_⟩
  rcases hchooses.conducted _ _ _ [] h₄ (List.suffix_refl _) hs₁₁ with
    ⟨ds, f, -, hf⟩ | ⟨ds, m₂, hc, hends, -⟩
  · cases List.suffix_nil.mp (show [f] <:+ [] from hf)
  · rcases hchooses.executed 1 _ _ _ _ _ _ _ _ hchoice h₄ (List.suffix_refl _) rfl hc with
      ⟨⟨f, hf⟩, -⟩ | ⟨ds₁, ds₂, seen, rfl, hover⟩
    · cases List.suffix_nil.mp (hends ▸ hf)
    · have hwhen : ∀ x ∈ seen, x.1.isWhen = false := fun x hx =>
        otherwise_of_choosing x.1
          ((hchooses.inOrder _ _ _ _ hover).subset (List.mem_map_of_mem hx))
      refine ⟨_, _, m₂, ds₁, ds₂, seen, h₄, rfl, rfl, hc, hover, ?_, ?_⟩
      · rcases hchooses.whole _ _ _ _ hover with hall | ⟨x, hx, hw, -⟩
        · exact hall
        · rw [hwhen x hx] at hw
          cases hw
      · exact fun x hx => hchooses.otherwise _ _ _ _ hover x hx (hwhen x hx)

/-- An otherwise writes before a when whose test holds. -/
def precedingScript : List Script.Declaration :=
  [.template "a" {} [.choose [.otherwise [.text "x"], .when "true()" [.text "y"]]]]

def preceding : Environment := ⟨(Script.draft precedingScript).program, {}, .plain fun _ => none⟩

/-- Both contents are written. -/
example : ((State.initial preceding.program).receiveAll preceding 40
    [.startDocument, .opening (.simple "a") [], .closing (.simple "a"),
      .endDocument]).2.record.taken .main =
    [.startDocument, .characters "x", .characters "y", .endDocument] := by
  decide +kernel

end StreamTransform
