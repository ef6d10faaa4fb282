import StreamTransform.Path.Binding
import StreamTransform.Proofs.Patterns
import StreamTransform.Proofs.Siblings

/-!
# Steps with an at sign

A step of a path goes from an element to its attributes. A step of a pattern is
put to the node that happens to be there, and whether this is an attribute is
left to the step's test: tests for kinds of children do not ask. After a double
slash a pattern looks for its upper steps from the element of the attribute
upwards. A path with the same text goes down one level at least before it comes
to attributes, so it misses those of the element that its upper steps select.
-/

namespace StreamTransform.Path

variable {ctx : Context} {test : NodeTest} {s : PatternStep} {ps : List Expr} {e : Event}
  {n m : NodeRef} {nodes next : List NodeRef} {depth top : Nat}

/-! ## Tests for kinds of children -/

/-- The test is for children of one kind, which neither elements nor attributes are. -/
def NodeTest.isKind : NodeTest → Bool
  | text | comment | instruction _ => true
  | name .. | anyNamespace _ | inNamespace .. | wildcard | node => false

namespace NodeTest

/-- A test for a kind of children asks the same on every axis. -/
theorem accepts_of_isKind (h : test.isKind = true) (c : Content) (axis : Axis) :
    test.accepts c axis = test.accepts c .child := by
  cases test with
  | text | comment | instruction target => rfl
  | _ => cases h

theorem not_attribute_of_isKind {c : Content} {axis : Axis} (h : test.isKind = true)
    (ha : test.accepts c axis = true) : c.isAttribute = false := by
  cases c with
  | attr a place =>
    rw [accepts_of_isKind h] at ha
    cases test with
    | text | comment | instruction target => cases ha
    | _ => cases h
  | _ => rfl

/-- All other tests accept nothing but attributes on their axis. -/
theorem isAttribute_of_accepts {c : Content} (h : test.isKind = false)
    (ha : test.accepts c .attributes = true) : c.isAttribute = true := by
  cases test with
  | text | comment | instruction target => cases h
  | node =>
    cases c with
    | attr a place => rfl
    | _ => cases ha
  | wildcard => exact ha
  | name | anyNamespace | inNamespace => exact (Bool.and_eq_true_iff.mp ha).1

end NodeTest

/-! ## One step -/

theorem PatternStep.holdsAt_iff (he : ctx.event? depth = some e) :
    s.holdsAt ctx depth = .ok true ↔
      s.test.accepts e.content (if s.isAttribute then .attributes else .child) = true ∧
        holdAll (ctx.seenFrom depth (e.positionOf s.test.group)) depth
          (e.positionOf s.test.group) s.predicates = .ok true := by
  simp only [holdsAt, he]
  by_cases ha : s.test.accepts e.content (if s.isAttribute then .attributes else .child)
  · simp [ha]
  · simp [ha]

/-- Without predicates a step always has an answer. -/
theorem PatternStep.holdsAt_of_bare (hs : s.predicates = []) : s.holdsAt ctx depth =
    .ok ((ctx.event? depth).any fun e =>
      s.test.accepts e.content (if s.isAttribute then .attributes else .child)) := by
  unfold holdsAt
  cases ctx.event? depth with
  | none => rfl
  | some e =>
    simp only [hs, holdAll, Option.any_some]
    cases s.test.accepts e.content (if s.isAttribute then .attributes else .child) <;> rfl

theorem mem_reach_attributes : m ∈ Axis.attributes.reach n ctx ↔
    ∃ i a, n.event.content.attributes[i]? = some a ∧
      m = ⟨Event.attributeOf n.event a (i + 1), n.depth + 1⟩ := by
  rw [Axis.reach, List.mem_iff_getElem?]
  simp only [List.getElem?_mapIdx, Option.map_eq_some_iff]
  constructor
  · rintro ⟨i, a, ha, rfl⟩
    exact ⟨i, a, ha, rfl⟩
  · rintro ⟨i, a, ha, rfl⟩
    exact ⟨i, a, ha, rfl⟩

/-- The reference is to an attribute of the node that the test accepts, at a place counted
from 0. -/
def AttributeAt (n : NodeRef) (test : NodeTest) (i : Nat) (m : NodeRef) : Prop :=
  ∃ a, n.event.content.attributes[i]? = some a ∧
    test.accepts (.attr a (i + 1)) .attributes = true ∧
    m = ⟨Event.attributeOf n.event a (i + 1), n.depth + 1⟩

/-- A step to attributes selects those that its test accepts and of which its predicates hold,
judged with the place of the attribute as the position. -/
theorem mem_select_attributes (h : (Step.mk .attributes test ps).select ctx nodes = .ok next) :
    m ∈ next ↔ ∃ n ∈ nodes, ∃ i, AttributeAt n test i m ∧
      holdAll (ctx.seenFrom (ctx.judgedAt m) (i + 1)) (ctx.judgedAt m) (i + 1) ps = .ok true := by
  rw [Step.select] at h
  rw [mem_of_keep h]
  simp only [List.mem_flatMap, List.mem_filter, mem_reach_attributes]
  constructor
  · rintro ⟨⟨n, hn, ⟨i, a, ha, rfl⟩, ht⟩, hp⟩
    exact ⟨n, hn, i, ⟨a, ha, ht, rfl⟩, hp⟩
  · rintro ⟨n, hn, i, ⟨a, ha, ht, rfl⟩, hp⟩
    exact ⟨⟨n, hn, ⟨i, a, ha, rfl⟩, ht⟩, hp⟩

theorem keep_all (l : List NodeRef) : keep (fun _ => .ok true) l = .ok l := by
  induction l with
  | nil => rfl
  | cons n r ih => simp [keep, ih, Bind.bind, Except.bind]

theorem select_bare (axis : Axis) : (Step.mk axis test []).select ctx nodes =
    .ok (nodes.flatMap fun n => (axis.reach n ctx).filter (test.acceptsOn axis)) := by
  simp only [Step.select, holdAll]
  exact keep_all _

theorem mem_select_attributes_bare
    (h : (Step.mk .attributes test []).select ctx nodes = .ok next) :
    m ∈ next ↔ ∃ n ∈ nodes, ∃ i, AttributeAt n test i m := by
  rw [mem_select_attributes h]
  simp [holdAll]

/-! ## The last step of a pattern -/

/-- The pattern with one more step at its end. -/
def PathPattern.append (p : PathPattern) (s : PatternStep) : PathPattern :=
  { p with steps := p.steps ++ [s] }

theorem PathPattern.match?_append (p : PathPattern) : (p.append s).match? ctx top = (do
    if ← matchUpwards p.absolute ctx (s :: p.steps.reverse) top then
      let e ← ctx.nodeAt top
      .ok (some (e.positionOf s.test.group))
    else .ok none) := by
  simp [append, match?]

/-- The last step of a pattern holds at the node that the pattern matches and gives the position. -/
theorem PathPattern.holdsAt_of_match? {p : PathPattern} {position : Nat}
    (h : (p.append s).match? ctx top = .ok (some position)) (he : ctx.event? top = some e) :
    s.holdsAt ctx top = .ok true ∧ position = e.positionOf s.test.group := by
  rw [match?_append] at h
  cases hm : matchUpwards p.absolute ctx (s :: p.steps.reverse) top with
  | error f =>
    rw [hm] at h
    cases h
  | ok b =>
    cases b with
    | false =>
      rw [hm] at h
      cases h
    | true =>
      simp only [hm, Bind.bind, Except.bind, if_true, Context.nodeAt, he] at h
      cases h
      exact ⟨holdsAt_of_matchUpwards hm, rfl⟩

/-- What a last step is asked is all that matters of it. -/
theorem PathPattern.match?_append_congr {p : PathPattern} {t : PatternStep}
    (hh : s.holdsAt ctx top = t.holdsAt ctx top) (hg : s.afterGap = t.afterGap)
    (ht : s.test = t.test) : (p.append s).match? ctx top = (p.append t).match? ctx top := by
  have hm : matchUpwards p.absolute ctx (s :: p.steps.reverse) top =
      matchUpwards p.absolute ctx (t :: p.steps.reverse) top := by
    cases p.steps.reverse <;> simp only [matchUpwards, hh, hg]
  rw [match?_append, match?_append, hm, ht]

/-! ## The at sign -/

/-- What an at sign before a test means, at the end of a pattern and in a path. -/
structure AtSign (test : NodeTest) : Prop where
  /-- Unless the test is for a kind of children, a pattern that ends so matches attributes only. -/
  attributes_matched {p : PathPattern} {gap : Bool} {ps : List Expr} {ctx : Context}
    {top position : Nat} {e : Event} : test.isKind = false →
    (p.append ⟨test, true, gap, ps⟩).match? ctx top = .ok (some position) →
    ctx.event? top = some e → e.content.isAttribute = true
  /-- Before a test for a kind of children the sign is of no effect on the match. -/
  sign_ignored (p : PathPattern) (gap : Bool) (ps : List Expr) (ctx : Context) (top : Nat) :
    test.isKind = true → (p.append ⟨test, true, gap, ps⟩).match? ctx top =
      (p.append ⟨test, false, gap, ps⟩).match? ctx top
  /-- So the pattern matches children of this kind only, which are no attributes. -/
  children_matched {p : PathPattern} {gap : Bool} {ps : List Expr} {ctx : Context}
    {top position : Nat} {e : Event} : test.isKind = true →
    (p.append ⟨test, true, gap, ps⟩).match? ctx top = .ok (some position) →
    ctx.event? top = some e →
      test.accepts e.content .child = true ∧ e.content.isAttribute = false
  /-- A step of a path selects attributes only, whatever the test. -/
  attributes_selected {ps : List Expr} {ctx : Context} {nodes next : List NodeRef} :
    (Step.mk .attributes test ps).select ctx nodes = .ok next →
      ∀ m ∈ next, m.event.content.isAttribute = true
  /-- With a test for a kind of children it selects nothing. -/
  nothing_selected (ps : List Expr) (ctx : Context) (nodes : List NodeRef) :
    test.isKind = true → (Step.mk .attributes test ps).select ctx nodes = .ok []
  /-- About attributes the two agree: the pattern of the bare step matches what the bare step
  selects. -/
  agreement {ctx above : Context} {n : NodeRef} {i : Nat} {a : Attribute} {e : Event} {top : Nat}
    {next : List NodeRef} : n.event.content.attributes[i]? = some a →
    (Step.mk .attributes test []).select above [n] = .ok next →
    ctx.event? top = some e → e.content = .attr a (i + 1) → 2 ≤ top →
      ((PathPattern.append ⟨false, []⟩ ⟨test, true, false, []⟩).match? ctx top =
        .ok (some (i + 1)) ↔
        ⟨Event.attributeOf n.event a (i + 1), n.depth + 1⟩ ∈ next)

theorem holdsAt_kind (h : test.isKind = true) (gap : Bool) (ps : List Expr) :
    PatternStep.holdsAt ⟨test, true, gap, ps⟩ ctx top =
      PatternStep.holdsAt ⟨test, false, gap, ps⟩ ctx top := by
  unfold PatternStep.holdsAt
  cases ctx.event? top with
  | none => rfl
  | some e => simp only [NodeTest.accepts_of_isKind h _ (if _ then _ else _)]

theorem select_kind (h : test.isKind = true) :
    (Step.mk .attributes test ps).select ctx nodes = .ok [] := by
  have hnone : ∀ n : NodeRef, (Axis.attributes.reach n ctx).filter
      (test.acceptsOn .attributes) = [] := by
    intro n
    apply List.filter_eq_nil_iff.mpr
    intro m hm ha
    obtain ⟨i, a, -, rfl⟩ := mem_reach_attributes.mp hm
    cases NodeTest.not_attribute_of_isKind h ha
  have hempty : (nodes.flatMap fun n => (Axis.attributes.reach n ctx).filter
      (test.acceptsOn .attributes)) = [] :=
    List.flatMap_eq_nil_iff.mpr fun n _ => hnone n
  rw [Step.select, hempty, keep]

/-- The relative pattern of one step without predicates asks no more than the step's test. -/
theorem match?_attribute {i : Nat} {a : Attribute} (he : ctx.event? top = some e)
    (hc : e.content = .attr a i) (htop : 2 ≤ top) :
    (PathPattern.append ⟨false, []⟩ ⟨test, true, false, []⟩).match? ctx top =
      .ok (if test.accepts (.attr a i) .attributes then some i else none) := by
  rw [PathPattern.match?_append]
  simp only [List.reverse_nil, matchUpwards, PatternStep.holdsAt_of_bare, he, Option.any_some, hc]
  by_cases ht : test.accepts (.attr a i) .attributes
  · simp [ht, Bind.bind, Except.bind, htop, Context.nodeAt, he, Event.positionOf, hc]
  · simp [ht, Bind.bind, Except.bind]

theorem at_sign (test : NodeTest) : AtSign test where
  attributes_matched hk hm he := by
    obtain ⟨hh, -⟩ := PathPattern.holdsAt_of_match? hm he
    exact NodeTest.isAttribute_of_accepts hk ((PatternStep.holdsAt_iff he).mp hh).1
  sign_ignored p gap ps ctx top hk :=
    PathPattern.match?_append_congr (holdsAt_kind hk gap ps) rfl rfl
  children_matched hk hm he := by
    obtain ⟨hh, -⟩ := PathPattern.holdsAt_of_match? hm he
    have ha := ((PatternStep.holdsAt_iff he).mp hh).1
    constructor
    · rw [← NodeTest.accepts_of_isKind hk]
      exact ha
    · exact NodeTest.not_attribute_of_isKind hk ha
  attributes_selected h m hm := by
    obtain ⟨n, -, i, ⟨a, -, -, rfl⟩, -⟩ := (mem_select_attributes h).mp hm
    rfl
  nothing_selected ps ctx nodes hk := select_kind hk
  agreement := by
    intro ctx above n i a e top next ha hs he hc htop
    rw [match?_attribute he hc htop, mem_select_attributes_bare hs]
    constructor
    · intro h
      have ht : test.accepts (.attr a (i + 1)) .attributes = true := by
        by_cases ht : test.accepts (.attr a (i + 1)) .attributes
        · exact ht
        · simp [ht] at h
      exact ⟨n, List.mem_singleton_self n, i, a, ha, ht, rfl⟩
    · rintro ⟨k, -, j, b, -, ht, heq⟩
      obtain ⟨rfl, rfl⟩ : a = b ∧ i = j := by
        simpa [Event.attributeOf] using congrArg (·.event.content) heq
      rw [if_pos ht]

/-- Patterns may have an at sign before any test. -/
example : parsePattern [] "a/@text()" =
    .ok (.single (PathPattern.append ⟨false, [⟨.name none "a" "", false, false, []⟩]⟩
      ⟨.text, true, false, []⟩)) := by
  with_unfolding_all rfl

/-! ## Paths without predicates among open nodes -/

/-- The step stays among the open nodes and has no predicates. -/
def Step.Plain : Step → Prop
  | .mk axis _ ps => axis ≠ .attributes ∧ ps = []

theorem stands_of_reach {axis : Axis} (ha : axis ≠ .attributes) (hn : ctx.Stands n)
    (hm : m ∈ axis.reach n ctx) : ctx.Stands m := by
  cases axis with
  | attributes => exact absurd rfl ha
  | self =>
    obtain rfl := List.mem_singleton.mp hm
    exact hn
  | parent =>
    simp only [Axis.reach] at hm
    split at hm
    · exact (Context.Stands.ref?_iff.mp (Option.mem_toList.mp hm)).1
    · cases hm
  | child =>
    simp only [Axis.reach, hn.isLive, if_true] at hm
    exact (Context.Stands.ref?_iff.mp (Option.mem_toList.mp hm)).1
  | descendant =>
    simp only [Axis.reach, hn.isLive, if_true, List.mem_filterMap] at hm
    obtain ⟨d, -, hd⟩ := hm
    exact (Context.Stands.ref?_iff.mp hd).1

theorem walk_append (steps rest : List Step) (nodes : List NodeRef) :
    walk ctx nodes (steps ++ rest) = (do walk ctx (← walk ctx nodes steps) rest) := by
  induction steps generalizing nodes with
  | nil => rfl
  | cons s r ih =>
    simp only [List.cons_append, walk]
    cases s.select ctx nodes with
    | error f => rfl
    | ok next => exact ih next

/-- Plain steps always lead somewhere, and to open nodes only. -/
theorem walk_plain {steps : List Step} (hs : ∀ s ∈ steps, s.Plain)
    (hn : ∀ n ∈ nodes, ctx.Stands n) :
    ∃ reached, walk ctx nodes steps = .ok reached ∧ ∀ m ∈ reached, ctx.Stands m := by
  induction steps generalizing nodes with
  | nil => exact ⟨nodes, by rw [walk], hn⟩
  | cons s r ih =>
    obtain ⟨axis, test, ps⟩ := s
    obtain ⟨haxis, rfl⟩ := hs _ List.mem_cons_self
    have hnext : ∀ m ∈ nodes.flatMap fun n => (axis.reach n ctx).filter (test.acceptsOn axis),
        ctx.Stands m := by
      intro m hm
      obtain ⟨n, hmem, hm⟩ := List.mem_flatMap.mp hm
      exact stands_of_reach haxis (hn n hmem) (List.mem_filter.mp hm).1
    obtain ⟨reached, hw, hr⟩ := ih (fun t ht => hs t (List.mem_cons_of_mem _ ht)) hnext
    refine ⟨reached, ?_, hr⟩
    rw [walk, select_bare]
    exact hw

/-- The reference is to an attribute, accepted by the test, of the open node at a depth. -/
def Context.AttributeOpen (ctx : Context) (depth : Nat) (test : NodeTest) (m : NodeRef) : Prop :=
  ∃ e i, ctx.event? depth = some e ∧ AttributeAt ⟨e, depth⟩ test i m

theorem Context.Stands.attributeOpen_iff (hn : ctx.Stands n) :
    ctx.AttributeOpen n.depth test m ↔ ∃ i, AttributeAt n test i m := by
  have he : ctx.event? n.depth = some n.event := hn
  simp [AttributeOpen, he]

/-- Only elements have attributes, and any node below another accepts an element. -/
theorem acceptsOn_descendant_of_attribute {i : Nat} (h : AttributeAt n test i m) :
    NodeTest.node.acceptsOn .descendant n = true := by
  obtain ⟨a, ha, -⟩ := h
  obtain ⟨e, d⟩ := n
  obtain ⟨identity, content, positions⟩ := e
  cases content with
  | element => rfl
  | _ => simp [Content.attributes] at ha

theorem walk_single (s : Step) : walk ctx nodes [s] = s.select ctx nodes := by
  rw [walk]
  cases hs : s.select ctx nodes with
  | error f => rfl
  | ok next => simp only [Bind.bind, Except.bind, walk]

/-- After a single slash the attributes are those of the nodes themselves. -/
theorem walk_attributes (test : NodeTest) (hn : ∀ n ∈ nodes, ctx.Stands n) :
    ∃ next, walk ctx nodes (stepsAfter false (.mk .attributes test [])) = .ok next ∧
      ∀ m, m ∈ next ↔ ∃ n ∈ nodes, ctx.AttributeOpen n.depth test m := by
  have hsel := @select_bare ctx test nodes .attributes
  refine ⟨_, (walk_single _).trans hsel, fun m => ?_⟩
  rw [mem_select_attributes_bare hsel]
  constructor
  · rintro ⟨n, hmem, hm⟩
    exact ⟨n, hmem, (hn n hmem).attributeOpen_iff.mpr hm⟩
  · rintro ⟨n, hmem, hm⟩
    exact ⟨n, hmem, (hn n hmem).attributeOpen_iff.mp hm⟩

/-- After a double slash they are those of the open nodes below, and not of the nodes themselves. -/
theorem walk_gap_attributes (test : NodeTest) (hn : ∀ n ∈ nodes, ctx.Stands n) :
    ∃ next, walk ctx nodes (stepsAfter true (.mk .attributes test [])) = .ok next ∧
      ∀ m, m ∈ next ↔ ∃ n ∈ nodes, ∃ d, n.depth < d ∧ ctx.AttributeOpen d test m := by
  obtain ⟨lower, hdown, hlower⟩ : ∃ lower, (Step.mk .descendant .node []).select ctx nodes =
      .ok lower ∧ ∀ k, k ∈ lower ↔ ∃ n ∈ nodes, k ∈ Axis.descendant.reach n ctx ∧
        NodeTest.node.acceptsOn .descendant k = true :=
    ⟨_, select_bare .descendant, fun k => by simp only [List.mem_flatMap, List.mem_filter]⟩
  have hsel := @select_bare ctx test lower .attributes
  have hsplit : stepsAfter true (.mk .attributes test []) =
      [.mk .descendant .node []] ++ [.mk .attributes test []] := rfl
  refine ⟨_, by rw [hsplit, walk_append, walk_single, hdown]; exact (walk_single _).trans hsel,
    fun m => ?_⟩
  rw [mem_select_attributes_bare hsel]
  have reached {n k : NodeRef} (hn : ctx.Stands n) :=
    hn.mem_reach (s := ⟨.node, false, true, []⟩) (m := k)
  simp only [if_true, PatternStep.Below] at reached
  constructor
  · rintro ⟨k, hk, i, hm⟩
    obtain ⟨n, hmem, hk, -⟩ := (hlower k).mp hk
    obtain ⟨hstands, hlt⟩ := (reached (hn n hmem)).mp hk
    exact ⟨n, hmem, k.depth, hlt, hstands.attributeOpen_iff.mpr ⟨i, hm⟩⟩
  · rintro ⟨n, hmem, d, hlt, e, i, he, hm⟩
    have hk := (reached (k := ⟨e, d⟩) (hn n hmem)).mpr ⟨he, hlt⟩
    exact ⟨⟨e, d⟩, (hlower _).mpr ⟨n, hmem, hk, acceptsOn_descendant_of_attribute hm⟩, i, hm⟩

/-! ## The text of a pattern as a path -/

/-- The steps of a path that are written like the step of a pattern. -/
def PatternStep.written (s : PatternStep) : List Step :=
  stepsAfter s.afterGap (.mk (if s.isAttribute then .attributes else .child) s.test s.predicates)

/-- The path that is written like the pattern, with a double slash in front if that is relative. -/
def PathPattern.written (p : PathPattern) : Expr :=
  .path true ((fromRoot p.absolute p.steps).flatMap PatternStep.written)

/-- The step of a pattern is for children and has no predicates. -/
def PatternStep.Plain (s : PatternStep) : Prop := s.isAttribute = false ∧ s.predicates = []

section
variable {steps : List PatternStep} {absolute : Bool} {p : PathPattern} {f : Fault}

theorem written_of_plain (hs : ∀ s ∈ steps, s.Plain) :
    steps.flatMap PatternStep.written = steps.map PatternStep.asStep := by
  induction steps with
  | nil => rfl
  | cons s r ih =>
    obtain ⟨hattr, -⟩ := hs s List.mem_cons_self
    have hone : s.written = [s.asStep] := by
      simp only [PatternStep.written, PatternStep.asStep, hattr, Bool.false_eq_true, if_false]
      cases s.afterGap <;> rfl
    rw [List.flatMap_cons, List.map_cons, hone, ih fun t ht => hs t (List.mem_cons_of_mem _ ht),
      List.singleton_append]

theorem plain_fromRoot (hs : ∀ s ∈ steps, s.Plain) : ∀ s ∈ fromRoot absolute steps, s.Plain := by
  cases steps with
  | nil => exact hs
  | cons s r =>
    obtain ⟨hfirst, hrest⟩ := List.forall_mem_cons.mp hs
    exact List.forall_mem_cons.mpr ⟨hfirst, hrest⟩

/-- A step after a double slash is the same at the beginning of a pattern and later. -/
theorem fromRoot_append_gap (hs : s.afterGap = true) :
    fromRoot absolute (steps ++ [s]) = fromRoot absolute steps ++ [s] := by
  cases steps with
  | nil =>
    obtain ⟨test, isAttribute, afterGap, ps⟩ := s
    obtain rfl : afterGap = true := hs
    simp [fromRoot]
  | cons t r => rfl

theorem plain_asStep (hs : s.Plain) : s.asStep.Plain := by
  refine ⟨?_, hs.2⟩
  split <;> simp

/-- Without predicates a pattern has an answer at every open node. -/
theorem PathPattern.match?_of_bare (hs : ∀ s ∈ p.steps, s.predicates = [])
    (he : ctx.event? top = some e) (hr : ∃ root, ctx.event? 1 = some root) :
    ∃ k, p.match? ctx top = .ok k := by
  unfold match?
  cases hrev : p.steps.reverse with
  | nil =>
    obtain ⟨root, hr⟩ := hr
    simp only [Context.nodeAt, hr, Bind.bind, Except.bind]
    split
    · exact ⟨_, rfl⟩
    · exact ⟨_, rfl⟩
  | cons s r =>
    simp only
    cases hm : matchUpwards p.absolute ctx (s :: r) top with
    | error f =>
      obtain ⟨t, ht, k, hk⟩ := holdsAt_of_matchUpwards_fails hm
      have ht : t ∈ p.steps := by
        rw [← List.mem_reverse, hrev]
        exact ht
      rw [PatternStep.holdsAt_of_bare (hs t ht)] at hk
      cases hk
    | ok b =>
      cases b with
      | false => exact ⟨none, rfl⟩
      | true =>
        exact ⟨some (e.positionOf s.test.group),
          by simp [Bind.bind, Except.bind, Context.nodeAt, he]⟩

end

/-! ## One more open node -/

/-- What is seen when one more node is open. -/
def Context.push (ctx : Context) (e : Event) : Context :=
  { ctx with ancestors := ctx.ancestors ++ [e] }

theorem Context.event?_push (e : Event) (h : depth ≤ ctx.depth) :
    (ctx.push e).event? depth = ctx.event? depth := by
  cases depth with
  | zero => rfl
  | succ d => exact List.getElem?_append_left h

theorem Context.event?_push_last (e : Event) :
    (ctx.push e).event? (ctx.depth + 1) = some e := by
  simp [push, event?, depth]

/-- Chains of plain steps do not see what is below their ends. -/
theorem Leads.push_iff {steps : List PatternStep} {upper lower : Nat}
    (hs : ∀ s ∈ steps, s.Plain) (hl : lower ≤ ctx.depth) :
    Leads (ctx.push e) steps upper lower ↔ Leads ctx steps upper lower := by
  induction steps generalizing upper with
  | nil => simp
  | cons s r ih =>
    obtain ⟨hfirst, hrest⟩ := List.forall_mem_cons.mp hs
    have same : ∀ d ≤ ctx.depth, s.holdsAt (ctx.push e) d = s.holdsAt ctx d := by
      intro d hd
      rw [PatternStep.holdsAt_of_bare hfirst.2, PatternStep.holdsAt_of_bare hfirst.2,
        ctx.event?_push e hd]
    simp only [cons_iff, ih hrest]
    constructor
    · rintro ⟨d, hb, hh, hr⟩
      have hd := hr.le
      exact ⟨d, hb, same d (by omega) ▸ hh, hr⟩
    · rintro ⟨d, hb, hh, hr⟩
      have hd := hr.le
      exact ⟨d, hb, (same d (by omega)).symm ▸ hh, hr⟩

/-! ## Attributes after a double slash -/

/-- The value of the expression is these nodes. -/
def Expr.Selects (x : Expr) (ctx : Context) (top : Nat) (nodes : List NodeRef) : Prop :=
  x.evaluate ctx top = .ok ⟨nodes.map .node⟩

/-- Attributes after a double slash, in paths and in patterns, when nothing before it asks for
attributes or has predicates. -/
structure GapBeforeAttributes (test : NodeTest) : Prop where
  /-- A path selects attributes of open nodes strictly below the nodes that the steps before the
  double slash select. A single slash selects those of the nodes themselves. -/
  selected {ctx : Context} {top : Nat} (absolute : Bool) {steps : List Step} :
    (∀ s ∈ steps, s.Plain) → (∃ e, ctx.event? (if absolute then 1 else top) = some e) →
    ∃ upper nodes below, (Expr.path absolute steps).Selects ctx top upper ∧
      (Expr.path absolute (steps ++ stepsAfter false (.mk .attributes test []))).Selects ctx top
        nodes ∧
      (Expr.path absolute (steps ++ stepsAfter true (.mk .attributes test []))).Selects ctx top
        below ∧
      (∀ m, m ∈ nodes ↔ ∃ n ∈ upper, ctx.AttributeOpen n.depth test m) ∧
      ∀ m, m ∈ below ↔ ∃ n ∈ upper, ∃ d, n.depth < d ∧ ctx.AttributeOpen d test m
  /-- A pattern matches an attribute of the deepest open element if the path with the same text
  selects it there, and also if the path before the double slash selects the element itself. -/
  matched {p : PathPattern} {ctx : Context} {root e last : Event} {i : Nat} {a : Attribute} :
    (∀ s ∈ p.steps, s.Plain) → ctx.event? 1 = some root → root.content = .root →
    ctx.event? ctx.depth = some e → e.content.attributes[i]? = some a →
    last.content = .attr a (i + 1) →
    ∃ position upper below,
      (p.append ⟨test, true, true, []⟩).match? (ctx.push last) (ctx.depth + 1) =
        .ok position ∧
      p.written.Selects ctx ctx.depth upper ∧
      (p.append ⟨test, true, true, []⟩).written.Selects ctx ctx.depth below ∧
      (position.isSome ↔
        ⟨Event.attributeOf e a (i + 1), ctx.depth + 1⟩ ∈ below ∨
        ⟨e, ctx.depth⟩ ∈ upper ∧ test.accepts (.attr a (i + 1)) .attributes = true) ∧
      (⟨Event.attributeOf e a (i + 1), ctx.depth + 1⟩ ∈ below ↔
        (∃ n ∈ upper, n.depth < ctx.depth) ∧
          test.accepts (.attr a (i + 1)) .attributes = true)

theorem selects_path_iff {absolute : Bool} {steps : List Step}
    (he : ctx.event? (if absolute then 1 else top) = some e) :
    (Expr.path absolute steps).Selects ctx top nodes ↔
      walk ctx [⟨e, if absolute then 1 else top⟩] steps = .ok nodes := by
  rw [Expr.Selects, Expr.evaluate]
  simp only [Context.nodeAt, he, Bind.bind, Except.bind]
  cases walk ctx [⟨e, if absolute then 1 else top⟩] steps with
  | error f => simp
  | ok reached =>
    have hinj : ∀ a b, Item.node a = Item.node b → a = b := fun _ _ => Item.node.inj
    simp [List.map_inj_right hinj]

theorem gap_selected (test : NodeTest) (top : Nat) (absolute : Bool) {steps : List Step}
    (hs : ∀ s ∈ steps, s.Plain)
    (he : ctx.event? (if absolute then 1 else top) = some e) :
    ∃ upper nodes below, (Expr.path absolute steps).Selects ctx top upper ∧
      (Expr.path absolute (steps ++ stepsAfter false (.mk .attributes test []))).Selects ctx top
        nodes ∧
      (Expr.path absolute (steps ++ stepsAfter true (.mk .attributes test []))).Selects ctx top
        below ∧
      (∀ m, m ∈ nodes ↔ ∃ n ∈ upper, ctx.AttributeOpen n.depth test m) ∧
      ∀ m, m ∈ below ↔ ∃ n ∈ upper, ∃ d, n.depth < d ∧ ctx.AttributeOpen d test m := by
  have hstart : ∀ n ∈ [(⟨e, if absolute then 1 else top⟩ : NodeRef)], ctx.Stands n := by
    intro n hn
    obtain rfl := List.mem_singleton.mp hn
    exact he
  obtain ⟨upper, hupper, hstands⟩ := walk_plain hs hstart
  obtain ⟨nodes, hnodes, hmem⟩ := walk_attributes test hstands
  obtain ⟨below, hbelow, hmem'⟩ := walk_gap_attributes test hstands
  refine ⟨upper, nodes, below, (selects_path_iff he).mpr hupper, ?_, ?_, hmem, hmem'⟩
  · rw [selects_path_iff he, walk_append, hupper]
    exact hnodes
  · rw [selects_path_iff he, walk_append, hupper]
    exact hbelow

/-- The pattern looks for its upper steps at the element of the attribute and above. -/
theorem match?_gap_attribute {p : PathPattern} {root last : Event} {a : Attribute} {i : Nat}
    {position : Option Nat} (hs : ∀ s ∈ p.steps, s.Plain) (hr : ctx.event? 1 = some root)
    (hc : root.content = .root) (hd : 1 ≤ ctx.depth) (hl : last.content = .attr a i)
    (h : (p.append ⟨test, true, true, []⟩).match? (ctx.push last) (ctx.depth + 1) =
      .ok position) :
    position.isSome ↔ (∃ d ≤ ctx.depth, Leads ctx (fromRoot p.absolute p.steps) 1 d) ∧
      test.accepts (.attr a i) .attributes = true := by
  rw [PathPattern.leads_of_match? ((ctx.event?_push last hd).trans hr) hc h]
  change Leads _ (fromRoot p.absolute (p.steps ++ [_])) 1 _ ↔ _
  rw [fromRoot_append_gap rfl, Leads.append_iff]
  simp only [PatternStep.Below, if_true, PatternStep.holdsAt_of_bare, ctx.event?_push_last,
    Option.any_some, hl, Except.ok.injEq, Nat.lt_succ_iff]
  constructor
  · rintro ⟨d, hleads, hle, ht⟩
    exact ⟨⟨d, hle, (Leads.push_iff (plain_fromRoot hs) hle).mp hleads⟩, ht⟩
  · rintro ⟨⟨d, hle, hleads⟩, ht⟩
    exact ⟨d, (Leads.push_iff (plain_fromRoot hs) hle).mpr hleads, hle, ht⟩

/-! ### A pattern beside the path with its text -/

section
variable {p : PathPattern} (hs : ∀ s ∈ p.steps, s.Plain)
include hs

theorem PathPattern.written_of_plain : p.written =
    .path true ((fromRoot p.absolute p.steps).map PatternStep.asStep) := by
  rw [PathPattern.written, Path.written_of_plain (plain_fromRoot hs)]

theorem PathPattern.written_append_gap : (p.append ⟨test, true, true, []⟩).written =
    .path true ((fromRoot p.absolute p.steps).map PatternStep.asStep ++
      stepsAfter true (.mk .attributes test [])) := by
  rw [PathPattern.written, PathPattern.append, fromRoot_append_gap rfl, List.flatMap_append,
    Path.written_of_plain (plain_fromRoot hs), List.flatMap_singleton]
  rfl

/-- The path selects what the steps of the pattern lead to. -/
theorem mem_iff_leads_of_written {root : Event} (hr : ctx.event? 1 = some root)
    (h : p.written.Selects ctx top nodes) : n ∈ nodes ↔
      ctx.Stands n ∧ Leads ctx (fromRoot p.absolute p.steps) 1 n.depth := by
  have hstart : ∀ k ∈ [(⟨root, 1⟩ : NodeRef)], ctx.Stands k := by
    intro k hk
    rw [List.mem_singleton.mp hk]
    exact hr
  rw [PathPattern.written_of_plain hs] at h
  rw [mem_walk (fun t ht => (plain_fromRoot hs t ht).1) hstart ((selects_path_iff hr).mp h)]
  simp

end

/-- An attribute of the deepest open node is among those below nodes that are further up. -/
theorem attribute_mem_iff {a : Attribute} {i : Nat} {upper below : List NodeRef}
    (he : ctx.event? ctx.depth = some e) (ha : e.content.attributes[i]? = some a)
    (h : ∀ m, m ∈ below ↔ ∃ n ∈ upper, ∃ d, n.depth < d ∧ ctx.AttributeOpen d test m) :
    ⟨Event.attributeOf e a (i + 1), ctx.depth + 1⟩ ∈ below ↔
      (∃ n ∈ upper, n.depth < ctx.depth) ∧
        test.accepts (.attr a (i + 1)) .attributes = true := by
  rw [h]
  constructor
  · rintro ⟨n, hn, d, hlt, e', j, he', b, hb, ht, heq⟩
    obtain ⟨⟨rfl, rfl⟩, rfl⟩ : (a = b ∧ i = j) ∧ ctx.depth = d := by
      constructor
      · simpa [Event.attributeOf] using congrArg (·.event.content) heq
      · simpa using congrArg NodeRef.depth heq
    exact ⟨⟨n, hn, hlt⟩, ht⟩
  · rintro ⟨⟨n, hn, hlt⟩, ht⟩
    exact ⟨n, hn, ctx.depth, hlt, e, i, he, a, ha, ht, rfl⟩

theorem gap_before_attributes (test : NodeTest) : GapBeforeAttributes test where
  selected absolute _ hs he := by
    obtain ⟨e, he⟩ := he
    exact gap_selected test _ absolute hs he
  matched := by
    intro p ctx root e last i a hs hr hc he ha hl
    have hd : 1 ≤ ctx.depth := (Context.Stands.le_depth (n := ⟨e, ctx.depth⟩) he).1
    have hbare : ∀ s ∈ (p.append ⟨test, true, true, []⟩).steps, s.predicates = [] := by
      intro s hmem
      rcases List.mem_append.mp hmem with hmem | hmem
      · exact (hs s hmem).2
      · rw [List.mem_singleton.mp hmem]
    obtain ⟨position, hposition⟩ := PathPattern.match?_of_bare hbare
      (ctx.event?_push_last last) ⟨root, (ctx.event?_push last hd).trans hr⟩
    have hsteps : ∀ t ∈ (fromRoot p.absolute p.steps).map PatternStep.asStep, t.Plain := by
      intro t ht
      obtain ⟨s, hmem, rfl⟩ := List.mem_map.mp ht
      exact plain_asStep (plain_fromRoot hs s hmem)
    obtain ⟨upper, -, below, hupper, -, hbelow, -, hmem⟩ :=
      gap_selected test ctx.depth true hsteps hr
    rw [← PathPattern.written_of_plain hs] at hupper
    rw [← PathPattern.written_append_gap hs] at hbelow
    have hmissed := attribute_mem_iff he ha hmem
    refine ⟨position, upper, below, hposition, hupper, hbelow, ?_, hmissed⟩
    rw [match?_gap_attribute hs hr hc hd hl hposition, hmissed]
    constructor
    · rintro ⟨⟨d, hle, hchain⟩, ht⟩
      obtain ⟨e', he'⟩ := hchain.event ⟨root, hr⟩
      have hn : ⟨e', d⟩ ∈ upper := (mem_iff_leads_of_written hs hr hupper).mpr ⟨he', hchain⟩
      by_cases hd : d = ctx.depth
      · subst hd
        obtain rfl : e' = e := Option.some.inj (he'.symm.trans he)
        exact .inr ⟨hn, ht⟩
      · exact .inl ⟨⟨_, hn, Nat.lt_of_le_of_ne hle hd⟩, ht⟩
    · rintro (⟨⟨n, hn, hlt⟩, ht⟩ | ⟨hn, ht⟩)
      · exact ⟨⟨n.depth, Nat.le_of_lt hlt, ((mem_iff_leads_of_written hs hr hupper).mp hn).2⟩, ht⟩
      · exact ⟨⟨ctx.depth, Nat.le_refl _, ((mem_iff_leads_of_written hs hr hupper).mp hn).2⟩, ht⟩

/-- The path with the text of a pattern is what this text is read as. -/
example :
    let p := PathPattern.append ⟨false, [⟨.name none "doc" "", false, false, []⟩]⟩
      ⟨.name none "id" "", true, true, []⟩
    parsePattern [] "doc//@id" = .ok (.single p) ∧ parseExpr [] "//doc//@id" = .ok p.written := by
  constructor <;> with_unfolding_all rfl

end StreamTransform.Path
