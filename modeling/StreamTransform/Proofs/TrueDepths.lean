import StreamTransform.Proofs.AttributeSteps
import StreamTransform.Proofs.Evaluability

/-!
# Nodes that paths find

Paths find open nodes at the depths where they stand, and attributes of open nodes. An attribute is
made anew by the step that finds it and stands nowhere on the stack, so the number that is recorded
for it may be the depth of another node. It always is one more than the depth of its element: from
an attribute only the parent step goes on, to the element, and there its predicates are judged.
Predicates are evaluated over the same stack, so this is so for the paths within them too.
-/

namespace StreamTransform

namespace Path

variable {ctx ctx' : Context} {n m o : NodeRef} {nodes next : List NodeRef} {top top' : Nat}

/-! ## Found nodes -/

namespace Context

/-- Every node of the stack was met in the input. No attribute that a path makes is. -/
def Met (ctx : Context) : Prop := ∀ e ∈ ctx.ancestors, ∃ serial, e.identity = .met serial

/-- The reference is to an attribute, made by a path, of an open node. -/
def Owns (ctx : Context) (o n : NodeRef) : Prop :=
  ctx.Stands o ∧ ∃ i a, o.event.content.attributes[i]? = some a ∧
    n = ⟨Event.attributeOf o.event a (i + 1), o.depth + 1⟩

/-- The node is open at its depth, or an attribute one below an open node. -/
inductive Finds (ctx : Context) (n : NodeRef) : Prop
  | stands : ctx.Stands n → Finds ctx n
  | owned {o : NodeRef} : ctx.Owns o n → Finds ctx n

theorem event?_congr (h : ctx'.ancestors = ctx.ancestors) (d : Nat) :
    ctx'.event? d = ctx.event? d := by
  cases d with
  | zero => rfl
  | succ d => exact congrArg (fun es : List Event => es[d]?) h

theorem Stands.congr (h : ctx'.ancestors = ctx.ancestors) : ctx'.Stands n ↔ ctx.Stands n := by
  rw [Stands, Stands, event?_congr h]

theorem Owns.congr (h : ctx'.ancestors = ctx.ancestors) : ctx'.Owns o n ↔ ctx.Owns o n := by
  rw [Owns, Owns, Stands.congr h]

theorem Finds.congr (h : ctx'.ancestors = ctx.ancestors) (hn : ctx'.Finds n) : ctx.Finds n := by
  cases hn with
  | stands hn => exact .stands ((Stands.congr h).mp hn)
  | owned ho => exact .owned ((Owns.congr h).mp ho)

theorem Met.identity_ne (h : ctx.Met) {e owner : Event} (he : e ∈ ctx.ancestors) (a : Attribute)
    (i : Nat) : e.identity ≠ (Event.attributeOf owner a i).identity := by
  obtain ⟨serial, hid⟩ := h e he
  rw [hid]
  exact Identity.noConfusion

theorem mem_of_event? {d : Nat} {e : Event} (h : ctx.event? d = some e) : e ∈ ctx.ancestors := by
  cases d with
  | zero => cases h
  | succ d => exact List.mem_of_getElem? h

namespace Owns

theorem isAttribute (h : ctx.Owns o n) : n.event.content.isAttribute = true := by
  obtain ⟨-, i, a, -, rfl⟩ := h
  rfl

theorem depth_eq (h : ctx.Owns o n) : n.depth = o.depth + 1 := by
  obtain ⟨-, i, a, -, rfl⟩ := h
  rfl

theorem identity_ne (hs : ctx.Met) (h : ctx.Owns o n) :
    ∀ e ∈ ctx.ancestors, e.identity ≠ n.event.identity := by
  obtain ⟨-, i, a, -, rfl⟩ := h
  exact fun e he => hs.identity_ne he a (i + 1)

/-- Whatever is open at its depth, an attribute made by a path is not live. -/
theorem not_isLive (hs : ctx.Met) (h : ctx.Owns o n) : ctx.isLive n = false := by
  rw [isLive]
  cases he : ctx.event? n.depth with
  | none => rfl
  | some e => exact beq_false_of_ne (h.identity_ne hs e (mem_of_event? he))

/-! ### Steps from an attribute -/

theorem reach_parent (h : ctx.Owns o n) : Axis.parent.reach n ctx = [o] := by
  have howner : ctx.ref? o.depth = some o := Stands.ref?_iff.mpr ⟨h.1, rfl⟩
  have habove : 1 ≤ o.depth := h.1.le_depth.1
  have hbelow : n.depth > 1 := by
    rw [h.depth_eq]
    omega
  simp only [Axis.reach, h.isAttribute, Bool.true_or, hbelow, decide_true, Bool.and_self, if_true]
  rw [h.depth_eq, Nat.add_sub_cancel, howner, Option.toList_some]

theorem reach_child (hs : ctx.Met) (h : ctx.Owns o n) : Axis.child.reach n ctx = [] := by
  rw [Axis.reach, if_neg (by rw [h.not_isLive hs]; exact Bool.false_ne_true)]

theorem reach_descendant (hs : ctx.Met) (h : ctx.Owns o n) :
    Axis.descendant.reach n ctx = [] := by
  rw [Axis.reach, if_neg (by rw [h.not_isLive hs]; exact Bool.false_ne_true)]

theorem reach_attributes (h : ctx.Owns o n) : Axis.attributes.reach n ctx = [] := by
  obtain ⟨-, i, a, -, rfl⟩ := h
  rfl

theorem judgedAt (hs : ctx.Met) (h : ctx.Owns o n) : ctx.judgedAt n = o.depth := by
  have habove : 1 ≤ o.depth := h.1.le_depth.1
  rw [Context.judgedAt, if_neg (by rw [h.not_isLive hs]; exact Bool.false_ne_true), h.depth_eq]
  omega

end Owns

theorem Stands.nodeAt (h : ctx.Stands n) : ctx.nodeAt n.depth = .ok n.event := by
  unfold Stands at h
  rw [Context.nodeAt, h]

theorem stands_of_nodeAt {d : Nat} {e : Event} (h : ctx.nodeAt d = .ok e) : ctx.Stands ⟨e, d⟩ := by
  unfold Context.nodeAt at h
  split at h
  · rename_i e' he
    cases h
    exact he
  · cases h

end Context

/-! ## One step -/

theorem Context.Finds.reach (hs : ctx.Met) (h : ctx.Finds n) {axis : Axis}
    (hm : m ∈ axis.reach n ctx) : ctx.Finds m := by
  cases h with
  | stands hn =>
    by_cases ha : axis = .attributes
    · subst ha
      obtain ⟨i, a, ha, rfl⟩ := mem_reach_attributes.mp hm
      exact .owned ⟨hn, i, a, ha, rfl⟩
    · exact .stands (stands_of_reach ha hn hm)
  | owned ho =>
    cases axis with
    | self =>
      rw [List.mem_singleton.mp hm]
      exact .owned ho
    | parent =>
      rw [ho.reach_parent, List.mem_singleton] at hm
      rw [hm]
      exact .stands ho.1
    | child =>
      rw [ho.reach_child hs] at hm
      cases hm
    | descendant =>
      rw [ho.reach_descendant hs] at hm
      cases hm
    | attributes =>
      rw [ho.reach_attributes] at hm
      cases hm

/-- Predicates of a node that a path finds are judged at an open node. -/
theorem Context.Finds.judgedAt (hs : ctx.Met) (h : ctx.Finds n) :
    1 ≤ ctx.judgedAt n ∧ ctx.judgedAt n ≤ ctx.depth := by
  cases h with
  | stands hn =>
    rw [hn.judgedAt]
    exact hn.le_depth
  | owned ho =>
    rw [ho.judgedAt hs]
    exact ho.1.le_depth

/-- The nodes that a step leads to and that its test accepts. -/
def candidates (ctx : Context) (axis : Axis) (test : NodeTest) (nodes : List NodeRef) :
    List NodeRef :=
  nodes.flatMap fun n => (axis.reach n ctx).filter (test.acceptsOn axis)

theorem finds_of_candidates (hs : ctx.Met) (h : ∀ n ∈ nodes, ctx.Finds n) {axis : Axis}
    {test : NodeTest} : ∀ m ∈ candidates ctx axis test nodes, ctx.Finds m := by
  intro m hm
  obtain ⟨n, hn, hm⟩ := List.mem_flatMap.mp hm
  exact (h n hn).reach hs (List.mem_filter.mp hm).1

/-- A step selects the candidates of which its predicates hold. -/
theorem mem_select {axis : Axis} {test : NodeTest} {ps : List Expr}
    (h : (Step.mk axis test ps).select ctx nodes = .ok next) :
    m ∈ next ↔ m ∈ candidates ctx axis test nodes ∧
      holdAll (ctx.seenFrom (ctx.judgedAt m) (m.event.positionOf test.group)) (ctx.judgedAt m)
        (m.event.positionOf test.group) ps = .ok true := by
  rw [Step.select] at h
  exact mem_of_keep h

/-- What a step finds is found, and so on from step to step. -/
theorem finds_of_walk (hs : ctx.Met) {steps : List Step} (h : ∀ n ∈ nodes, ctx.Finds n)
    (hw : walk ctx nodes steps = .ok next) : ∀ n ∈ next, ctx.Finds n := by
  induction steps generalizing nodes with
  | nil =>
    rw [walk, Except.ok.injEq] at hw
    exact hw ▸ h
  | cons s r ih =>
    rw [walk, bind_eq_ok_iff] at hw
    obtain ⟨middle, hmiddle, hrest⟩ := hw
    obtain ⟨axis, test, ps⟩ := s
    exact ih (fun n hn => finds_of_candidates hs h n ((mem_select hmiddle).mp hn).1) hrest

/-! ## Paths -/

/-- The steps lead from the node where a path starts to these nodes. -/
def Context.LeadsTo (ctx : Context) (top : Nat) (absolute : Bool) (steps : List Step)
    (nodes : List NodeRef) : Prop :=
  ∃ e, ctx.nodeAt (if absolute then 1 else top) = .ok e ∧
    walk ctx [⟨e, if absolute then 1 else top⟩] steps = .ok nodes

theorem Context.LeadsTo.finds (hs : ctx.Met) {absolute : Bool} {steps : List Step}
    (h : ctx.LeadsTo top absolute steps nodes) : ∀ n ∈ nodes, ctx.Finds n := by
  obtain ⟨e, he, hw⟩ := h
  refine finds_of_walk hs (fun n hn => ?_) hw
  rw [List.mem_singleton.mp hn]
  exact .stands (stands_of_nodeAt he)

theorem evaluate_path_iff {absolute : Bool} {steps : List Step} {v : Value} :
    (Expr.path absolute steps).evaluate ctx top = .ok v ↔
      ∃ nodes, ctx.LeadsTo top absolute steps nodes ∧ v = ⟨nodes.map .node⟩ := by
  rw [Expr.evaluate]
  simp only [bind_eq_ok_iff, Context.LeadsTo, Except.ok.injEq]
  constructor
  · rintro ⟨e, he, nodes, hw, rfl⟩
    exact ⟨nodes, ⟨e, he, hw⟩, rfl⟩
  · rintro ⟨nodes, ⟨e, he, hw⟩, rfl⟩
    exact ⟨e, he, nodes, hw, rfl⟩

/-- The expressions whose values make up that of an expression. -/
def Expr.operands : Expr → List Expr
  | .sequence items => items
  | .call _ args => args
  | .binary _ l r => [l, r]
  | .negate e => [e]
  | .conditional t y n => [t, y, n]
  | .literal _ | .number _ | .reference _ | .path .. => []

/-- In the course of the evaluation of an expression another one may be evaluated, over what stack
and at what depth: an operand, or a predicate at a candidate of a step. -/
inductive MayEvaluate : Context → Nat → Expr → Context → Nat → Expr → Prop
  | self (ctx : Context) (top : Nat) (x : Expr) : MayEvaluate ctx top x ctx top x
  | operand {ctx ctx' : Context} {top top' : Nat} {x y z : Expr} : y ∈ x.operands →
      MayEvaluate ctx top y ctx' top' z → MayEvaluate ctx top x ctx' top' z
  | predicate {ctx ctx' : Context} {top top' : Nat} {absolute : Bool} {before after : List Step}
      {axis : Axis} {test : NodeTest} {ps : List Expr} {nodes : List NodeRef} {n : NodeRef}
      {p z : Expr} : ctx.LeadsTo top absolute before nodes →
      n ∈ candidates ctx axis test nodes → p ∈ ps →
      MayEvaluate (ctx.seenFrom (ctx.judgedAt n) (n.event.positionOf test.group))
        (ctx.judgedAt n) p ctx' top' z →
      MayEvaluate ctx top (.path absolute (before ++ .mk axis test ps :: after)) ctx' top' z

theorem MayEvaluate.keeps_stack {x y : Expr} (h : MayEvaluate ctx top x ctx' top' y)
    (hs : ctx.Met) (htop : 1 ≤ top ∧ top ≤ ctx.depth) :
    ctx'.ancestors = ctx.ancestors ∧ 1 ≤ top' ∧ top' ≤ ctx.depth := by
  induction h with
  | self => exact ⟨rfl, htop⟩
  | operand _ _ ih => exact ih hs htop
  | predicate hlead hn _ _ ih =>
    have hfound := finds_of_candidates hs (hlead.finds hs) _ hn
    exact ih hs (hfound.judgedAt hs)

/-! ## True depths -/

/-- Where an attribute made by a path leads to. -/
structure AttributeSteps (ctx : Context) (o n : NodeRef) : Prop where
  fresh : n.event.content.isAttribute = true ∧
    ∀ e ∈ ctx.ancestors, e.identity ≠ n.event.identity
  depth : n.depth = o.depth + 1
  parent : Axis.parent.reach n ctx = [o]
  child : Axis.child.reach n ctx = []
  descendant : Axis.descendant.reach n ctx = []
  attributes : Axis.attributes.reach n ctx = []
  /-- The owner is the current node of its predicates. -/
  current : ctx.judgedAt n = o.depth ∧ ctx.nodeAt o.depth = .ok o.event
  /-- So a step that leads to the attribute takes it if its predicates hold at the owner. -/
  predicates : ∀ axis test ps nodes next, (Step.mk axis test ps).select ctx nodes = .ok next →
    (n ∈ next ↔ n ∈ candidates ctx axis test nodes ∧
      holdAll (ctx.seenFrom o.depth (n.event.positionOf test.group)) o.depth
        (n.event.positionOf test.group) ps = .ok true)

/-- What the paths in an expression find, whenever they are evaluated in the course of its
evaluation. -/
structure TrueDepths (ctx : Context) (top : Nat) (x : Expr) : Prop where
  /-- They are evaluated over the same stack, with an open node as the current one. -/
  stack : ∀ ctx' top' y, MayEvaluate ctx top x ctx' top' y →
    ctx'.ancestors = ctx.ancestors ∧ 1 ≤ top' ∧ top' ≤ ctx.depth
  /-- After every step the nodes are open at their depths or attributes of open nodes, -/
  walked : ∀ ctx' top' absolute before after nodes,
    MayEvaluate ctx top x ctx' top' (.path absolute (before ++ after)) →
    ctx'.LeadsTo top' absolute before nodes → ∀ n ∈ nodes, ctx.Finds n
  /-- and so are those that the path selects. -/
  selected : ∀ ctx' top' absolute steps v, MayEvaluate ctx top x ctx' top' (.path absolute steps) →
    (Expr.path absolute steps).evaluate ctx' top' = .ok v →
    ∀ i ∈ v.items, ∃ n, i = .node n ∧ ctx.Finds n
  attributes : ∀ ctx' top' y o n, MayEvaluate ctx top x ctx' top' y → ctx.Owns o n →
    AttributeSteps ctx' o n

theorem attributeSteps_of_owns (hs : ctx.Met) (h : ctx.Owns o n) : AttributeSteps ctx o n where
  fresh := ⟨h.isAttribute, h.identity_ne hs⟩
  depth := h.depth_eq
  parent := h.reach_parent
  child := h.reach_child hs
  descendant := h.reach_descendant hs
  attributes := h.reach_attributes
  current := ⟨h.judgedAt hs, h.1.nodeAt⟩
  predicates axis test ps nodes next hselect := by
    rw [mem_select hselect, h.judgedAt hs]

/-- Over a stack that the input has built, paths find nodes at their true depths. -/
theorem true_depths (hs : ctx.Met) (h₁ : 1 ≤ top) (htop : top ≤ ctx.depth) (x : Expr) :
    TrueDepths ctx top x := by
  have keeps {ctx' : Context} {top' : Nat} {y : Expr} (h : MayEvaluate ctx top x ctx' top' y) :
      ctx'.ancestors = ctx.ancestors ∧ ctx'.Met := by
    obtain ⟨heq, -⟩ := h.keeps_stack hs ⟨h₁, htop⟩
    refine ⟨heq, ?_⟩
    unfold Context.Met
    rw [heq]
    exact hs
  constructor
  case stack => exact fun ctx' top' y h => h.keeps_stack hs ⟨h₁, htop⟩
  case walked =>
    intro ctx' top' absolute before after nodes h hlead n hn
    obtain ⟨heq, hs'⟩ := keeps h
    exact (hlead.finds hs' n hn).congr heq
  case selected =>
    intro ctx' top' absolute steps v h hv i hi
    obtain ⟨heq, hs'⟩ := keeps h
    obtain ⟨nodes, hlead, rfl⟩ := evaluate_path_iff.mp hv
    obtain ⟨n, hn, rfl⟩ := List.mem_map.mp hi
    exact ⟨n, rfl, (hlead.finds hs' n hn).congr heq⟩
  case attributes =>
    intro ctx' top' y o n h ho
    obtain ⟨heq, hs'⟩ := keeps h
    exact attributeSteps_of_owns hs' ((Context.Owns.congr heq).mpr ho)

/-- An element with an attribute and a child; the attribute is as deep as the child. -/
def attributeBesideChild : Context where
  ancestors := [.met 0 .root, .met 1 (.element (.simple "doc") [⟨.simple "id", "x"⟩]),
    .met 2 (.element (.simple "item") [])]
  lookup _ := none
  position := 1
  hasChildNodes := false

/-- From the attribute the path comes back to its element, and to nothing else. -/
theorem true_depths_attributeBesideChild :
    let doc : NodeRef := ⟨.met 1 (.element (.simple "doc") [⟨.simple "id", "x"⟩]), 2⟩
    let id : NodeRef := ⟨.attributeOf doc.event ⟨.simple "id", "x"⟩ 1, 3⟩
    let x := Expr.path false [.mk .attributes .node [], .mk .parent .node []]
    attributeBesideChild.Met ∧ 1 ≤ 2 ∧ 2 ≤ attributeBesideChild.depth ∧
      TrueDepths attributeBesideChild 2 x ∧ attributeBesideChild.LeadsTo 2 false
        [.mk .attributes .node []] [id] ∧ AttributeSteps attributeBesideChild doc id ∧
      x.evaluate attributeBesideChild 2 = .ok ⟨[.node doc]⟩ := by
  intro doc id x
  have hmet : attributeBesideChild.Met := by
    intro e he
    simp only [attributeBesideChild, List.mem_cons, List.not_mem_nil, or_false] at he
    rcases he with rfl | rfl | rfl <;> exact ⟨_, rfl⟩
  have hdepths : TrueDepths attributeBesideChild 2 x := true_depths hmet (by decide) (by decide) x
  refine ⟨hmet, by decide, by decide, hdepths, ⟨_, rfl, rfl⟩, ?_, rfl⟩
  exact hdepths.attributes _ _ _ _ _ (.self _ _ _) ⟨rfl, 0, _, rfl, rfl⟩

end Path

/-! ## Stacks of runs -/

/-- The stack of a run is built from the input. -/
theorem met_of_reached {env : Environment} {m : Moment} (h : Reached env m)
    {ctx : Path.Context} (hctx : ctx.ancestors = m.state.path) : ctx.Met := by
  intro e he
  rw [hctx, State.path, List.map_reverse, List.mem_reverse] at he
  exact met_in_play h e (List.mem_append_right _ (mem_events_of_map he))

end StreamTransform
