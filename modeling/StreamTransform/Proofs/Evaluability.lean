import StreamTransform.Proofs.Occurrence
import StreamTransform.Proofs.Patterns
import StreamTransform.Proofs.Roundtrip

/-!
# What can go wrong in an evaluation

Binding has checked every call, at any depth and in predicates too, so in an
expression that was parsed no function is unknown and none misses an argument.
The nodes that a path passes stay on the stack, attributes next to it, so there
is a node at every depth that is asked for. What is left to go wrong is a
variable that is not bound, and a function about nodes that is given something
else.
-/

namespace StreamTransform.Path

section
variable {α β : Type} {x : Except Fault α} {k : α → Except Fault β}

theorem bind_eq_ok_iff {b : β} : (x >>= k) = .ok b ↔ ∃ a, x = .ok a ∧ k a = .ok b := by
  cases x <;> simp [Bind.bind, Except.bind]

theorem bind_eq_error_iff {f : Fault} :
    (x >>= k) = .error f ↔ x = .error f ∨ ∃ a, x = .ok a ∧ k a = .error f := by
  cases x <;> simp [Bind.bind, Except.bind]

theorem fails_of_bind_ok {g : α → β} {f : Fault}
    (h : (x >>= fun a => (.ok (g a) : Except Fault β)) = .error f) : x = .error f := by
  rcases bind_eq_error_iff.mp h with h | ⟨a, -, h⟩
  · exact h
  · cases h

end

/-! ## Calls are checked -/

/-- Every call among the expressions is one of a known function, with as many arguments as it
takes. -/
def Checked (es : List Expr) : Prop :=
  ∀ n args, .call n args ∈ es → ∃ f, Function.resolve n args.length = .ok f

section
variable {ns : Namespaces} {es es' : List Expr}

theorem checked_nil : Checked [] := fun _ _ h => by cases h

theorem checked_append : Checked (es ++ es') ↔ Checked es ∧ Checked es' := by
  simp only [Checked, List.mem_append]
  constructor
  · intro h
    exact ⟨fun n args hmem => h n args (.inl hmem), fun n args hmem => h n args (.inr hmem)⟩
  · rintro ⟨h, h'⟩ n args (hmem | hmem)
    · exact h n args hmem
    · exact h' n args hmem

theorem checked_parts {e : Expr} (he : ∀ n args, e ≠ .call n args) (h : Checked e.inner) :
    Checked e.parts := by
  intro n args hmem
  rcases List.mem_cons.mp hmem with rfl | hmem
  · exact absurd rfl (he n args)
  · exact h n args hmem

theorem Checked.inner {e : Expr} (h : Checked e.parts) : Checked e.inner :=
  fun n args hmem => h n args (List.mem_cons_of_mem _ hmem)

theorem length_bindAll {bound : List Expr} (h : bindAll ns es = .ok bound) :
    bound.length = es.length := by
  induction es generalizing bound with
  | nil =>
    simp only [bindAll, Except.ok.injEq] at h
    rw [← h]
  | cons e es ih =>
    simp only [bindAll, bind_eq_ok_iff, Except.ok.injEq] at h
    obtain ⟨e', -, bound', hrest, rfl⟩ := h
    simp [ih hrest]

end

mutual

/-- What binding lets through has been checked. -/
theorem checked_of_bind {ns : Namespaces} :
    ∀ (e : Expr) {e' : Expr}, e.bind ns = .ok e' → Checked e'.parts
  | .literal _, _, h | .number _, _, h | .reference _, _, h => by
    simp only [Expr.bind, Except.ok.injEq] at h
    subst h
    exact checked_parts (fun _ _ => by simp) checked_nil
  | .sequence items, _, h => by
    simp only [Expr.bind, bind_eq_ok_iff, Except.ok.injEq] at h
    obtain ⟨items', hitems, rfl⟩ := h
    exact checked_parts (fun _ _ => by simp) (checked_of_bindAll items hitems)
  | .path _ steps, _, h => by
    simp only [Expr.bind, bind_eq_ok_iff, Except.ok.injEq] at h
    obtain ⟨steps', hsteps, rfl⟩ := h
    exact checked_parts (fun _ _ => by simp) (checked_of_bindSteps steps hsteps)
  | .call n args, _, h => by
    simp only [Expr.bind, bind_eq_ok_iff, Except.ok.injEq] at h
    obtain ⟨f, hresolved, args', hargs, rfl⟩ := h
    intro n' args'' hmem
    rcases List.mem_cons.mp hmem with hcall | hinner
    · cases hcall
      exact ⟨f, by rw [length_bindAll hargs, hresolved]⟩
    · exact checked_of_bindAll args hargs n' args'' hinner
  | .binary _ l r, _, h => by
    simp only [Expr.bind, bind_eq_ok_iff, Except.ok.injEq] at h
    obtain ⟨l', hl, r', hr, rfl⟩ := h
    exact checked_parts (fun _ _ => by simp)
      (checked_append.mpr ⟨checked_of_bind l hl, checked_of_bind r hr⟩)
  | .negate e, _, h => by
    simp only [Expr.bind, bind_eq_ok_iff, Except.ok.injEq] at h
    obtain ⟨e', he, rfl⟩ := h
    exact checked_parts (fun _ _ => by simp) (checked_of_bind e he)
  | .conditional t y n, _, h => by
    simp only [Expr.bind, bind_eq_ok_iff, Except.ok.injEq] at h
    obtain ⟨t', ht, y', hy, n', hn, rfl⟩ := h
    exact checked_parts (fun _ _ => by simp) (checked_append.mpr ⟨checked_of_bind t ht,
      checked_append.mpr ⟨checked_of_bind y hy, checked_of_bind n hn⟩⟩)

theorem checked_of_bindAll {ns : Namespaces} :
    ∀ (es : List Expr) {es' : List Expr}, bindAll ns es = .ok es' → Checked (partsOfAll es')
  | [], _, h => by
    simp only [bindAll, Except.ok.injEq] at h
    subst h
    exact checked_nil
  | e :: es, _, h => by
    simp only [bindAll, bind_eq_ok_iff, Except.ok.injEq] at h
    obtain ⟨e', he, es', hes, rfl⟩ := h
    exact checked_append.mpr ⟨checked_of_bind e he, checked_of_bindAll es hes⟩

theorem checked_of_bindSteps {ns : Namespaces} :
    ∀ (steps : List Step) {steps' : List Step}, bindSteps ns steps = .ok steps' →
      Checked (partsOfSteps steps')
  | [], _, h => by
    simp only [bindSteps, Except.ok.injEq] at h
    subst h
    exact checked_nil
  | .mk _ test ps :: r, _, h => by
    simp only [bindSteps, bind_eq_ok_iff, Except.ok.injEq] at h
    obtain ⟨test', -, ps', hps, r', hr, rfl⟩ := h
    exact checked_append.mpr ⟨checked_of_bindAll ps hps, checked_of_bindSteps r hr⟩

end

/-! ## Nodes that paths pass -/

/-- A node on the stack, or an attribute of a node on the stack. -/
def Context.Within (ctx : Context) (n : NodeRef) : Prop :=
  1 ≤ n.depth ∧ (n.depth ≤ ctx.depth ∨ n.event.content.isAttribute ∧ n.depth = ctx.depth + 1)

namespace Context

variable {ctx : Context} {n m : NodeRef}

theorem exists_nodeAt {d : Nat} (h₁ : 1 ≤ d) (hd : d ≤ ctx.depth) :
    ∃ e, ctx.nodeAt d = .ok e := by
  obtain ⟨d, rfl⟩ := Nat.exists_eq_add_of_le' h₁
  have hlt : d < ctx.ancestors.length := hd
  exact ⟨ctx.ancestors[d], by simp [nodeAt, event?, hlt]⟩

theorem Stands.within (h : ctx.Stands n) : ctx.Within n :=
  ⟨h.le_depth.1, .inl h.le_depth.2⟩

theorem within_of_ref? {d : Nat} (h : n ∈ (ctx.ref? d).toList) : ctx.Within n :=
  (Stands.ref?_iff.mp (Option.mem_toList.mp h)).1.within

/-- Only elements have attributes, so an attribute is never below another one. -/
theorem Within.reach (h : ctx.Within n) (axis : Axis) (hm : m ∈ axis.reach n ctx) :
    ctx.Within m := by
  cases axis with
  | self =>
    rw [List.mem_singleton.mp hm]
    exact h
  | parent =>
    simp only [Axis.reach] at hm
    split at hm
    · exact within_of_ref? hm
    · cases hm
  | child =>
    simp only [Axis.reach] at hm
    split at hm
    · exact within_of_ref? hm
    · cases hm
  | descendant =>
    simp only [Axis.reach] at hm
    split at hm
    · obtain ⟨d, -, hd⟩ := List.mem_filterMap.mp hm
      exact (Stands.ref?_iff.mp hd).1.within
    · cases hm
  | attributes =>
    simp only [Axis.reach, List.mem_mapIdx] at hm
    obtain ⟨i, hi, rfl⟩ := hm
    have helement : n.event.content.isAttribute = false := by
      cases hc : n.event.content with
      | attr => simp [hc, Content.attributes] at hi
      | _ => rfl
    obtain ⟨h₁, hd | ⟨hattribute, -⟩⟩ := h
    · refine ⟨Nat.succ_pos _, ?_⟩
      rcases Nat.lt_or_eq_of_le hd with hlt | heq
      · exact .inl hlt
      · exact .inr ⟨rfl, congrArg (· + 1) heq⟩
    · rw [helement] at hattribute
      cases hattribute

/-- Predicates are judged at a node of the stack. -/
theorem Within.judgedAt (h : ctx.Within n) (hctx : 1 ≤ ctx.depth) :
    1 ≤ ctx.judgedAt n ∧ ctx.judgedAt n ≤ ctx.depth := by
  obtain ⟨h₁, hd⟩ := h
  unfold Context.judgedAt
  split
  · rename_i hlive
    refine ⟨h₁, hd.elim id fun ⟨_, hbeyond⟩ => ?_⟩
    -- nothing is live beyond the stack
    have hnone : ctx.ancestors[ctx.depth]? = none := List.getElem?_eq_none (Nat.le_refl _)
    rw [isLive, hbeyond, event?, hnone] at hlive
    cases hlive
  · constructor
    · exact Nat.le_max_right _ _
    · rcases hd with hd | ⟨-, hd⟩ <;> omega

end Context

/-! ## Reasons for a fault -/

/-- The functions that say something of a node, which may be given as an argument. -/
def Function.asksNode : Function → Bool
  | .name | .localName | .namespaceUri | .qualifier => Bool.true
  | _ => Bool.false

/-- Why expressions may fail over a stack with these variables: a variable that is referred to is
not bound, or the argument of a function about nodes, wherever it was evaluated, begins with an item
that is no node. -/
inductive Reason (ancestors : List Event) (lookup : String → Option Value) (es : List Expr) :
    Fault → Prop
  | unbound {n : String} : .reference n ∈ es → lookup n = none →
      Reason ancestors lookup es (.unknownVariable n)
  | notANode {f : Function} {arg : Expr} {ctx : Context} {top : Nat} {v : Value} {i : Item} :
      f.asksNode → .call f.title [arg] ∈ es → ctx.ancestors = ancestors → ctx.lookup = lookup →
      1 ≤ top → top ≤ ctx.depth → arg.evaluate ctx top = .ok v → v.first? = some i →
      (∀ n, i ≠ .node n) → Reason ancestors lookup es (.notANode f.title)

section
variable {ancestors : List Event} {lookup : String → Option Value} {es es' : List Expr}
  {ctx : Context} {top : Nat} {f : Fault}

theorem Reason.mono (h : Reason ancestors lookup es f) (hsub : es ⊆ es') :
    Reason ancestors lookup es' f := by
  cases h with
  | unbound hmem hnone => exact .unbound (hsub hmem) hnone
  | notANode hasks hmem ha hl h₁ htop hv hi hnode =>
    exact .notANode hasks (hsub hmem) ha hl h₁ htop hv hi hnode

theorem Arity.bounds_of_admits {k m n : Nat} (h : (⟨k, some m⟩ : Arity).admits n) :
    k ≤ n ∧ n ≤ m := by
  simpa [admits] using h

theorem Arity.eq_of_admits {k n : Nat} (h : (⟨k, some k⟩ : Arity).admits n) : n = k := by
  have := bounds_of_admits h
  omega

/-- A function that gets as many arguments as it takes can only complain of one that is no node. -/
theorem Function.fails_of_apply {g : Function} {values : List Value}
    (hadmits : g.arity.admits values.length) (h₁ : 1 ≤ top) (htop : top ≤ ctx.depth)
    (h : g.apply values ctx top = .error f) :
    g.asksNode ∧ f = .notANode g.title ∧
      ∃ v i, values = [v] ∧ v.first? = some i ∧ ∀ n, i ≠ .node n := by
  obtain ⟨e, hnode⟩ := ctx.exists_nodeAt h₁ htop
  have hcontext : ∃ text, textOrContext values ctx top = .ok text := by
    cases values <;> simp [textOrContext, hnode, Bind.bind, Except.bind]
  obtain ⟨text, htext⟩ := hcontext
  have habout : ∀ extract, aboutNode g values ctx top extract = .error f →
      f = .notANode g.title ∧ ∃ v rest i, values = v :: rest ∧ v.first? = some i ∧
        ∀ n, i ≠ .node n := by
    intro extract hfails
    cases values with
    | nil => simp [aboutNode, hnode, Bind.bind, Except.bind] at hfails
    | cons v rest =>
      simp only [aboutNode] at hfails
      split at hfails
      · cases hfails
      · cases hfails
      · rename_i i hnot hfirst
        exact ⟨(Except.error.inj hfails).symm, v, rest, i, rfl, hfirst, fun n hi => hnot n hi⟩
  cases g with
  | position | level | hasChildNodes | «true» | «false» | concat => simp [Function.apply] at h
  | getNode => simp [Function.apply, hnode, Bind.bind, Except.bind] at h
  | number | string | stringLength | normalizeSpace =>
    simp [Function.apply, htext, Bind.bind, Except.bind] at h
  | name | localName | namespaceUri | qualifier =>
    obtain ⟨hf, v, rest, i, hvalues, hi⟩ := habout _ h
    -- there is at most one argument
    have hrest : rest = [] := by simpa [hvalues, Function.arity, Arity.admits] using hadmits
    exact ⟨rfl, hf, v, i, by rw [hvalues, hrest], hi⟩
  | not | boolean | upperCase | lowerCase | count | empty | «exists» | sum | min | max | avg
  | floor | ceiling | round =>
    obtain ⟨v, rfl⟩ := List.length_eq_one_iff.mp (Arity.eq_of_admits hadmits)
    simp [Function.apply] at h
  | contains | startsWith | endsWith | substringBefore | substringAfter | stringJoin =>
    obtain ⟨v, w, rfl⟩ := List.length_eq_two.mp (Arity.eq_of_admits hadmits)
    simp [Function.apply] at h
  | substring =>
    have hbounds : 2 ≤ values.length ∧ values.length ≤ 3 := Arity.bounds_of_admits hadmits
    obtain hlength | hlength : values.length = 2 ∨ values.length = 3 := by omega
    · obtain ⟨v, w, rfl⟩ := List.length_eq_two.mp hlength
      simp [Function.apply] at h
    · obtain ⟨v, w, u, rfl⟩ := List.length_eq_three.mp hlength
      simp [Function.apply] at h
  | translate =>
    obtain ⟨v, w, u, rfl⟩ := List.length_eq_three.mp (Arity.eq_of_admits hadmits)
    simp [Function.apply] at h

theorem arithmetic_succeeds {op : BinaryOperator} (hor : op ≠ .or) (hand : op ≠ .and)
    (hcomparison : op.isComparison = false) (l r : Value) : ∃ v, arithmetic op l r = .ok v := by
  unfold arithmetic
  split
  · exact ⟨_, rfl⟩
  · cases op with
    | or => exact absurd rfl hor
    | and => exact absurd rfl hand
    | equal | notEqual | less | lessOrEqual | greater | greaterOrEqual => cases hcomparison
    | plus | minus | times | divide | modulo => exact ⟨_, rfl⟩

theorem length_evaluateAll {values : List Value} (h : evaluateAll ctx top es = .ok values) :
    values.length = es.length := by
  induction es generalizing values with
  | nil =>
    simp only [evaluateAll, Except.ok.injEq] at h
    subst h
    rfl
  | cons e es ih =>
    simp only [evaluateAll, bind_eq_ok_iff, Except.ok.injEq] at h
    obtain ⟨v, -, values', hrest, rfl⟩ := h
    simp [ih hrest]

theorem evaluateAll_eq_singleton {v : Value} (h : evaluateAll ctx top es = .ok [v]) :
    ∃ e, es = [e] ∧ e.evaluate ctx top = .ok v := by
  obtain ⟨e, rfl⟩ := List.length_eq_one_iff.mp (length_evaluateAll h).symm
  simp only [evaluateAll, bind_eq_ok_iff, Except.ok.injEq] at h
  obtain ⟨w, hw, rest, -, hcons⟩ := h
  rw [List.cons.injEq] at hcons
  exact ⟨e, rfl, hcons.1 ▸ hw⟩

end

mutual

/-- The reasons for which a checked expression can fail. -/
theorem Expr.reason_of_fails {ctx : Context} {top : Nat} {f : Fault} :
    ∀ e : Expr, Checked e.parts → 1 ≤ top → top ≤ ctx.depth → e.evaluate ctx top = .error f →
      Reason ctx.ancestors ctx.lookup e.parts f
  | .literal _, _, _, _, h | .number _, _, _, _, h => by simp [Expr.evaluate] at h
  | .reference n, _, _, _, h => by
    simp only [Expr.evaluate] at h
    split at h
    · cases h
    · rename_i hnone
      cases h
      exact .unbound (Expr.self_mem_parts _) hnone
  | .sequence items, hc, h₁, htop, h => by
    simp only [Expr.evaluate] at h
    exact (reason_of_evaluateAll items hc.inner h₁ htop (fails_of_bind_ok h)).mono
      (List.subset_cons_self _ _)
  | .path absolute steps, hc, h₁, htop, h => by
    have hctx := Nat.le_trans h₁ htop
    obtain ⟨hlow, hhigh⟩ : 1 ≤ (if absolute then 1 else top) ∧
        (if absolute then 1 else top) ≤ ctx.depth := by
      split
      · exact ⟨Nat.le_refl 1, hctx⟩
      · exact ⟨h₁, htop⟩
    obtain ⟨e, he⟩ := ctx.exists_nodeAt hlow hhigh
    simp only [Expr.evaluate, he] at h
    have hstart : ∀ n ∈ [⟨e, if absolute then 1 else top⟩], ctx.Within n := by
      intro n hn
      rw [List.mem_singleton.mp hn]
      exact ⟨hlow, .inl hhigh⟩
    exact (reason_of_walk _ steps hc.inner hctx hstart (fails_of_bind_ok h)).mono
      (List.subset_cons_self _ _)
  | .call n args, hc, h₁, htop, h => by
    simp only [Expr.evaluate, bind_eq_error_iff] at h
    rcases h with hargs | ⟨values, hvalues, hcalled⟩
    · exact (reason_of_evaluateAll args hc.inner h₁ htop hargs).mono
        (List.subset_cons_self _ _)
    · obtain ⟨g, hresolved⟩ := hc n args (Expr.self_mem_parts _)
      obtain ⟨rfl, hadmits⟩ := Function.title_of_resolve hresolved
      rw [← length_evaluateAll hvalues] at hresolved hadmits
      simp only [callFunction, hresolved, bind_eq_error_iff, reduceCtorEq, false_or,
        Except.ok.injEq, exists_eq_left'] at hcalled
      obtain ⟨hasks, rfl, v, i, rfl, hi, hnode⟩ := Function.fails_of_apply hadmits h₁ htop hcalled
      obtain ⟨arg, rfl, harg⟩ := evaluateAll_eq_singleton hvalues
      exact .notANode hasks (Expr.self_mem_parts _) rfl rfl h₁ htop harg hi hnode
  | .binary op l r, hc, h₁, htop, h => by
    obtain ⟨hleft, hright⟩ := checked_append.mp hc.inner
    have ofLeft {g} (hg : l.evaluate ctx top = .error g) :
        Reason ctx.ancestors ctx.lookup (Expr.binary op l r).parts g :=
      (l.reason_of_fails hleft h₁ htop hg).mono
        (List.subset_cons_of_subset _ (List.subset_append_left _ _))
    have ofRight {g} (hg : r.evaluate ctx top = .error g) :
        Reason ctx.ancestors ctx.lookup (Expr.binary op l r).parts g :=
      (r.reason_of_fails hright h₁ htop hg).mono
        (List.subset_cons_of_subset _ (List.subset_append_right _ _))
    simp only [Expr.evaluate, bind_eq_error_iff] at h
    rcases h with h | ⟨v, -, h⟩
    · exact ofLeft h
    split at h
    · split at h
      · cases h
      · exact ofRight (fails_of_bind_ok h)
    · split at h
      · exact ofRight (fails_of_bind_ok h)
      · cases h
    · rename_i hor hand
      split at h
      · exact ofRight (fails_of_bind_ok h)
      · rename_i hcomparison
        split at h
        · cases h
        · rcases bind_eq_error_iff.mp h with h | ⟨w, -, h⟩
          · exact ofRight h
          · obtain ⟨u, hu⟩ := arithmetic_succeeds hor hand (by simpa using hcomparison) v w
            rw [hu] at h
            cases h
  | .negate e, hc, h₁, htop, h => by
    simp only [Expr.evaluate] at h
    exact (e.reason_of_fails hc.inner h₁ htop (fails_of_bind_ok h)).mono
      (List.subset_cons_self _ _)
  | .conditional t y n, hc, h₁, htop, h => by
    obtain ⟨htest, hbranches⟩ := checked_append.mp hc.inner
    obtain ⟨hyes, hno⟩ := checked_append.mp hbranches
    simp only [Expr.evaluate, bind_eq_error_iff] at h
    rcases h with h | ⟨v, -, h⟩
    · exact (t.reason_of_fails htest h₁ htop h).mono
        (List.subset_cons_of_subset _ (List.subset_append_left _ _))
    · split at h
      · exact (y.reason_of_fails hyes h₁ htop h).mono (List.subset_cons_of_subset _
          (List.subset_append_of_subset_right _ (List.subset_append_left _ _)))
      · exact (n.reason_of_fails hno h₁ htop h).mono (List.subset_cons_of_subset _
          (List.subset_append_of_subset_right _ (List.subset_append_right _ _)))

theorem reason_of_evaluateAll {ctx : Context} {top : Nat} {f : Fault} :
    ∀ es : List Expr, Checked (partsOfAll es) → 1 ≤ top → top ≤ ctx.depth →
      evaluateAll ctx top es = .error f → Reason ctx.ancestors ctx.lookup (partsOfAll es) f
  | [], _, _, _, h => by simp [evaluateAll] at h
  | e :: es, hc, h₁, htop, h => by
    obtain ⟨hfirst, hothers⟩ := checked_append.mp hc
    simp only [evaluateAll, bind_eq_error_iff, reduceCtorEq, and_false, exists_false,
      or_false] at h
    rcases h with h | ⟨-, -, h⟩
    · exact (e.reason_of_fails hfirst h₁ htop h).mono (List.subset_append_left _ _)
    · exact (reason_of_evaluateAll es hothers h₁ htop h).mono (List.subset_append_right _ _)

theorem reason_of_walk {ctx : Context} {f : Fault} :
    ∀ (nodes : List NodeRef) (steps : List Step), Checked (partsOfSteps steps) →
      1 ≤ ctx.depth → (∀ n ∈ nodes, ctx.Within n) → walk ctx nodes steps = .error f →
      Reason ctx.ancestors ctx.lookup (partsOfSteps steps) f
  | _, [], _, _, _, h => by simp [walk] at h
  | nodes, .mk axis test ps :: r, hc, hctx, hnodes, h => by
    obtain ⟨hps, hr⟩ := checked_append.mp hc
    have hcandidates : ∀ n ∈ nodes.flatMap fun n => (axis.reach n ctx).filter
        (test.acceptsOn axis), ctx.Within n := by
      intro m hm
      obtain ⟨n, hn, hm⟩ := List.mem_flatMap.mp hm
      exact (hnodes n hn).reach axis (List.mem_of_mem_filter hm)
    simp only [walk, Step.select, bind_eq_error_iff] at h
    rcases h with h | ⟨next, hnext, h⟩
    · obtain ⟨n, hn, hfails⟩ := fails_of_keep h
      obtain ⟨hlow, hhigh⟩ := (hcandidates n hn).judgedAt hctx
      -- a predicate sees the same stack and the same variables
      have hreason := reason_of_holdAll ps hps hlow (by exact hhigh) hfails
      exact Reason.mono hreason (List.subset_append_left _ _)
    · have hwithin : ∀ n ∈ next, ctx.Within n := fun n hn =>
        hcandidates n ((mem_of_keep hnext).mp hn).1
      exact (reason_of_walk next r hr hctx hwithin h).mono (List.subset_append_right _ _)

theorem reason_of_holdAll {ctx : Context} {top position : Nat} {f : Fault} :
    ∀ ps : List Expr, Checked (partsOfAll ps) → 1 ≤ top → top ≤ ctx.depth →
      holdAll ctx top position ps = .error f →
      Reason ctx.ancestors ctx.lookup (partsOfAll ps) f
  | [], _, _, _, h => by simp [holdAll] at h
  | p :: ps, hc, h₁, htop, h => by
    obtain ⟨hfirst, hothers⟩ := checked_append.mp hc
    simp only [holdAll, bind_eq_error_iff] at h
    rcases h with h | ⟨v, -, h⟩
    · exact (p.reason_of_fails hfirst h₁ htop h).mono (List.subset_append_left _ _)
    · split at h
      · exact (reason_of_holdAll ps hothers h₁ htop h).mono (List.subset_append_right _ _)
      · cases h

end

/-! ## Parsed expressions -/

/-- The faults that a text has before it is evaluated, and those of calls, operators and nodes that
binding and the stack rule out. -/
def Fault.isRuledOut : Fault → Bool
  | .unknownVariable _ | .notANode _ => false
  | .leftover .. | .noStart .. | .unterminatedPart _ | .unmatchedBrace _ | .attributeNotLast _
  | .unknownFunction _ | .argumentCount .. | .notArithmetic _ | .unknownQualifier _
  | .noContextNode => true

theorem Reason.not_ruledOut {ancestors : List Event} {lookup : String → Option Value}
    {es : List Expr} {f : Fault} (h : Reason ancestors lookup es f) : f.isRuledOut = false := by
  cases h <;> rfl

/-- At every node of every stack an expression that was parsed has a value, or it fails for one of
two reasons. No function is called that does not exist or misses an argument, whose place
`Function.apply` takes with a fault that is ruled out. -/
theorem evaluation_fails_for_two_reasons {ns : Namespaces} {text : String} {e : Expr}
    (h : parseExpr ns text = .ok e) {ctx : Context} {top : Nat} (h₁ : 1 ≤ top)
    (htop : top ≤ ctx.depth) :
    (∃ v, e.evaluate ctx top = .ok v) ∨
      ∃ f, e.evaluate ctx top = .error f ∧ Reason ctx.ancestors ctx.lookup e.parts f ∧
        f.isRuledOut = false := by
  obtain ⟨read, -, hbound⟩ := bind_eq_ok_iff.mp h
  have hchecked := checked_of_bind read hbound
  cases he : e.evaluate ctx top with
  | ok v => exact .inl ⟨v, rfl⟩
  | error f =>
    have hreason := e.reason_of_fails hchecked h₁ htop he
    exact .inr ⟨f, rfl, hreason, hreason.not_ruledOut⟩

/-- The name of a variable's node, asked in a predicate. -/
def askedInPredicate : Phrase [] :=
  .path false
    (.cons .self (.name ⟨"a", by decide⟩)
      (.cons (.call .name (.cons (.reference (.plain ⟨"x", by decide⟩)) .nil) rfl) .nil)
      .nil)
    (.inr (by decide))

/-- At an element the predicate is judged, and the variable is not bound. -/
theorem evaluation_fails_for_two_reasons_unbound :
    let ctx : Context :=
      ⟨[.met 0 .root, .met 1 (.element (.simple "a") [])], fun _ => none, 1, false⟩
    ∃ e, parseExpr [] "self::a[name($x)]" = .ok e ∧ 1 ≤ 2 ∧ 2 ≤ ctx.depth ∧
      ((∃ v, e.evaluate ctx 2 = .ok v) ∨
        ∃ f, e.evaluate ctx 2 = .error f ∧ Reason ctx.ancestors ctx.lookup e.parts f ∧
          f.isRuledOut = false) := by
  have parsed : parseExpr [] "self::a[name($x)]" = .ok askedInPredicate.reading := by
    change parseExpr [] (String.ofList askedInPredicate.print) = _
    rw [parseExpr, readExpr_print]
    exact bind_phrase askedInPredicate true
  exact ⟨_, parsed, by decide, by decide,
    evaluation_fails_for_two_reasons parsed (by decide) (by decide)⟩

end StreamTransform.Path
