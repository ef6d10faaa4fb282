import StreamTransform.Path.Evaluation

/-!
# What occurs in an expression

The expressions in an expression, at any depth of nesting and in the predicates
of its steps too. The value of an expression depends on a variable only if it is
referred to somewhere in the expression, and on whether the current node has
children only if that is asked somewhere.
-/

namespace StreamTransform.Path

/-! ## Parts -/

mutual

/-- The expressions inside an expression. -/
def Expr.inner : Expr → List Expr
  | .literal _ | .number _ | .reference _ => []
  | .sequence items => partsOfAll items
  | .path _ steps => partsOfSteps steps
  | .call _ args => partsOfAll args
  | .binary _ l r => (l :: l.inner) ++ (r :: r.inner)
  | .negate e => e :: e.inner
  | .conditional t y n => (t :: t.inner) ++ ((y :: y.inner) ++ (n :: n.inner))

/-- The expressions of a list and those inside them. -/
def partsOfAll : List Expr → List Expr
  | [] => []
  | e :: es => (e :: e.inner) ++ partsOfAll es

/-- The expressions in the predicates of steps. -/
def partsOfSteps : List Step → List Expr
  | [] => []
  | .mk _ _ ps :: r => partsOfAll ps ++ partsOfSteps r

end

/-- The expression and all that is inside it. -/
def Expr.parts (e : Expr) : List Expr := e :: e.inner

theorem Expr.self_mem_parts (e : Expr) : e ∈ e.parts := List.mem_cons_self

/-! ## Agreement of contexts -/

/-- The contexts show the same of all that the expressions ask for. -/
structure Agree (ctx ctx' : Context) (es : List Expr) : Prop where
  ancestors : ctx.ancestors = ctx'.ancestors
  position : ctx.position = ctx'.position
  lookup : ∀ n, .reference n ∈ es → ctx.lookup n = ctx'.lookup n
  children : ∀ args, .call Function.hasChildNodes.title args ∈ es →
    ctx.hasChildNodes = ctx'.hasChildNodes

section
variable {ctx ctx' : Context} {es es' : List Expr}

theorem Agree.mono (h : Agree ctx ctx' es) (hsub : es' ⊆ es) : Agree ctx ctx' es' where
  ancestors := h.ancestors
  position := h.position
  lookup n hn := h.lookup n (hsub hn)
  children args ha := h.children args (hsub ha)

theorem Agree.event?_eq (h : Agree ctx ctx' es) : ctx.event? = ctx'.event? := by
  funext d
  cases d <;> simp [Context.event?, h.ancestors]

theorem Agree.depth_eq (h : Agree ctx ctx' es) : ctx.depth = ctx'.depth :=
  congrArg List.length h.ancestors

theorem Agree.nodeAt_eq (h : Agree ctx ctx' es) : ctx.nodeAt = ctx'.nodeAt := by
  funext d
  simp [Context.nodeAt, h.event?_eq]

theorem Agree.isLive_eq (h : Agree ctx ctx' es) : ctx.isLive = ctx'.isLive := by
  funext n
  simp [Context.isLive, h.event?_eq]

theorem Agree.reach_eq (h : Agree ctx ctx' es) (axis : Axis) (n : NodeRef) :
    axis.reach n ctx = axis.reach n ctx' := by
  have href : ctx.ref? = ctx'.ref? := by
    funext d
    simp [Context.ref?, h.event?_eq]
  simp [Axis.reach, h.isLive_eq, h.depth_eq, href]

theorem Agree.seenFrom (h : Agree ctx ctx' es) (d position : Nat) :
    Agree (ctx.seenFrom d position) (ctx'.seenFrom d position) es where
  ancestors := h.ancestors
  position := rfl
  lookup := h.lookup
  children args ha := by simp [Context.seenFrom, h.depth_eq, h.children args ha]

/-! ## Functions -/

theorem Function.title_of_resolve {called : String} {count : Nat} {f : Function}
    (h : Function.resolve called count = .ok f) : f.title = called ∧ f.arity.admits count := by
  unfold Function.resolve at h
  split at h
  · cases h
  · rename_i g hg
    split at h
    · rename_i hadmits
      cases h
      have hfound := List.find?_some hg
      exact ⟨by simpa using hfound, hadmits⟩
    · cases h

theorem textOrContext_congr (h : ctx.nodeAt = ctx'.nodeAt) (args : List Value) (top : Nat) :
    textOrContext args ctx top = textOrContext args ctx' top := by
  cases args <;> simp [textOrContext, h]

theorem aboutNode_congr (h : ctx.nodeAt = ctx'.nodeAt) (f : Function) (args : List Value)
    (top : Nat) (extract : Content → String) :
    aboutNode f args ctx top extract = aboutNode f args ctx' top extract := by
  cases args <;> simp [aboutNode, h]

/-- Only one function asks whether the current node has children. -/
theorem Function.apply_congr (h : Agree ctx ctx' es) (f : Function)
    (hchildren : f = .hasChildNodes → ctx.hasChildNodes = ctx'.hasChildNodes)
    (args : List Value) (top : Nat) : f.apply args ctx top = f.apply args ctx' top := by
  have hnode := h.nodeAt_eq
  unfold Function.apply
  split
  case h_3 => rw [h.depth_eq, hchildren rfl]
  all_goals simp only [h.position, hnode, aboutNode_congr hnode, textOrContext_congr hnode]

theorem callFunction_congr {called : String} {args : List Expr}
    (h : Agree ctx ctx' (.call called args :: es)) (values : List Value) (top : Nat) :
    callFunction called values ctx top = callFunction called values ctx' top := by
  unfold callFunction
  cases hresolved : Function.resolve called values.length with
  | error f => rfl
  | ok f =>
    obtain ⟨htitle, -⟩ := Function.title_of_resolve hresolved
    refine Function.apply_congr h f (fun hf => ?_) values top
    refine h.children args ?_
    rw [← htitle, hf]
    exact List.mem_cons_self

end

/-! ## Evaluation -/

theorem keep_congr {condition condition' : NodeRef → Except Fault Bool}
    (h : ∀ n, condition n = condition' n) (ns : List NodeRef) :
    keep condition ns = keep condition' ns := by
  rw [funext h]

mutual

/-- Contexts that show the same of what an expression asks for give it the same value. -/
theorem Expr.evaluate_congr {ctx ctx' : Context} (top : Nat) :
    ∀ e : Expr, Agree ctx ctx' e.parts → e.evaluate ctx top = e.evaluate ctx' top
  | .literal _, _ | .number _, _ => by simp [Expr.evaluate]
  | .reference n, h => by
    simp [Expr.evaluate, h.lookup n (Expr.self_mem_parts _)]
  | .sequence items, h => by
    have hitems := evaluateAll_congr top items (h.mono (List.subset_cons_self _ _))
    simp [Expr.evaluate, hitems]
  | .path absolute steps, h => by
    have hsteps nodes := walk_congr nodes steps (h.mono (List.subset_cons_self _ _))
    simp [Expr.evaluate, h.nodeAt_eq, hsteps]
  | .call n args, h => by
    have hargs := evaluateAll_congr top args (h.mono (List.subset_cons_self _ _))
    have hcalled values := callFunction_congr h values top
    simp [Expr.evaluate, hargs, hcalled]
  | .binary op l r, h => by
    have hinner := h.mono (List.subset_cons_self _ _)
    have hleft := l.evaluate_congr top (hinner.mono (List.subset_append_left _ _))
    have hright := r.evaluate_congr top (hinner.mono (List.subset_append_right _ _))
    simp only [Expr.evaluate, hleft, hright]
  | .negate e, h => by
    have hoperand := e.evaluate_congr top (h.mono (List.subset_cons_self _ _))
    simp [Expr.evaluate, hoperand]
  | .conditional t y n, h => by
    have hinner := h.mono (List.subset_cons_self _ _)
    have hbranches := hinner.mono (List.subset_append_right _ _)
    have htest := t.evaluate_congr top (hinner.mono (List.subset_append_left _ _))
    have hyes := y.evaluate_congr top (hbranches.mono (List.subset_append_left _ _))
    have hno := n.evaluate_congr top (hbranches.mono (List.subset_append_right _ _))
    simp only [Expr.evaluate, htest, hyes, hno]

theorem evaluateAll_congr {ctx ctx' : Context} (top : Nat) :
    ∀ es : List Expr, Agree ctx ctx' (partsOfAll es) →
      evaluateAll ctx top es = evaluateAll ctx' top es
  | [], _ => by simp [evaluateAll]
  | e :: es, h => by
    have hfirst := e.evaluate_congr top (h.mono (List.subset_append_left _ _))
    have hrest := evaluateAll_congr top es (h.mono (List.subset_append_right _ _))
    simp [evaluateAll, hfirst, hrest]

theorem walk_congr {ctx ctx' : Context} :
    ∀ (nodes : List NodeRef) (steps : List Step), Agree ctx ctx' (partsOfSteps steps) →
      walk ctx nodes steps = walk ctx' nodes steps
  | _, [], _ => by simp [walk]
  | nodes, .mk axis test ps :: r, h => by
    have hps := h.mono (List.subset_append_left _ _)
    have hholds d position := holdAll_congr d position ps (hps.seenFrom d position)
    have hfirst : (Step.mk axis test ps).select ctx nodes =
        (Step.mk axis test ps).select ctx' nodes := by
      simp only [Step.select, hps.reach_eq, Context.judgedAt, hps.isLive_eq]
      exact keep_congr (fun n => hholds _ _) _
    have hrest next := walk_congr next r (h.mono (List.subset_append_right _ _))
    simp [walk, hfirst, hrest]

theorem holdAll_congr {ctx ctx' : Context} (top position : Nat) :
    ∀ ps : List Expr, Agree ctx ctx' (partsOfAll ps) →
      holdAll ctx top position ps = holdAll ctx' top position ps
  | [], _ => by simp [holdAll]
  | p :: ps, h => by
    have hfirst := p.evaluate_congr top (h.mono (List.subset_append_left _ _))
    have hrest := holdAll_congr top position ps (h.mono (List.subset_append_right _ _))
    simp [holdAll, hfirst, hrest]

end

end StreamTransform.Path
