import StreamTransform.Path.Matching

/-!
# Patterns as paths

A pattern is decided from a node upwards, with a choice wherever a double slash stands; a path is
followed from the root downwards, all nodes of a step at once. Both accept a node exactly if a
chain of depths leads to it from the root, one depth for each step, and every step holds at its
depth. The chain is what the two have in common, and a predicate that fails is the only way for
either to fail.
-/

namespace StreamTransform.Path

variable {ctx : Context} {f : Fault}

/-! ## The path of a pattern -/

/-- The step of a path to the same nodes; after a double slash these are the descendants. -/
def PatternStep.asStep (s : PatternStep) : Step :=
  .mk (if s.afterGap then .descendant else .child) s.test s.predicates

/-- The steps of a pattern read from the root. A relative pattern may begin anywhere below it. -/
def fromRoot (absolute : Bool) : List PatternStep → List PatternStep
  | [] => []
  | s :: r => { s with afterGap := !absolute || s.afterGap } :: r

/-- The pattern as a path that starts at the root. -/
def PathPattern.asPath (p : PathPattern) : Expr :=
  .path true ((fromRoot p.absolute p.steps).map PatternStep.asStep)

theorem fromRoot_append {absolute : Bool} {steps : List PatternStep} (h : steps ≠ [])
    (s : PatternStep) : fromRoot absolute (steps ++ [s]) = fromRoot absolute steps ++ [s] := by
  cases steps with
  | nil => exact absurd rfl h
  | cons t r => rfl

/-! ## Predicates -/

theorem holdAll_fails {top position : Nat} {ps : List Expr}
    (h : holdAll ctx top position ps = .error f) : ∃ q ∈ ps, q.evaluate ctx top = .error f := by
  induction ps with
  | nil => simp [holdAll] at h
  | cons q ps ih =>
    cases hq : q.evaluate ctx top with
    | error g =>
      simp only [holdAll, hq, Bind.bind, Except.bind, Except.error.injEq] at h
      exact ⟨q, List.mem_cons_self, by rw [hq, h]⟩
    | ok v =>
      simp only [holdAll, hq, Bind.bind, Except.bind] at h
      split at h
      · obtain ⟨q', hm, he⟩ := ih h
        exact ⟨q', List.mem_cons_of_mem _ hm, he⟩
      · cases h

/-- A predicate of the step fails with this fault at an open node that the step's test accepts. -/
def PatternStep.PredicateFails (s : PatternStep) (ctx : Context) (f : Fault) : Prop :=
  ∃ depth e, ctx.event? depth = some e ∧ s.test.accepts e.content .child ∧
    ∃ q ∈ s.predicates,
      q.evaluate (ctx.seenFrom depth (e.positionOf s.test.group)) depth = .error f

/-- A predicate of the pattern fails with this fault at an open node. -/
def PathPattern.PredicateFails (p : PathPattern) (ctx : Context) (f : Fault) : Prop :=
  ∃ s ∈ p.steps, s.PredicateFails ctx f

namespace PatternStep

theorem predicateFails_of_holdsAt {s : PatternStep} {depth : Nat} (hs : s.isAttribute = false)
    (h : s.holdsAt ctx depth = .error f) : s.PredicateFails ctx f := by
  unfold holdsAt at h
  split at h
  · cases h
  · rename_i e he
    simp only [hs, Bool.false_eq_true, if_false] at h
    split at h
    · rename_i ha
      exact ⟨depth, e, he, ha, holdAll_fails h⟩
    · cases h

theorem event_of_holdsAt {s : PatternStep} {depth : Nat} (h : s.holdsAt ctx depth = .ok true) :
    ∃ e, ctx.event? depth = some e := by
  unfold holdsAt at h
  split at h
  · cases h
  · exact ⟨_, ‹_›⟩

/-- The distance that the separator before a step allows. -/
def Below (s : PatternStep) (upper lower : Nat) : Prop :=
  if s.afterGap then upper < lower else upper + 1 = lower

theorem Below.lt {s : PatternStep} {upper lower : Nat} (h : s.Below upper lower) :
    upper < lower := by
  unfold Below at h
  split at h <;> omega

end PatternStep

/-! ## Chains -/

/-- The steps, one depth each, lead from a depth to another one on the stack. -/
inductive Leads (ctx : Context) : List PatternStep → Nat → Nat → Prop where
  | here (depth : Nat) : Leads ctx [] depth depth
  | step {s : PatternStep} {r : List PatternStep} {upper depth lower : Nat} :
    s.Below upper depth → s.holdsAt ctx depth = .ok true → Leads ctx r depth lower →
    Leads ctx (s :: r) upper lower

namespace Leads

variable {steps : List PatternStep} {upper lower : Nat}

@[simp] theorem nil_iff : Leads ctx [] upper lower ↔ upper = lower := by
  constructor
  · rintro ⟨⟩; rfl
  · rintro rfl; exact .here upper

theorem cons_iff {s : PatternStep} : Leads ctx (s :: steps) upper lower ↔
    ∃ depth, s.Below upper depth ∧ s.holdsAt ctx depth = .ok true ∧
      Leads ctx steps depth lower := by
  constructor
  · rintro (_ | ⟨hb, hh, hr⟩)
    exact ⟨_, hb, hh, hr⟩
  · rintro ⟨depth, hb, hh, hr⟩
    exact .step hb hh hr

theorem append_iff {s : PatternStep} : Leads ctx (steps ++ [s]) upper lower ↔
    ∃ depth, Leads ctx steps upper depth ∧ s.Below depth lower ∧
      s.holdsAt ctx lower = .ok true := by
  induction steps generalizing upper with
  | nil => simp [cons_iff]
  | cons t r ih =>
    simp only [List.cons_append, cons_iff, ih]
    constructor
    · rintro ⟨d, hb, hh, k, hr, hs⟩
      exact ⟨k, ⟨d, hb, hh, hr⟩, hs⟩
    · rintro ⟨k, ⟨d, hb, hh, hr⟩, hs⟩
      exact ⟨d, hb, hh, k, hr, hs⟩

theorem le (h : Leads ctx steps upper lower) : upper ≤ lower := by
  induction h with
  | here => exact Nat.le_refl _
  | step hb _ _ ih => exact Nat.le_trans (Nat.le_of_lt hb.lt) ih

theorem event (h : Leads ctx steps upper lower) (hu : ∃ e, ctx.event? upper = some e) :
    ∃ e, ctx.event? lower = some e := by
  induction h with
  | here => exact hu
  | step _ hh _ ih => exact ih (PatternStep.event_of_holdsAt hh)

end Leads

/-! ## Upwards -/

section
variable {condition : Nat → Except Fault Bool} {depth : Nat}

theorem exists_of_anyAbove (h : anyAbove condition depth = .ok true) :
    ∃ k, 1 ≤ k ∧ k ≤ depth ∧ condition k = .ok true := by
  induction depth with
  | zero => simp [anyAbove] at h
  | succ d ih =>
    rw [anyAbove] at h
    cases hc : condition (d + 1) with
    | error g => rw [hc] at h; cases h
    | ok b =>
      cases b with
      | true => exact ⟨d + 1, by omega, Nat.le_refl _, hc⟩
      | false =>
        obtain ⟨k, h₁, hk, ht⟩ := ih (by simpa [hc, Bind.bind, Except.bind] using h)
        exact ⟨k, h₁, by omega, ht⟩

theorem forall_of_anyAbove (h : anyAbove condition depth = .ok false) {k : Nat} (h₁ : 1 ≤ k)
    (hk : k ≤ depth) : condition k = .ok false := by
  induction depth with
  | zero => omega
  | succ d ih =>
    rw [anyAbove] at h
    cases hc : condition (d + 1) with
    | error g => rw [hc] at h; cases h
    | ok b =>
      cases b with
      | true => rw [hc] at h; cases h
      | false =>
        have ih := ih (by simpa [hc, Bind.bind, Except.bind] using h)
        rcases Nat.lt_or_ge d k with hd | hd
        · rw [show k = d + 1 by omega, hc]
        · exact ih hd

theorem fails_of_anyAbove (h : anyAbove condition depth = .error f) :
    ∃ k, condition k = .error f := by
  induction depth with
  | zero => simp [anyAbove] at h
  | succ d ih =>
    rw [anyAbove] at h
    cases hc : condition (d + 1) with
    | error g =>
      rw [hc] at h
      exact ⟨d + 1, hc.trans h⟩
    | ok b =>
      cases b with
      | true => rw [hc] at h; cases h
      | false => exact ih (by simpa [hc, Bind.bind, Except.bind] using h)

end

section
variable {absolute : Bool} {r : List PatternStep} {s t : PatternStep} {depth : Nat}

theorem leads_one : Leads ctx (fromRoot absolute [s]) 1 depth ↔
    (if absolute && !s.afterGap then depth = 2 else 2 ≤ depth) ∧
      s.holdsAt ctx depth = .ok true := by
  have hf : ({ s with afterGap := !absolute || s.afterGap } : PatternStep).holdsAt ctx depth =
    s.holdsAt ctx depth := rfl
  rw [fromRoot, ← List.nil_append [_], Leads.append_iff]
  simp only [Leads.nil_iff, PatternStep.Below, hf, exists_eq_left']
  cases absolute <;> cases s.afterGap <;> simp <;> omega

theorem leads_many : Leads ctx (fromRoot absolute (s :: t :: r).reverse) 1 depth ↔
    ∃ k, Leads ctx (fromRoot absolute (t :: r).reverse) 1 k ∧ s.Below k depth ∧
      s.holdsAt ctx depth = .ok true := by
  rw [List.reverse_cons, fromRoot_append (by simp), Leads.append_iff]

theorem two_le_of_leads (h : Leads ctx (fromRoot absolute (s :: r).reverse) 1 depth) :
    2 ≤ depth := by
  cases r with
  | nil =>
    obtain ⟨h, -⟩ := leads_one.1 h
    split at h <;> omega
  | cons t r =>
    obtain ⟨k, hk, hb, -⟩ := leads_many.1 h
    have := hk.le
    have := hb.lt
    omega

/-- Matching decides whether a chain leads down to the node from the root. -/
theorem leads_of_matchUpwards {b : Bool}
    (h : matchUpwards absolute ctx (s :: r) depth = .ok b) :
    b = true ↔ Leads ctx (fromRoot absolute (s :: r).reverse) 1 depth := by
  induction r generalizing s depth b with
  | nil =>
    rw [List.reverse_singleton, leads_one]
    cases hh : s.holdsAt ctx depth with
    | error g => simp [matchUpwards, hh, Bind.bind, Except.bind] at h
    | ok held =>
      simp only [matchUpwards, hh, Bind.bind, Except.bind] at h
      cases held with
      | false => cases h; simp
      | true =>
        simp only [if_true, Except.ok.injEq] at h
        rw [← h]
        split <;> simp
  | cons t r ih =>
    rw [leads_many]
    cases hh : s.holdsAt ctx depth with
    | error g => simp [matchUpwards, hh, Bind.bind, Except.bind] at h
    | ok held =>
      simp only [matchUpwards, hh, Bind.bind, Except.bind] at h
      cases held with
      | false => cases h; simp
      | true =>
        simp only [if_true, PatternStep.Below, and_true] at h ⊢
        cases hg : s.afterGap with
        | false =>
          simp only [hg, Bool.false_eq_true, if_false] at h ⊢
          rw [ih h]
          constructor
          · intro hl
            exact ⟨depth - 1, hl, by have := two_le_of_leads hl; omega⟩
          · rintro ⟨k, hl, rfl⟩
            exact hl
        | true =>
          simp only [hg, if_true] at h ⊢
          constructor
          · rintro rfl
            obtain ⟨k, h₁, hk, ht⟩ := exists_of_anyAbove h
            exact ⟨k, (ih ht).1 rfl, by omega⟩
          · rintro ⟨k, hl, hk⟩
            cases b with
            | true => rfl
            | false =>
              have hn := forall_of_anyAbove h (k := k) (by have := hl.le; omega) (by omega)
              exact absurd ((ih hn).2 hl) Bool.false_ne_true

theorem holdsAt_of_matchUpwards_fails
    (h : matchUpwards absolute ctx (s :: r) depth = .error f) :
    ∃ t ∈ s :: r, ∃ k, t.holdsAt ctx k = .error f := by
  induction r generalizing s depth with
  | nil =>
    cases hh : s.holdsAt ctx depth with
    | error g =>
      simp only [matchUpwards, hh, Bind.bind, Except.bind, Except.error.injEq] at h
      exact ⟨s, List.mem_cons_self, depth, by rw [hh, h]⟩
    | ok held => cases held <;> simp [matchUpwards, hh, Bind.bind, Except.bind] at h
  | cons t r ih =>
    cases hh : s.holdsAt ctx depth with
    | error g =>
      simp only [matchUpwards, hh, Bind.bind, Except.bind, Except.error.injEq] at h
      exact ⟨s, List.mem_cons_self, depth, by rw [hh, h]⟩
    | ok held =>
      simp only [matchUpwards, hh, Bind.bind, Except.bind] at h
      have above : ∃ k, matchUpwards absolute ctx (t :: r) k = .error f := by
        split at h
        · split at h
          · exact fails_of_anyAbove h
          · exact ⟨_, h⟩
        · cases h
      obtain ⟨k, hk⟩ := above
      obtain ⟨u, hu, d, hd⟩ := ih hk
      exact ⟨u, List.mem_cons_of_mem _ hu, d, hd⟩

end

/-! ## Downwards -/

section
variable {condition : NodeRef → Except Fault Bool} {nodes kept : List NodeRef}

theorem mem_of_keep (h : keep condition nodes = .ok kept) {n : NodeRef} :
    n ∈ kept ↔ n ∈ nodes ∧ condition n = .ok true := by
  induction nodes generalizing kept with
  | nil =>
    simp only [keep, Except.ok.injEq] at h
    simp [← h]
  | cons m r ih =>
    simp only [keep] at h
    cases hc : condition m with
    | error g => simp [hc, Bind.bind, Except.bind] at h
    | ok b =>
      cases hr : keep condition r with
      | error g => simp [hc, hr, Bind.bind, Except.bind] at h
      | ok rest =>
        simp only [hc, hr, Bind.bind, Except.bind, Except.ok.injEq] at h
        have ih := ih hr
        subst h
        cases b with
        | true =>
          simp only [if_true, List.mem_cons, ih]
          constructor
          · rintro (rfl | ⟨hm, ht⟩)
            · exact ⟨.inl rfl, hc⟩
            · exact ⟨.inr hm, ht⟩
          · rintro ⟨rfl | hm, ht⟩
            · exact .inl rfl
            · exact .inr ⟨hm, ht⟩
        | false =>
          simp only [Bool.false_eq_true, if_false, List.mem_cons, ih]
          constructor
          · rintro ⟨hm, ht⟩
            exact ⟨.inr hm, ht⟩
          · rintro ⟨rfl | hm, ht⟩
            · rw [hc] at ht; cases ht
            · exact ⟨hm, ht⟩

theorem fails_of_keep (h : keep condition nodes = .error f) :
    ∃ n ∈ nodes, condition n = .error f := by
  induction nodes with
  | nil => simp [keep] at h
  | cons m r ih =>
    simp only [keep] at h
    cases hc : condition m with
    | error g =>
      simp only [hc, Bind.bind, Except.bind, Except.error.injEq] at h
      exact ⟨m, List.mem_cons_self, by rw [hc, h]⟩
    | ok b =>
      cases hr : keep condition r with
      | error g =>
        simp only [hc, hr, Bind.bind, Except.bind, Except.error.injEq] at h
        obtain ⟨n, hn, hf⟩ := ih (by rw [hr, h])
        exact ⟨n, List.mem_cons_of_mem _ hn, hf⟩
      | ok rest => simp [hc, hr, Bind.bind, Except.bind] at h

end

/-- The reference is to an open node. -/
def Context.Stands (ctx : Context) (n : NodeRef) : Prop := ctx.event? n.depth = some n.event

namespace Context.Stands

variable {n : NodeRef}

theorem ref?_iff {d : Nat} : ctx.ref? d = some n ↔ ctx.Stands n ∧ n.depth = d := by
  simp only [ref?, Stands, Option.map_eq_some_iff]
  constructor
  · rintro ⟨e, he, rfl⟩
    exact ⟨he, rfl⟩
  · rintro ⟨he, rfl⟩
    exact ⟨n.event, he, rfl⟩

theorem isLive (h : ctx.Stands n) : ctx.isLive n = true := by
  unfold Stands at h
  simp [Context.isLive, h]

theorem judgedAt (h : ctx.Stands n) : ctx.judgedAt n = n.depth := by
  simp [Context.judgedAt, h.isLive]

theorem le_depth (h : ctx.Stands n) : 1 ≤ n.depth ∧ n.depth ≤ ctx.depth := by
  unfold Stands at h
  cases hd : n.depth with
  | zero => simp [hd, event?] at h
  | succ d =>
    rw [hd, event?] at h
    have := (List.getElem?_eq_some_iff.1 h).1
    simp only [depth]
    omega

/-- What stands below an open node, and at which distance, is what the axis of the step reaches. -/
theorem mem_reach (h : ctx.Stands n) {s : PatternStep} {m : NodeRef} :
    m ∈ (if s.afterGap then Axis.descendant else Axis.child).reach n ctx ↔
      ctx.Stands m ∧ s.Below n.depth m.depth := by
  unfold PatternStep.Below
  cases s.afterGap with
  | false =>
    simp only [Bool.false_eq_true, if_false, Axis.reach, h.isLive, if_true, Option.mem_toList]
    rw [ref?_iff, @eq_comm _ m.depth]
  | true =>
    simp only [if_true, Axis.reach, h.isLive, List.mem_filterMap, List.mem_range'_1, ref?_iff]
    constructor
    · rintro ⟨d, hd, hm, rfl⟩
      exact ⟨hm, by omega⟩
    · rintro ⟨hm, hd⟩
      have := hm.le_depth
      have := h.le_depth
      exact ⟨m.depth, by omega, hm, rfl⟩

end Context.Stands

namespace PatternStep

variable {s : PatternStep}

/-- Along the axes of a pattern a test accepts what it accepts of a child. -/
theorem acceptsOn_iff {n : NodeRef} :
    s.test.acceptsOn (if s.afterGap then .descendant else .child) n =
      s.test.accepts n.event.content .child := by
  cases s.afterGap with
  | false => cases s.test <;> rfl
  | true =>
    cases s.test with
    | node =>
      simp only [if_true, NodeTest.acceptsOn, NodeTest.accepts]
      cases n.event.content <;> rfl
    | _ => rfl

/-- On an open node the condition of the step of a path is that of the step of the pattern. -/
theorem condition_eq (hs : s.isAttribute = false) {n : NodeRef} (h : ctx.Stands n)
    (ha : s.test.accepts n.event.content .child) :
    (let depth := ctx.judgedAt n
     let position := n.event.positionOf s.test.group
     holdAll (ctx.seenFrom depth position) depth position s.predicates) =
      s.holdsAt ctx n.depth := by
  have he : ctx.event? n.depth = some n.event := h
  simp [holdsAt, he, hs, ha, h.judgedAt]

theorem accepts_of_holdsAt (hs : s.isAttribute = false) {n : NodeRef} (h : ctx.Stands n)
    (hh : s.holdsAt ctx n.depth = .ok true) : s.test.accepts n.event.content .child := by
  have he : ctx.event? n.depth = some n.event := h
  simp only [holdsAt, he, hs, Bool.false_eq_true, if_false] at hh
  split at hh
  · assumption
  · cases hh

variable {nodes next : List NodeRef}

/-- A step of the path selects the open nodes where the step of the pattern holds. -/
theorem mem_select (hs : s.isAttribute = false) (hn : ∀ n ∈ nodes, ctx.Stands n)
    (h : s.asStep.select ctx nodes = .ok next) {m : NodeRef} :
    m ∈ next ↔ ctx.Stands m ∧ s.holdsAt ctx m.depth = .ok true ∧
      ∃ n ∈ nodes, s.Below n.depth m.depth := by
  rw [asStep, Step.select] at h
  rw [mem_of_keep h]
  simp only [List.mem_flatMap, List.mem_filter, acceptsOn_iff]
  constructor
  · rintro ⟨⟨n, hmem, hr, ha⟩, hc⟩
    obtain ⟨hm, hb⟩ := (hn n hmem).mem_reach.1 hr
    exact ⟨hm, by rw [← condition_eq hs hm ha, hc], n, hmem, hb⟩
  · rintro ⟨hm, hh, n, hmem, hb⟩
    have ha := accepts_of_holdsAt hs hm hh
    exact ⟨⟨n, hmem, (hn n hmem).mem_reach.2 ⟨hm, hb⟩, ha⟩, by rw [condition_eq hs hm ha, hh]⟩

theorem predicateFails_of_select (hs : s.isAttribute = false) (hn : ∀ n ∈ nodes, ctx.Stands n)
    (h : s.asStep.select ctx nodes = .error f) : s.PredicateFails ctx f := by
  rw [asStep, Step.select] at h
  obtain ⟨m, hm, hc⟩ := fails_of_keep h
  simp only [List.mem_flatMap, List.mem_filter, acceptsOn_iff] at hm
  obtain ⟨n, hmem, hr, ha⟩ := hm
  obtain ⟨hm, -⟩ := (hn n hmem).mem_reach.1 hr
  exact predicateFails_of_holdsAt hs (by rw [← condition_eq hs hm ha, hc])

end PatternStep

section
variable {steps : List PatternStep} {nodes reached : List NodeRef}

/-- The path of the steps leads to the open nodes at the ends of their chains. -/
theorem mem_walk (hs : ∀ s ∈ steps, s.isAttribute = false) (hn : ∀ n ∈ nodes, ctx.Stands n)
    (h : walk ctx nodes (steps.map PatternStep.asStep) = .ok reached) {m : NodeRef} :
    m ∈ reached ↔ ctx.Stands m ∧ ∃ n ∈ nodes, Leads ctx steps n.depth m.depth := by
  induction steps generalizing nodes with
  | nil =>
    simp only [List.map_nil, walk, Except.ok.injEq] at h
    subst h
    simp only [Leads.nil_iff]
    constructor
    · intro hm
      exact ⟨hn m hm, m, hm, rfl⟩
    · rintro ⟨hm, n, hmem, hd⟩
      have he : m.event = n.event := by
        have := hn n hmem
        unfold Context.Stands at hm this
        rw [hd, hm, Option.some.injEq] at this
        exact this
      obtain ⟨e, d⟩ := n
      obtain ⟨e', d'⟩ := m
      cases hd
      cases he
      exact hmem
  | cons s r ih =>
    simp only [List.map_cons, walk] at h
    cases hsel : s.asStep.select ctx nodes with
    | error g => rw [hsel] at h; cases h
    | ok next =>
      have hmem {m} := PatternStep.mem_select (hs s List.mem_cons_self) hn hsel (m := m)
      have hr := ih (fun t ht => hs t (List.mem_cons_of_mem _ ht)) (fun n hm => (hmem.1 hm).1)
        (by simpa [hsel, Bind.bind, Except.bind] using h)
      rw [hr]
      simp only [Leads.cons_iff, hmem]
      constructor
      · rintro ⟨hm, k, ⟨-, hh, n, hnm, hb⟩, hl⟩
        exact ⟨hm, n, hnm, k.depth, hb, hh, hl⟩
      · rintro ⟨hm, n, hnm, d, hb, hh, hl⟩
        obtain ⟨e, he⟩ := PatternStep.event_of_holdsAt hh
        exact ⟨hm, ⟨e, d⟩, ⟨he, hh, n, hnm, hb⟩, hl⟩

theorem predicateFails_of_walk (hs : ∀ s ∈ steps, s.isAttribute = false)
    (hn : ∀ n ∈ nodes, ctx.Stands n)
    (h : walk ctx nodes (steps.map PatternStep.asStep) = .error f) :
    ∃ s ∈ steps, s.PredicateFails ctx f := by
  induction steps generalizing nodes with
  | nil => simp [walk] at h
  | cons s r ih =>
    simp only [List.map_cons, walk] at h
    have ha := hs s List.mem_cons_self
    cases hsel : s.asStep.select ctx nodes with
    | error g =>
      simp only [hsel, Bind.bind, Except.bind, Except.error.injEq] at h
      exact ⟨s, List.mem_cons_self, PatternStep.predicateFails_of_select ha hn (by rw [hsel, h])⟩
    | ok next =>
      obtain ⟨t, ht, hf⟩ := ih (fun t ht => hs t (List.mem_cons_of_mem _ ht))
        (fun n hm => ((PatternStep.mem_select ha hn hsel).1 hm).1)
        (by simpa [hsel, Bind.bind, Except.bind] using h)
      exact ⟨t, List.mem_cons_of_mem _ ht, hf⟩

end

/-! ## Agreement -/

theorem mem_fromRoot {absolute : Bool} {steps : List PatternStep} {t : PatternStep}
    (h : t ∈ fromRoot absolute steps) :
    ∃ s ∈ steps, t.isAttribute = s.isAttribute ∧
      ∀ ctx f, t.PredicateFails ctx f → s.PredicateFails ctx f := by
  cases steps with
  | nil => cases h
  | cons s r =>
    rcases List.mem_cons.1 h with rfl | h
    · exact ⟨s, List.mem_cons_self, rfl, fun _ _ h => h⟩
    · exact ⟨t, List.mem_cons_of_mem _ h, rfl, fun _ _ h => h⟩

/-- A pattern and its path at one node of a stack. -/
structure PathPattern.Agrees (p : PathPattern) (ctx : Context) (top : Nat) : Prop where
  /-- With results on both sides, the pattern matches where the path leads to the node. -/
  same {m : Option Nat} {v : Value} : p.match? ctx top = .ok m →
    p.asPath.evaluate ctx top = .ok v →
      (m.isSome ↔ ∃ n, .node n ∈ v.items ∧ n.depth = top ∧ ctx.event? top = some n.event)
  /-- Only a failing predicate keeps the pattern from a result. -/
  match_fails {f : Fault} : p.match? ctx top = .error f → p.PredicateFails ctx f
  /-- Only a failing predicate keeps the path from a result. -/
  path_fails {f : Fault} : p.asPath.evaluate ctx top = .error f → p.PredicateFails ctx f

section
variable {p : PathPattern} {top : Nat}

theorem PathPattern.leads_of_match? {m : Option Nat} {root : Event} (hr : ctx.event? 1 = some root)
    (hc : root.content = .root) (h : p.match? ctx top = .ok m) :
    m.isSome ↔ Leads ctx (fromRoot p.absolute p.steps) 1 top := by
  rw [← List.reverse_reverse p.steps]
  unfold match? at h
  cases hs : p.steps.reverse with
  | nil =>
    simp only [hs, Context.nodeAt, hr, hc, Bind.bind, Except.bind, if_true] at h
    simp only [List.reverse_nil, fromRoot, Leads.nil_iff]
    split at h <;> cases h <;> simp <;> omega
  | cons s r =>
    simp only [hs] at h
    cases hm : matchUpwards p.absolute ctx (s :: r) top with
    | error g => rw [hm] at h; cases h
    | ok b =>
      rw [← leads_of_matchUpwards hm]
      simp only [hm, Bind.bind, Except.bind] at h
      cases b with
      | false => cases h; simp
      | true =>
        simp only [if_true] at h
        split at h
        · cases h
        · cases h; simp

theorem PathPattern.predicateFails_of_match? {root : Event} (hr : ctx.event? 1 = some root)
    (ha : ∀ s ∈ p.steps, s.isAttribute = false) (h : p.match? ctx top = .error f) :
    p.PredicateFails ctx f := by
  unfold match? at h
  cases hs : p.steps.reverse with
  | nil =>
    simp only [hs, Context.nodeAt, hr, Bind.bind, Except.bind] at h
    split at h <;> cases h
  | cons s r =>
    simp only [hs] at h
    cases hm : matchUpwards p.absolute ctx (s :: r) top with
    | error g =>
      simp only [hm, Bind.bind, Except.bind, Except.error.injEq] at h
      obtain ⟨t, ht, k, hk⟩ := holdsAt_of_matchUpwards_fails (hm.trans (congrArg _ h))
      have ht : t ∈ p.steps := by rw [← List.mem_reverse, hs]; exact ht
      exact ⟨t, ht, PatternStep.predicateFails_of_holdsAt (ha t ht) hk⟩
    | ok b =>
      simp only [hm, Bind.bind, Except.bind] at h
      cases b with
      | false => cases h
      | true =>
        -- the chain of the match has found an event at the node
        obtain ⟨e, he⟩ := ((leads_of_matchUpwards hm).1 rfl).event ⟨root, hr⟩
        simp [Context.nodeAt, he] at h

/-- The path of a pattern is walked from the root. -/
theorem PathPattern.evaluate_asPath {root : Event} (hr : ctx.event? 1 = some root) :
    p.asPath.evaluate ctx top =
      (walk ctx [⟨root, 1⟩] ((fromRoot p.absolute p.steps).map PatternStep.asStep)).map
        fun nodes => ⟨nodes.map .node⟩ := by
  rw [asPath, Expr.evaluate]
  simp only [if_true, Context.nodeAt, hr, Bind.bind, Except.bind, Except.map]

/-- A pattern without attribute steps agrees with its path on every stack that begins with a
root, whatever the variables, the position and the child flag are. -/
theorem pattern_agrees_with_path {root : Event} (hr : ctx.event? 1 = some root)
    (hc : root.content = .root) (ha : ∀ s ∈ p.steps, s.isAttribute = false) :
    p.Agrees ctx top := by
  have stands : ∀ n ∈ [(⟨root, 1⟩ : NodeRef)], ctx.Stands n := by
    intro n hn
    rw [List.mem_singleton.1 hn]
    exact hr
  have plain : ∀ t ∈ fromRoot p.absolute p.steps, t.isAttribute = false := by
    intro t ht
    obtain ⟨s, hs, he, -⟩ := mem_fromRoot ht
    rw [he, ha s hs]
  constructor
  case same =>
    intro m v hm hv
    rw [PathPattern.leads_of_match? hr hc hm]
    rw [PathPattern.evaluate_asPath hr] at hv
    cases hw : walk ctx [⟨root, 1⟩] ((fromRoot p.absolute p.steps).map PatternStep.asStep) with
    | error g => rw [hw] at hv; cases hv
    | ok nodes =>
      rw [hw] at hv
      cases hv
      simp only [List.mem_map, Item.node.injEq, exists_eq_right, mem_walk plain stands hw,
        List.mem_singleton, exists_eq_left]
      constructor
      · intro hl
        obtain ⟨e, he⟩ := hl.event ⟨root, hr⟩
        exact ⟨⟨e, top⟩, ⟨he, hl⟩, rfl, he⟩
      · rintro ⟨n, ⟨-, hl⟩, rfl, -⟩
        exact hl
  case match_fails => exact PathPattern.predicateFails_of_match? hr ha
  case path_fails =>
    intro g hg
    rw [PathPattern.evaluate_asPath hr] at hg
    cases hw : walk ctx [⟨root, 1⟩] ((fromRoot p.absolute p.steps).map PatternStep.asStep) with
    | ok nodes => rw [hw] at hg; cases hg
    | error g' =>
      rw [hw] at hg
      cases hg
      obtain ⟨t, ht, hf⟩ := predicateFails_of_walk plain stands hw
      obtain ⟨s, hs, -, he⟩ := mem_fromRoot ht
      exact ⟨s, hs, he _ _ hf⟩

end

/-- Two nested elements of each of two names below a root, the inner ones with an attribute. -/
def nestedContext : Context where
  ancestors :=
    [.met 0 .root, .met 1 (.element (.simple "a") []), .met 2 (.element (.simple "b") []),
      .met 3 (.element (.simple "a") []),
      .met 4 (.element (.simple "b") [⟨.simple "id", "x"⟩])]
  lookup := fun _ => none
  position := 1
  hasChildNodes := false

/-- `a//b[@id = "x"]`. Matching stops at the inner `a`; the path comes from both. -/
def nestedPattern : PathPattern where
  absolute := false
  steps :=
    [⟨.name none "a" "", false, false, []⟩,
      ⟨.name none "b" "", false, true,
        [.binary .equal (.path false [.mk .attributes (.name none "id" "") []]) (.literal "x")]⟩]

theorem pattern_agrees_with_path_nested :
    nestedPattern.Agrees nestedContext 5 ∧
      nestedPattern.match? nestedContext 5 = .ok (some 1) ∧
      nestedPattern.asPath.evaluate nestedContext 5 =
        .ok ⟨List.replicate 2
          (.node ⟨.met 4 (.element (.simple "b") [⟨.simple "id", "x"⟩]), 5⟩)⟩ :=
  ⟨pattern_agrees_with_path rfl rfl (by decide), by rfl, by rfl⟩

end StreamTransform.Path
