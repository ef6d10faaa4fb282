import StreamTransform.Proofs.Evaluability

/-!
# Binding reaches every test

Binding goes through an expression or a pattern in the order of the text. What it has to settle on
its way is a list: the calls, the node tests, and the attribute steps that other steps follow. To
bind is to settle the members of this list one after the other, so the first one at fault decides
what a parse fails with, and in a result nothing is left open. That an unqualified test has no
namespace is due to the grammar: no reader gives it one.
-/

namespace StreamTransform.Path

/-! ## Uses -/

/-- What binding has to settle. -/
inductive Use where
  | call (name : String) (arguments : Nat)
  | test (t : NodeTest)
  /-- A step to attributes in a pattern, with more steps behind it. -/
  | attributeStep (input : String)

mutual

/-- What is to settle in an expression, at any depth, in the order of the text. -/
def Expr.uses : Expr → List Use
  | .literal _ | .number _ | .reference _ => []
  | .sequence items => usesOfAll items
  | .path _ steps => usesOfSteps steps
  | .call n args => .call n args.length :: usesOfAll args
  | .binary _ l r => l.uses ++ r.uses
  | .negate e => e.uses
  | .conditional t y n => t.uses ++ (y.uses ++ n.uses)

def usesOfAll : List Expr → List Use
  | [] => []
  | e :: es => e.uses ++ usesOfAll es

def usesOfSteps : List Step → List Use
  | [] => []
  | .mk _ test ps :: r => .test test :: (usesOfAll ps ++ usesOfSteps r)

end

def usesOfPatternSteps (input : String) : List PatternStep → List Use
  | [] => []
  | s :: r =>
    (if s.isAttribute && !r.isEmpty then [.attributeStep input] else []) ++
      .test s.test :: (usesOfAll s.predicates ++ usesOfPatternSteps input r)

def PathPattern.uses (input : String) (p : PathPattern) : List Use :=
  usesOfPatternSteps input p.steps

/-- What is to settle in a pattern, alternative by alternative. -/
def Pattern.uses (input : String) (p : Pattern) : List Use :=
  p.alternatives.flatMap (PathPattern.uses input)

/-! ## Settled uses and faults -/

/-- The namespace that a qualifier stands for. -/
def StandsFor (ns : Namespaces) (qualifier uri : String) : Prop :=
  if qualifier = "xml" then uri = xmlNamespace else ns.lookup qualifier = some uri

def Unbound (ns : Namespaces) (qualifier : String) : Prop :=
  qualifier ≠ "xml" ∧ ns.lookup qualifier = none

/-- The qualifier of a name test or of a test for all names of a namespace. -/
def NodeTest.qualifier? : NodeTest → Option String
  | .name q _ _ => q
  | .inNamespace q _ => some q
  | _ => none

/-- The namespace that a test for names carries. -/
def NodeTest.uri? : NodeTest → Option String
  | .name _ _ uri | .inNamespace _ uri => some uri
  | _ => none

/-- A test for names carries the namespace of its qualifier, and none without a qualifier. -/
def NodeTest.Bound (ns : Namespaces) (test : NodeTest) : Prop :=
  ∀ uri, test.uri? = some uri →
    match test.qualifier? with
    | some q => StandsFor ns q uri
    | none => uri = ""

/-- Nothing is left to settle: the function exists and takes that many arguments, the test is
bound, and no step follows a step to attributes. -/
def Use.Settled (ns : Namespaces) : Use → Prop
  | .call n count => ∃ f, Function.named? n = some f ∧ f.arity.admits count
  | .test t => t.Bound ns
  | .attributeStep _ => False

/-- The fault of a use that cannot be settled. -/
inductive Use.Faulty (ns : Namespaces) : Use → Fault → Prop
  | unknownFunction {n : String} {count : Nat} : Function.named? n = none →
      Faulty ns (.call n count) (.unknownFunction n)
  | argumentCount {n : String} {count : Nat} {f : Function} : Function.named? n = some f →
      f.arity.admits count = false →
      Faulty ns (.call n count) (.argumentCount n f.arity count)
  | unknownQualifier {t : NodeTest} {q : String} : t.qualifier? = some q → Unbound ns q →
      Faulty ns (.test t) (.unknownQualifier q)
  | attributeStep (input : String) :
      Faulty ns (.attributeStep input) (.attributeNotLast input)

/-- Settles one use as binding does. -/
def Use.settle (ns : Namespaces) : Use → Except Fault Use
  | .call n count => do
    let _ ← Function.resolve n count
    .ok (.call n count)
  | .test t => do .ok (.test (← t.bind ns))
  | .attributeStep input => .error (.attributeNotLast input)

section
variable {ns : Namespaces} {u w : Use} {f : Fault}

theorem resolveQualifier_eq_ok_iff {q uri : String} :
    resolveQualifier ns q = .ok uri ↔ StandsFor ns q uri := by
  unfold resolveQualifier StandsFor
  by_cases hxml : q = "xml"
  · simp [hxml, eq_comm]
  · cases ns.lookup q <;> simp [hxml]

theorem resolveQualifier_eq_error_iff {q : String} :
    resolveQualifier ns q = .error f ↔ Unbound ns q ∧ f = .unknownQualifier q := by
  unfold resolveQualifier Unbound
  by_cases hxml : q = "xml"
  · simp [hxml]
  · cases ns.lookup q <;> simp [hxml, eq_comm]

theorem Use.settle_eq_error_iff : u.settle ns = .error f ↔ u.Faulty ns f := by
  constructor
  · intro h
    cases u with
    | call n count =>
      simp only [settle] at h
      have h := fails_of_bind_ok h
      unfold Function.resolve at h
      split at h
      · cases h
        exact .unknownFunction ‹_›
      · split at h
        · cases h
        · rename_i hadmits
          cases h
          exact .argumentCount ‹_› (by simpa using hadmits)
    | test t =>
      simp only [settle] at h
      have h := fails_of_bind_ok h
      unfold NodeTest.bind at h
      split at h
      · obtain ⟨hq, rfl⟩ := resolveQualifier_eq_error_iff.mp (fails_of_bind_ok h)
        exact .unknownQualifier rfl hq
      · obtain ⟨hq, rfl⟩ := resolveQualifier_eq_error_iff.mp (fails_of_bind_ok h)
        exact .unknownQualifier rfl hq
      · cases h
    | attributeStep input =>
      cases h
      exact .attributeStep input
  · rintro (h | ⟨h, hadmits⟩ | @⟨t, q, hq, hunbound⟩ | input)
    · simp [settle, Function.resolve, h, Bind.bind, Except.bind]
    · simp [settle, Function.resolve, h, hadmits, Bind.bind, Except.bind]
    · have hresolve := resolveQualifier_eq_error_iff.mpr ⟨hunbound, rfl⟩
      cases t with
      | name q' l uri =>
        cases hq
        simp [settle, NodeTest.bind, hresolve, Bind.bind, Except.bind]
      | inNamespace q' uri =>
        cases hq
        simp [settle, NodeTest.bind, hresolve, Bind.bind, Except.bind]
      | _ => cases hq
    · rfl

/-- Of a use that is settled nothing is left open, if a test without a qualifier had no namespace
from the start. -/
theorem Use.settled_of_settle (h : u.settle ns = .ok w)
    (hplain : ∀ l uri, u = .test (.name none l uri) → uri = "") : w.Settled ns := by
  cases u with
  | call n count =>
    simp only [settle, bind_eq_ok_iff, Except.ok.injEq] at h
    obtain ⟨f, hresolved, rfl⟩ := h
    unfold Function.resolve at hresolved
    split at hresolved
    · cases hresolved
    · split at hresolved
      · exact ⟨_, ‹_›, ‹_›⟩
      · cases hresolved
  | test t =>
    simp only [settle, bind_eq_ok_iff, Except.ok.injEq] at h
    obtain ⟨t', hbound, rfl⟩ := h
    intro uri huri
    cases t with
    | name q l open_ =>
      cases q with
      | none =>
        cases hbound
        cases huri
        exact hplain l uri rfl
      | some q =>
        simp only [NodeTest.bind, bind_eq_ok_iff, Except.ok.injEq] at hbound
        obtain ⟨resolved, hresolved, rfl⟩ := hbound
        cases huri
        exact resolveQualifier_eq_ok_iff.mp hresolved
    | inNamespace q open_ =>
      simp only [NodeTest.bind, bind_eq_ok_iff, Except.ok.injEq] at hbound
      obtain ⟨resolved, hresolved, rfl⟩ := hbound
      cases huri
      exact resolveQualifier_eq_ok_iff.mp hresolved
    | _ =>
      cases hbound
      cases huri
  | attributeStep input => cases h

end

/-! ## Binding settles one use after the other -/

section
variable {ns : Namespaces}

mutual

theorem uses_bind : ∀ e : Expr, (e.bind ns).map Expr.uses = e.uses.mapM (Use.settle ns)
  | .literal _ | .number _ | .reference _ => rfl
  | .sequence items => by
    rw [Expr.bind, Expr.uses, ← uses_bindAll items]
    cases bindAll ns items <;> rfl
  | .path _ steps => by
    rw [Expr.bind, Expr.uses, ← uses_bindSteps steps]
    cases bindSteps ns steps <;> rfl
  | .call n args => by
    rw [Expr.bind, Expr.uses, List.mapM_cons, ← uses_bindAll args, Use.settle]
    cases Function.resolve n args.length with
    | error f => rfl
    | ok g =>
      cases hargs : bindAll ns args with
      | error f => rfl
      | ok args' =>
        simp only [Bind.bind, Except.bind, Except.map, Expr.uses, length_bindAll hargs]
        rfl
  | .binary _ l r => by
    rw [Expr.bind, Expr.uses, List.mapM_append, ← uses_bind l, ← uses_bind r]
    cases l.bind ns <;> cases r.bind ns <;> rfl
  | .negate e => by
    rw [Expr.bind, Expr.uses, ← uses_bind e]
    cases e.bind ns <;> rfl
  | .conditional t y n => by
    rw [Expr.bind, Expr.uses, List.mapM_append, List.mapM_append, ← uses_bind t, ← uses_bind y,
      ← uses_bind n]
    cases t.bind ns <;> cases y.bind ns <;> cases n.bind ns <;> rfl

theorem uses_bindAll :
    ∀ es : List Expr, (bindAll ns es).map usesOfAll = (usesOfAll es).mapM (Use.settle ns)
  | [] => rfl
  | e :: es => by
    rw [bindAll, usesOfAll, List.mapM_append, ← uses_bind e, ← uses_bindAll es]
    cases e.bind ns <;> cases bindAll ns es <;> rfl

theorem uses_bindSteps : ∀ steps : List Step,
    (bindSteps ns steps).map usesOfSteps = (usesOfSteps steps).mapM (Use.settle ns)
  | [] => rfl
  | .mk axis test ps :: r => by
    rw [bindSteps, usesOfSteps, List.mapM_cons, List.mapM_append, ← uses_bindAll ps,
      ← uses_bindSteps r, Use.settle]
    cases test.bind ns <;> cases bindAll ns ps <;> cases bindSteps ns r <;> rfl

end

/-- Binding leaves no step out. -/
theorem isEmpty_bindPatternSteps {input : String} {steps bound : List PatternStep}
    (h : bindPatternSteps ns input steps = .ok bound) : bound.isEmpty = steps.isEmpty := by
  cases steps with
  | nil =>
    cases h
    rfl
  | cons s r =>
    rw [bindPatternSteps] at h
    split at h
    · cases h
    · simp only [bind_eq_ok_iff, Except.ok.injEq] at h
      obtain ⟨-, -, -, -, -, -, -, -, rfl⟩ := h
      rfl

theorem uses_bindPatternSteps (input : String) (steps : List PatternStep) :
    (bindPatternSteps ns input steps).map (usesOfPatternSteps input) =
      (usesOfPatternSteps input steps).mapM (Use.settle ns) := by
  induction steps with
  | nil => rfl
  | cons s r ih =>
    rw [bindPatternSteps, usesOfPatternSteps]
    split
    · rfl
    · rename_i hlast
      rw [List.nil_append, List.mapM_cons, List.mapM_append, ← uses_bindAll, ← ih, Use.settle]
      cases hr : bindPatternSteps ns input r with
      | error f => cases s.test.bind ns <;> cases bindAll ns s.predicates <;> rfl
      | ok r' =>
        have hlast' : (s.isAttribute && !r'.isEmpty) = false := by
          rw [isEmpty_bindPatternSteps hr]
          simpa using hlast
        cases s.test.bind ns with
        | error f => rfl
        | ok test =>
          cases bindAll ns s.predicates with
          | error f => rfl
          | ok ps =>
            simp only [Bind.bind, Except.bind, Except.map, usesOfPatternSteps, hlast',
              Pure.pure, Except.pure]
            rfl

theorem uses_bindPath (input : String) (p : PathPattern) :
    (p.bind ns input).map (PathPattern.uses input) =
      (p.uses input).mapM (Use.settle ns) := by
  rw [PathPattern.uses, ← uses_bindPatternSteps, PathPattern.bind]
  cases bindPatternSteps ns input p.steps <;> rfl

theorem uses_bindPaths (input : String) (paths : List PathPattern) :
    (paths.mapM (PathPattern.bind ns input)).map (List.flatMap (PathPattern.uses input)) =
      (paths.flatMap (PathPattern.uses input)).mapM (Use.settle ns) := by
  induction paths with
  | nil => rfl
  | cons p paths ih =>
    rw [List.mapM_cons, List.flatMap_cons, List.mapM_append, ← uses_bindPath, ← ih]
    cases p.bind ns input with
    | error f => rfl
    | ok path => cases paths.mapM (PathPattern.bind ns input) <;> rfl

theorem uses_parseExpr {text : String} {e : Expr} (h : readExpr text = .ok e) :
    (parseExpr ns text).map Expr.uses = e.uses.mapM (Use.settle ns) := by
  rw [parseExpr, h]
  exact uses_bind e

theorem uses_parsePattern {text : String} {p : Pattern} (h : readPattern text = .ok p) :
    (parsePattern ns text).map (Pattern.uses text) = (p.uses text).mapM (Use.settle ns) := by
  rw [parsePattern, h]
  cases p with
  | single path =>
    rw [Pattern.uses, Pattern.alternatives, List.flatMap_singleton, ← uses_bindPath]
    cases hbound : path.bind ns text <;>
      simp [hbound, Bind.bind, Except.bind, Except.map, Pattern.uses, Pattern.alternatives]
  | union paths =>
    rw [Pattern.uses, Pattern.alternatives, ← uses_bindPaths]
    cases hbound : paths.mapM (PathPattern.bind ns text) <;>
      simp [hbound, Bind.bind, Except.bind, Except.map, Pattern.uses, Pattern.alternatives]

end

/-! ## Unqualified tests as they are read -/

/-- Tests without a qualifier have no namespace. -/
def Bare (us : List Use) : Prop := ∀ l uri, .test (.name none l uri) ∈ us → uri = ""

section
variable {us us' : List Use} {es : List Expr} {steps : List Step}

theorem bare_nil : Bare [] := fun _ _ h => by cases h

theorem bare_append : Bare (us ++ us') ↔ Bare us ∧ Bare us' := by
  simp only [Bare, List.mem_append]
  constructor
  · intro h
    exact ⟨fun l uri hmem => h l uri (.inl hmem), fun l uri hmem => h l uri (.inr hmem)⟩
  · rintro ⟨h, h'⟩ l uri (hmem | hmem)
    · exact h l uri hmem
    · exact h' l uri hmem

theorem bare_cons {u : Use} : Bare (u :: us) ↔ Bare [u] ∧ Bare us := by
  rw [← bare_append, List.singleton_append]

theorem bare_call (n : String) (count : Nat) : Bare [.call n count] := fun l uri h => by simp at h

theorem bare_attributeStep (input : String) : Bare [.attributeStep input] :=
  fun l uri h => by simp at h

theorem bare_usesOfAll (h : ∀ e ∈ es, Bare e.uses) : Bare (usesOfAll es) := by
  induction es with
  | nil => exact bare_nil
  | cons e es ih =>
    obtain ⟨he, hes⟩ := List.forall_mem_cons.mp h
    exact bare_append.mpr ⟨he, ih hes⟩

theorem bare_usesOfSteps (h : ∀ s ∈ steps, Bare (usesOfSteps [s])) : Bare (usesOfSteps steps) := by
  induction steps with
  | nil => exact bare_nil
  | cons s steps ih =>
    obtain ⟨hs, hsteps⟩ := List.forall_mem_cons.mp h
    obtain ⟨axis, test, ps⟩ := s
    simp only [usesOfSteps, List.append_nil] at hs ⊢
    rw [← List.cons_append]
    exact bare_append.mpr ⟨hs, ih hsteps⟩

end

/-- Whatever the reader takes from a text has the property. -/
def Reader.Gives {α : Type} (p : Reader α) (P : α → Prop) : Prop := ∀ s a r, p s = some (a, r) → P a

namespace Reader.Gives

variable {α β : Type} {p : Reader α} {q : Reader β} {ps : List (Reader α)} {P : α → Prop}
  {Q : β → Prop}

theorem any (p : Reader α) : Gives p fun _ => True := fun _ _ _ _ => trivial

theorem map {f : α → β} (h : Gives p fun a => Q (f a)) : Gives (Reader.map f p) Q := by
  intro s b r hr
  obtain ⟨a, hread, rfl⟩ := exists_of_map hr
  exact h s a r hread

theorem seq (hp : Gives p P) (hq : Gives q Q) :
    Gives (Reader.seq p q) fun c => P c.1 ∧ Q c.2 := by
  intro s c r hr
  obtain ⟨r', hfirst, hsecond⟩ := exists_of_seq hr
  exact ⟨hp s c.1 r' hfirst, hq r' c.2 r hsecond⟩

theorem after (hq : Gives q Q) : Gives (Reader.after p q) Q :=
  map fun s c r hr => ((any p).seq hq s c r hr).2

theorem before (hp : Gives p P) : Gives (Reader.before p q) P :=
  map fun s c r hr => (hp.seq (any q) s c r hr).1

theorem firstOf (h : ∀ p ∈ ps, Gives p P) : Gives (Reader.firstOf ps) P := by
  intro s a r hr
  obtain ⟨p, hmem, hread⟩ := exists_of_firstOf hr
  exact h p hmem s a r hread

theorem optional (h : Gives p P) : Gives (Reader.optional p) fun o => ∀ a ∈ o, P a := by
  intro s o r hr
  rcases cases_of_optional hr with ⟨rfl, -⟩ | ⟨a, rfl, hread⟩
  · exact fun a ha => by cases ha
  · intro b hb
    cases hb
    exact h s a r hread

theorem spaced (h : Gives p P) : Gives (Reader.spaced p) P := by
  intro s a r hr
  obtain ⟨r', hread, -⟩ := exists_of_spaced hr
  exact h _ a r' hread

theorem many (h : Gives p P) (s : List Char) : ∀ a ∈ (Reader.many p s).1, P a :=
  many_induction (P := fun _ as _ => ∀ a ∈ as, P a) (fun _ a ha => by cases ha)
    (fun s a r _ _ hread hrest => List.forall_mem_cons.mpr ⟨h s a r hread, hrest⟩) s

theorem separated (hp : Gives p P) : Gives (Reader.separated q p) fun as => ∀ a ∈ as, P a := by
  intro s as r hr
  rcases cases_of_separated hr with ⟨rfl, -⟩ | ⟨a, r', hread, rfl, -⟩
  · exact fun a ha => by cases ha
  · exact List.forall_mem_cons.mpr ⟨hp s a r' hread, (hp.after).many r'⟩

end Reader.Gives

section
open Reader

theorem bare_nodeTest : Gives nodeTest fun t => Bare [.test t] := by
  -- only the reader of names can give a test without a qualifier
  have other {p : Reader NodeTest} (h : Gives p fun t => ∀ l uri, t ≠ .name none l uri) :
      Gives p fun t => Bare [.test t] := by
    intro s t r hr l uri hmem
    rw [List.mem_singleton, Use.test.injEq] at hmem
    exact absurd hmem.symm (h s t r hr l uri)
  have constant {α : Type} {f : α → NodeTest} (p : Reader α)
      (h : ∀ a l uri, f a ≠ .name none l uri) : Gives (Reader.map f p) fun t => Bare [.test t] :=
    other (.map fun s a r _ => h a)
  refine .firstOf ?_
  simp only [List.forall_mem_cons]
  refine ⟨constant _ (by simp), constant _ (by simp), constant _ (by simp),
    constant _ (by simp), constant _ (by simp), constant _ (by simp), constant _ (by simp),
    .map fun s n r _ => ?_, by simp⟩
  intro l uri hmem
  rw [List.mem_singleton, Use.test.injEq, NodeTest.name.injEq] at hmem
  exact hmem.2.2

variable {expr : Reader Expr} (h : Gives expr fun e => Bare e.uses)
include h

theorem bare_predicate : Gives (predicate expr) fun e => Bare e.uses := h.after.before

theorem bare_predicates : Gives (predicates expr) fun ps => Bare (usesOfAll ps) := by
  intro s ps r hr
  simp only [predicates, Option.some.injEq] at hr
  have hmany := (bare_predicate h).many s
  rw [hr] at hmany
  exact bare_usesOfAll hmany

theorem bare_step : Gives (step expr) fun s => Bare (usesOfSteps [s]) := by
  have whole {axis : Axis} {test : NodeTest} {ps : List Expr} (htest : Bare [.test test])
      (hps : Bare (usesOfAll ps)) : Bare (usesOfSteps [.mk axis test ps]) := by
    simp only [usesOfSteps, List.append_nil]
    exact bare_cons.mpr ⟨htest, hps⟩
  have node : Bare [.test .node] := fun l uri hmem => by simp at hmem
  have tested := bare_nodeTest.seq (bare_predicates h)
  refine .firstOf ?_
  simp only [List.forall_mem_cons]
  refine ⟨.map fun _ _ _ _ => whole node bare_nil, .map fun _ _ _ _ => whole node bare_nil,
    .map fun s p r hr => ?_, .map fun s p r hr => ?_, .map fun s p r hr => ?_, by simp⟩
  · obtain ⟨-, htest, hps⟩ := (Gives.any _).seq tested s p r hr
    exact whole htest hps
  · obtain ⟨htest, hps⟩ := bare_nodeTest.after.seq (bare_predicates h) s p r hr
    exact whole htest hps
  · obtain ⟨htest, hps⟩ := tested s p r hr
    exact whole htest hps

omit h in
theorem bare_stepsAfter {s : Step} (hs : Bare (usesOfSteps [s])) (gap : Bool) :
    ∀ s' ∈ stepsAfter gap s, Bare (usesOfSteps [s']) := by
  have node : Bare (usesOfSteps [.mk .descendant .node []]) := fun l uri hmem => by
    simp [usesOfSteps, usesOfAll] at hmem
  unfold stepsAfter
  split
  · simpa using hs
  · simpa [usesOfSteps] using hs
  · simpa using ⟨node, hs⟩

theorem bare_relativePath : Gives (relativePath expr) fun p =>
    Bare (usesOfSteps [p.1]) ∧ ∀ s ∈ p.2, Bare (usesOfSteps [s]) := by
  intro s p r hr
  obtain ⟨r', hfirst, hrest, -⟩ := exists_of_relativePath hr
  refine ⟨bare_step h s p.1 r' hfirst, fun s' hs' => ?_⟩
  rw [hrest] at hs'
  obtain ⟨q, hq, hs'⟩ := List.mem_flatMap.mp hs'
  obtain ⟨-, hstep⟩ := ((Gives.any separator).seq (bare_step h)).many r' q hq
  exact bare_stepsAfter hstep q.1 s' hs'

theorem bare_locationPath : Gives (locationPath expr) fun e => Bare e.uses := by
  have hpath := bare_relativePath h
  refine .firstOf ?_
  simp only [List.forall_mem_cons]
  refine ⟨.map fun s p r hr => ?_, .map fun s p r hr => ?_, .map fun s p r hr => ?_, by simp⟩
  · obtain ⟨hfirst, hrest⟩ := hpath.after s p r hr
    refine bare_usesOfSteps fun s' hs' => ?_
    rcases List.mem_append.mp hs' with hs' | hs'
    · exact bare_stepsAfter hfirst true s' hs'
    · exact hrest s' hs'
  · have hp := hpath.optional.after s p r hr
    cases p with
    | none => exact bare_nil
    | some p =>
      obtain ⟨hfirst, hrest⟩ := hp p rfl
      exact bare_usesOfSteps (List.forall_mem_cons.mpr ⟨hfirst, hrest⟩)
  · obtain ⟨hfirst, hrest⟩ := hpath s p r hr
    exact bare_usesOfSteps (List.forall_mem_cons.mpr ⟨hfirst, hrest⟩)

/-- Any number of expressions in parentheses. -/
theorem bare_arguments :
    Gives (before (after (spaced (char '(')) (separated (spaced (char ',')) expr))
      (spaced (char ')'))) fun es => ∀ e ∈ es, Bare e.uses :=
  h.separated.after.before

theorem bare_parenthesized : Gives (parenthesized expr) fun e => Bare e.uses := by
  refine .map fun s es r hr => ?_
  have hes := bare_arguments h s es r hr
  rcases es with _ | ⟨e, _ | ⟨e', es⟩⟩
  · exact bare_nil
  · exact hes e List.mem_cons_self
  · exact bare_usesOfAll hes

theorem bare_functionCall : Gives (functionCall expr) fun e => Bare e.uses := by
  intro s e r hr
  obtain ⟨n, r', args, -, hargs, rfl⟩ := exists_of_functionCall hr
  exact bare_cons.mpr ⟨bare_call _ _, bare_usesOfAll (bare_arguments h r' args r hargs)⟩

theorem bare_conditional : Gives (conditional expr) fun e => Bare e.uses := by
  refine .map fun s p r hr => ?_
  obtain ⟨htest, hyes, hno⟩ := h.after.before.after.seq (h.after.seq h.after) s p r hr
  exact bare_append.mpr ⟨htest, bare_append.mpr ⟨hyes, hno⟩⟩

theorem bare_primary : Gives (primary expr) fun e => Bare e.uses := by
  refine .spaced (.firstOf ?_)
  simp only [List.forall_mem_cons]
  exact ⟨bare_conditional h, .map fun _ _ _ _ => bare_nil, .map fun _ _ _ _ => bare_nil,
    .map fun _ _ _ _ => bare_nil, bare_parenthesized h, bare_functionCall h, bare_locationPath h,
    by simp⟩

/-- A sign adds nothing to settle. -/
theorem bare_unary : Gives (unary expr) fun e => Bare e.uses :=
  unary_induction h fun _ _ _ _ _ hrest => hrest

theorem bare_chain (sign : Reader BinaryOperator) :
    Gives (chain sign expr) fun e => Bare e.uses := by
  have joined (rest : List (BinaryOperator × Expr)) (first : Expr) (hfirst : Bare first.uses)
      (hrest : ∀ p ∈ rest, True ∧ Bare p.2.uses) :
      Bare (rest.foldl (fun left p => .binary p.1 left p.2) first).uses := by
    induction rest generalizing first with
    | nil => exact hfirst
    | cons p rest ih =>
      obtain ⟨⟨-, hp⟩, hrest⟩ := List.forall_mem_cons.mp hrest
      exact ih _ (bare_append.mpr ⟨hfirst, hp⟩) hrest
  intro s e r hr
  obtain ⟨first, r', hfirst, rfl, -⟩ := exists_of_chain hr
  exact joined _ first (h s first r' hfirst) (((Gives.any (spaced sign)).seq h).many r')

omit h in
theorem bare_expression (depth : Nat) : Gives (expression depth) fun e => Bare e.uses := by
  induction depth with
  | zero => exact fun s e r hr => by cases hr
  | succ depth ih =>
    exact bare_chain (bare_chain (bare_chain (bare_chain (bare_chain
      (bare_chain (bare_unary (bare_primary ih)) _) _) _) _) _) _

/-! ### Patterns -/

/-- The tests of a pattern step and of its predicates have no namespace without a qualifier. -/
def PatternStep.IsBare (s : PatternStep) : Prop := Bare (.test s.test :: usesOfAll s.predicates)

omit h in
theorem bare_usesOfPatternSteps {steps : List PatternStep} (input : String)
    (hsteps : ∀ s ∈ steps, s.IsBare) : Bare (usesOfPatternSteps input steps) := by
  induction steps with
  | nil => exact bare_nil
  | cons s r ih =>
    obtain ⟨hs, hr⟩ := List.forall_mem_cons.mp hsteps
    rw [usesOfPatternSteps, ← List.cons_append]
    refine bare_append.mpr ⟨?_, bare_append.mpr ⟨hs, ih hr⟩⟩
    split
    · exact bare_attributeStep input
    · exact bare_nil

theorem bare_patternStep : Gives (patternStep expr) PatternStep.IsBare := by
  refine .map fun s p r hr => ?_
  obtain ⟨-, htest, hps⟩ := (Gives.any _).seq (bare_nodeTest.seq (bare_predicates h)) s p r hr
  exact bare_cons.mpr ⟨htest, hps⟩

theorem bare_relativePattern :
    Gives (relativePattern expr) fun p => p.1.IsBare ∧ ∀ s ∈ p.2, s.IsBare := by
  intro s p r hr
  simp only [relativePattern] at hr
  split at hr
  · rename_i first r' hfirst
    cases hr
    refine ⟨bare_patternStep h s first r' hfirst, fun s' hs' => ?_⟩
    obtain ⟨q, hq, rfl⟩ := List.mem_map.mp hs'
    exact (((Gives.any separator).seq (bare_patternStep h)).many r' q hq).2
  · cases hr

theorem bare_pathPattern (input : String) :
    Gives (pathPattern expr) fun p => Bare (p.uses input) := by
  have hpath := bare_relativePattern h
  refine .firstOf ?_
  simp only [List.forall_mem_cons]
  refine ⟨.map fun s p r hr => ?_, .map fun s p r hr => ?_, .map fun s p r hr => ?_, by simp⟩
  · obtain ⟨hfirst, hrest⟩ := hpath.after s p r hr
    exact bare_usesOfPatternSteps input (List.forall_mem_cons.mpr ⟨hfirst, hrest⟩)
  · have hp := hpath.optional.after s p r hr
    cases p with
    | none => exact bare_nil
    | some p =>
      obtain ⟨hfirst, hrest⟩ := hp p rfl
      exact bare_usesOfPatternSteps input (List.forall_mem_cons.mpr ⟨hfirst, hrest⟩)
  · obtain ⟨hfirst, hrest⟩ := hpath s p r hr
    exact bare_usesOfPatternSteps input (List.forall_mem_cons.mpr ⟨hfirst, hrest⟩)

theorem bare_pattern (input : String) : Gives (pattern expr) fun p => Bare (p.uses input) := by
  have hpath := (bare_pathPattern h input).spaced
  have joined {paths : List PathPattern} (hpaths : ∀ p ∈ paths, Bare (p.uses input)) :
      Bare (paths.flatMap (PathPattern.uses input)) := by
    intro l uri hmem
    obtain ⟨p, hp, hmem⟩ := List.mem_flatMap.mp hmem
    exact hpaths p hp l uri hmem
  intro s p r hr
  simp only [pattern] at hr
  split at hr
  · rename_i first r' hfirst
    have hothers := hpath.after (p := spaced (char '|')).many r'
    split at hr
    · cases hr
      exact joined (List.forall_mem_singleton.mpr (hpath s first r' hfirst))
    · rename_i others rest hmany
      cases hr
      rw [hmany] at hothers
      exact joined (List.forall_mem_cons.mpr ⟨hpath s first r' hfirst, hothers⟩)
  · cases hr

end

theorem bare_of_readExpr {text : String} {e : Expr} (h : readExpr text = .ok e) :
    Bare e.uses :=
  bare_expression _ _ _ _ (read_of_readWhole h)

theorem bare_of_readPattern {text : String} {p : Pattern} (h : readPattern text = .ok p) :
    Bare (p.uses text) :=
  bare_pattern (bare_expression _) text _ _ _ (read_of_readWhole h)

/-! ## Parsing -/

section
variable {ns : Namespaces} {us ws : List Use} {f : Fault}

theorem exists_of_mapM_settle (h : us.mapM (Use.settle ns) = .ok ws) :
    ∀ w ∈ ws, ∃ u ∈ us, u.settle ns = .ok w := by
  induction us generalizing ws with
  | nil =>
    cases h
    exact fun w hw => by cases hw
  | cons u us ih =>
    simp only [List.mapM_cons, bind_eq_ok_iff, Pure.pure, Except.pure, Except.ok.injEq] at h
    obtain ⟨w, hw, ws', hws, rfl⟩ := h
    refine List.forall_mem_cons.mpr ⟨⟨u, List.mem_cons_self, hw⟩, fun w' hw' => ?_⟩
    obtain ⟨u', hu', hsettle⟩ := ih hws w' hw'
    exact ⟨u', List.mem_cons_of_mem _ hu', hsettle⟩

/-- The first use at fault decides. -/
theorem mapM_settle_fails {before after : List Use} {u : Use}
    (hbefore : ∀ v ∈ before, ∀ g, ¬v.Faulty ns g) (hu : u.Faulty ns f) :
    (before ++ u :: after).mapM (Use.settle ns) = .error f := by
  induction before with
  | nil => rw [List.nil_append, List.mapM_cons, Use.settle_eq_error_iff.mpr hu]; rfl
  | cons v before ih =>
    obtain ⟨hv, hbefore⟩ := List.forall_mem_cons.mp hbefore
    rw [List.cons_append, List.mapM_cons, ih hbefore]
    cases hsettle : v.settle ns with
    | ok w => rfl
    | error g => exact absurd (Use.settle_eq_error_iff.mp hsettle) (hv g)

theorem exists_mapM_settle (h : ∀ u ∈ us, ∀ g, ¬u.Faulty ns g) :
    ∃ ws, us.mapM (Use.settle ns) = .ok ws := by
  induction us with
  | nil => exact ⟨[], rfl⟩
  | cons u us ih =>
    obtain ⟨hu, hus⟩ := List.forall_mem_cons.mp h
    obtain ⟨ws, hws⟩ := ih hus
    cases hsettle : u.settle ns with
    | ok w => exact ⟨w :: ws, by rw [List.mapM_cons, hsettle, hws]; rfl⟩
    | error g => exact absurd (Use.settle_eq_error_iff.mp hsettle) (hu g)

/-- Either no use in a list is at fault, or there is a first one. -/
theorem exists_first_fault (ns : Namespaces) (us : List Use) :
    (∀ u ∈ us, ∀ g, ¬u.Faulty ns g) ∨ ∃ before u after f, us = before ++ u :: after ∧
      (∀ v ∈ before, ∀ g, ¬v.Faulty ns g) ∧ u.Faulty ns f := by
  induction us with
  | nil => exact .inl fun u hu => by cases hu
  | cons u us ih =>
    by_cases hu : ∃ f, u.Faulty ns f
    · obtain ⟨f, hf⟩ := hu
      exact .inr ⟨[], u, us, f, rfl, fun v hv => (by cases hv), hf⟩
    · have hu : ∀ g, ¬u.Faulty ns g := fun g hg => hu ⟨g, hg⟩
      rcases ih with hsound | ⟨before, v, after, f, rfl, hbefore, hv⟩
      · exact .inl (List.forall_mem_cons.mpr ⟨hu, hsound⟩)
      · exact .inr ⟨u :: before, v, after, f, rfl, List.forall_mem_cons.mpr ⟨hu, hbefore⟩, hv⟩

end

/-- What parsing does with a text, of which `read` is what the grammar makes of it and `parsed` the
result. -/
structure Binds {α : Type} (ns : Namespaces) (uses : α → List Use)
    (read parsed : Except Fault α) : Prop where
  /-- In a result every test has the namespace of its qualifier, and every call its function. -/
  settled {a : α} : parsed = .ok a → ∀ u ∈ uses a, u.Settled ns
  /-- Only texts in which something is at fault are rejected. -/
  accepted {a : α} : read = .ok a → (∀ u ∈ uses a, ∀ f, ¬u.Faulty ns f) → ∃ b, parsed = .ok b
  /-- The first use at fault is the one that is reported. -/
  rejected {a : α} {before after : List Use} {u : Use} {f : Fault} : read = .ok a →
    uses a = before ++ u :: after → (∀ v ∈ before, ∀ g, ¬v.Faulty ns g) → u.Faulty ns f →
    parsed = .error f
  /-- With a qualifier that is not bound no text is accepted. The first such qualifier is reported,
  unless a call or a step to attributes is at fault before it. -/
  unbound {a : α} {before after : List Use} {t : NodeTest} {q : String} : read = .ok a →
    uses a = before ++ .test t :: after → t.qualifier? = some q → Unbound ns q →
    (∀ t' q', .test t' ∈ before → t'.qualifier? = some q' → ¬Unbound ns q') →
    parsed = .error (.unknownQualifier q) ∨
      ∃ u ∈ before, (∀ t', u ≠ .test t') ∧ ∃ f, u.Faulty ns f ∧ parsed = .error f

section
variable {α : Type} {ns : Namespaces} {uses : α → List Use} {read parsed : Except Fault α}

theorem map_eq_ok {β : Type} {g : α → β} {x : Except Fault α} {b : β} (h : x.map g = .ok b) :
    ∃ a, x = .ok a ∧ g a = b := by
  cases x with
  | ok a => exact ⟨a, rfl, Except.ok.inj h⟩
  | error f => cases h

theorem map_eq_error {β : Type} {g : α → β} {x : Except Fault α} {f : Fault}
    (h : x.map g = .error f) : x = .error f := by
  cases x with
  | ok a => cases h
  | error g => exact congrArg _ (Except.error.inj h)

/-- A parse binds if it settles the uses of what was read, one after the other. -/
theorem binds_of_settle (hread : ∀ b, parsed = .ok b → ∃ a, read = .ok a)
    (hbare : ∀ a, read = .ok a → Bare (uses a))
    (hsettle : ∀ a, read = .ok a → parsed.map uses = (uses a).mapM (Use.settle ns)) :
    Binds ns uses read parsed where
  settled {b} h w hw := by
    obtain ⟨a, ha⟩ := hread b h
    have hall := hsettle a ha
    rw [h] at hall
    obtain ⟨u, hu, hsettled⟩ := exists_of_mapM_settle hall.symm w hw
    exact Use.settled_of_settle hsettled fun l uri huse => hbare a ha l uri (huse ▸ hu)
  accepted {a} ha hsound := by
    obtain ⟨ws, hws⟩ := exists_mapM_settle hsound
    obtain ⟨b, hb, -⟩ := map_eq_ok ((hsettle a ha).trans hws)
    exact ⟨b, hb⟩
  rejected {a before after u f} ha huses hbefore hu := by
    have hall := hsettle a ha
    rw [huses, mapM_settle_fails hbefore hu] at hall
    exact map_eq_error hall
  unbound {a before after t q} ha huses hq hunbound hfirst := by
    have hall := hsettle a ha
    rw [huses] at hall
    have ht : Use.Faulty ns (.test t) (.unknownQualifier q) := .unknownQualifier hq hunbound
    rcases exists_first_fault ns before with hsound | ⟨b, u, c, f, rfl, hb, hu⟩
    · left
      rw [mapM_settle_fails hsound ht] at hall
      exact map_eq_error hall
    · right
      rw [List.append_assoc, List.cons_append, mapM_settle_fails hb hu] at hall
      refine ⟨u, by simp, fun t' htest => ?_, f, hu, map_eq_error hall⟩
      subst htest
      cases hu with
      | unknownQualifier hq' hunbound' => exact hfirst t' _ (by simp) hq' hunbound'

end

/-- Whatever the text and the namespaces, parsing binds every test of an expression and of a
pattern, at any depth. -/
theorem parsing_binds_every_test (ns : Namespaces) (text : String) :
    Binds ns Expr.uses (readExpr text) (parseExpr ns text) ∧
      Binds ns (Pattern.uses text) (readPattern text) (parsePattern ns text) := by
  constructor
  · refine binds_of_settle (fun b h => ?_) (fun a => bare_of_readExpr) fun a => uses_parseExpr
    obtain ⟨a, ha, -⟩ := bind_eq_ok_iff.mp h
    exact ⟨a, ha⟩
  · refine binds_of_settle (fun b h => ?_) (fun a => bare_of_readPattern) fun a =>
      uses_parsePattern
    obtain ⟨a, ha, -⟩ := bind_eq_ok_iff.mp h
    exact ⟨a, ha⟩

end StreamTransform.Path
