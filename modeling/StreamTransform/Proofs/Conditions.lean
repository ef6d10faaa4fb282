import StreamTransform.Proofs.Occurrence
import StreamTransform.Proofs.Waiters

/-!
# Conditions on siblings

A waiter judges a node before it is the current one, from a context made for
the purpose. What its patterns see there is what the patterns of templates see
once the node is current, but for two things: the local variables of the body
that waits, and that the node is taken to have no children. So the two agree on
every pattern that asks for neither.
-/

namespace StreamTransform

namespace Path

/-! ## Patterns -/

/-- The expressions in the predicates of a pattern. -/
def PathPattern.parts (p : PathPattern) : List Expr :=
  p.steps.flatMap fun s => partsOfAll s.predicates

def Pattern.parts (p : Pattern) : List Expr := p.alternatives.flatMap PathPattern.parts

section
variable {ctx ctx' : Context} {top : Nat}

theorem PatternStep.holdsAt_congr (s : PatternStep) (h : Agree ctx ctx' (partsOfAll s.predicates))
    (depth : Nat) : s.holdsAt ctx depth = s.holdsAt ctx' depth := by
  have hholds position :=
    holdAll_congr depth position s.predicates (h.seenFrom depth position)
  simp only [PatternStep.holdsAt, h.event?_eq, hholds]

theorem matchUpwards_congr (absolute : Bool) :
    ∀ (steps : List PatternStep), (∀ s ∈ steps, Agree ctx ctx' (partsOfAll s.predicates)) →
      ∀ depth, matchUpwards absolute ctx steps depth = matchUpwards absolute ctx' steps depth
  | [], _, _ => rfl
  | [s], h, depth => by
    have hs := s.holdsAt_congr (h s List.mem_cons_self) depth
    simp only [matchUpwards, hs]
  | s :: t :: r, h, depth => by
    have hs := s.holdsAt_congr (h s List.mem_cons_self) depth
    have hrest : matchUpwards absolute ctx (t :: r) = matchUpwards absolute ctx' (t :: r) :=
      funext (matchUpwards_congr absolute (t :: r) fun u hu => h u (List.mem_cons_of_mem _ hu))
    simp only [matchUpwards, hs, hrest]

theorem PathPattern.match?_congr (p : PathPattern) (h : Agree ctx ctx' p.parts) (top : Nat) :
    p.match? ctx top = p.match? ctx' top := by
  have hsteps : ∀ s ∈ p.steps.reverse, Agree ctx ctx' (partsOfAll s.predicates) := by
    intro s hs
    refine h.mono fun e he => ?_
    exact List.mem_flatMap.mpr ⟨s, List.mem_reverse.mp hs, he⟩
  unfold PathPattern.match?
  rw [h.nodeAt_eq]
  split
  · rfl
  · rename_i last r hlast
    rw [hlast] at hsteps
    rw [matchUpwards_congr p.absolute _ hsteps]

end

/-- Where no alternative is at fault, there is a match just if some alternative holds. -/
theorem firstMatch?_of_sound {ctx : Context} {top : Nat} {ps : List PathPattern}
    {holds : PathPattern → Bool}
    (h : ∀ p ∈ ps, ∃ m, p.match? ctx top = .ok m ∧ m.isSome = holds p) :
    ∃ m, firstMatch? ctx top ps = .ok m ∧ m.isSome = ps.any holds := by
  induction ps with
  | nil => exact ⟨none, rfl, rfl⟩
  | cons p ps ih =>
    obtain ⟨m, hp, hholds⟩ := h p List.mem_cons_self
    obtain ⟨m', hps, hsome⟩ := ih fun q hq => h q (List.mem_cons_of_mem _ hq)
    rw [firstMatch?, hp, List.any_cons, ← hholds, ← hsome]
    cases m with
    | some position => exact ⟨some position, rfl, rfl⟩
    | none => exact ⟨m', hps, rfl⟩

end Path

/-! ## Two contexts for one node -/

/-- The body that waits. -/
def SiblingWait.frame? (w : SiblingWait) : Option Frame :=
  w.activations.head?.bind fun a => a.frames.head?

/-- The scopes of the local variables of the body that waits. -/
def SiblingWait.scopes (w : SiblingWait) : List Bindings := (w.frame?.map Frame.scopes).getD []

/-- The group of the body that waits. -/
def SiblingWait.group (w : SiblingWait) (r : SiblingRequest) : GroupId :=
  (w.frame?.map Frame.group).getD r.handover.group

/-- The match at the current node that a template of a group with this pattern would have. -/
def State.tryPath (s : State) (p : Program) (g : GroupId) (hasChildren : Bool)
    (q : Path.PathPattern) : Except Path.Fault (Option Nat) :=
  q.match? (s.patternContext p g hasChildren) s.depth

/-- Whether one of the templates of a group with this pattern would match the current node. -/
def State.wouldMatch (s : State) (p : Program) (g : GroupId) (hasChildren : Bool)
    (q : Path.Pattern) : Bool :=
  q.alternatives.any fun a => isMatch (s.tryPath p g hasChildren a)

section
variable {env : Environment} {s s' : State} {w : SiblingWait} {r : SiblingRequest} {e : Event}
  {q : Path.Pattern} {hasChildren known : Bool} {ts : List Task}

/-- What a waiter shows to its conditions is what templates are shown later. -/
theorem agree_waitContext {h : Handover} {es : List Path.Expr}
    (hopen : (Operation.openChild e h hasChildren).Yields s ts s')
    (hlocals : ∀ n, .reference n ∈ es → findInScopes w.scopes n = none)
    (hknown : known = true → ∀ args, .call Path.Function.hasChildNodes.title args ∉ es) :
    Path.Agree (Operation.waitContext env s w r e)
      (s'.patternContext env.program (w.group r) known) es := by
  obtain ⟨-, rfl⟩ := Operation.yields_openChild.mp hopen
  constructor
  case ancestors =>
    change s.path ++ [e] = (OpenNode.fresh e :: s.nodes).reverse.map OpenNode.event
    rw [List.reverse_cons, List.map_append]
    rfl
  case position => rfl
  case lookup =>
    intro n hn
    have hnone := hlocals n hn
    change (findInScopes w.scopes n).or (findInGroups s.frames _ n) =
      (findInScopes [] n).or (findInGroups s.frames _ n)
    rw [hnone]
    rfl
  case children =>
    intro args hargs
    cases known with
    | false => rfl
    | true => exact absurd hargs (hknown rfl args)

/-- The request is for siblings, with these conditions. -/
def SiblingRequest.HasConditions (r : SiblingRequest) (p : Program)
    (whilst till : Option Path.Pattern) : Prop :=
  ∃ d, p.code[r.instruction]?.map Node.instruction = some (.act (.processSiblings d whilst till))

theorem Operation.accepts_of_sound {whilst till : Option Path.Pattern} {ctx : Path.Context}
    {holds : Path.Pattern → Bool}
    (h : ∀ q ∈ whilst.toList ++ till.toList,
      ∃ m, q.match? ctx ctx.depth = .ok m ∧ m.isSome = holds q) :
    accepts whilst till ctx = .ok (whilst.all holds && !till.any holds) := by
  have hlast (q : Path.Pattern) (hq : till = some q) : (do
      pure (← q.match? ctx ctx.depth).isNone : Except Path.Fault Bool) = .ok !holds q := by
    obtain ⟨m, hm, hholds⟩ := h q (by simp [hq])
    rw [hm, ← hholds]
    cases m <;> rfl
  unfold accepts
  cases whilst with
  | none =>
    cases till with
    | none => rfl
    | some q => exact hlast q rfl
  | some q =>
    obtain ⟨m, hm, hholds⟩ := h q (by simp)
    dsimp only
    rw [hm, Option.all_some, ← hholds]
    cases m with
    | none => rfl
    | some position =>
      cases till with
      | none => rfl
      | some q => exact hlast q rfl

/-- A waiter accepts a node just if the one condition would match it and the other would not, as
patterns of templates in its group are matched once the node is the current one. So it is as long as
these are told that the node has no children, which is what the waiter takes for granted, or as no
condition asks. -/
theorem sibling_conditions_agree {whilst till : Option Path.Pattern}
    (hr : r.HasConditions env.program whilst till)
    (hopen : (Operation.openChild e r.handover hasChildren).Yields s ts s')
    (hlocals : ∀ q ∈ whilst.toList ++ till.toList, ∀ n, .reference n ∈ q.parts →
      findInScopes w.scopes n = none)
    (hknown : known = true → ∀ q ∈ whilst.toList ++ till.toList, ∀ args,
      .call Path.Function.hasChildNodes.title args ∉ q.parts)
    (hsound : ∀ q ∈ whilst.toList ++ till.toList, ∀ a ∈ q.alternatives,
      ∃ m, s'.tryPath env.program (w.group r) known a = .ok m) :
    (Operation.takes env w r e).Yields s
      (whilst.all (s'.wouldMatch env.program (w.group r) known) &&
        !till.any (s'.wouldMatch env.program (w.group r) known)) s := by
  obtain ⟨d, hcode⟩ := hr
  generalize hctx : Operation.waitContext env s w r e = ctx
  have hagree : ∀ q ∈ whilst.toList ++ till.toList,
      Path.Agree ctx (s'.patternContext env.program (w.group r) known) q.parts := fun q hq =>
    hctx ▸ agree_waitContext hopen (hlocals q hq) fun hk => hknown hk q hq
  have haccepts : Operation.accepts whilst till ctx =
      .ok (whilst.all (s'.wouldMatch env.program (w.group r) known) &&
        !till.any (s'.wouldMatch env.program (w.group r) known)) := by
    refine Operation.accepts_of_sound fun q hq => ?_
    have hdepth : ctx.depth = s'.depth := by
      rw [(hagree q hq).depth_eq]
      simp [Path.Context.depth, State.patternContext, State.path, State.depth]
    have htry : ∀ a ∈ q.alternatives,
        a.match? ctx ctx.depth = s'.tryPath env.program (w.group r) known a := by
      intro a ha
      rw [hdepth]
      refine a.match?_congr ((hagree q hq).mono fun _ he => ?_) _
      exact List.mem_flatMap.mpr ⟨a, ha, he⟩
    refine Path.firstMatch?_of_sound fun a ha => ?_
    obtain ⟨m, hm⟩ := hsound q hq a ha
    exact ⟨m, (htry a ha).trans hm, by rw [hm]; rfl⟩
  rw [Operation.takes, hcode]
  rw [Operation.yields_get_bind, hctx]
  dsimp only
  rw [haccepts]
  exact Operation.yields_pure.mpr ⟨rfl, rfl⟩

end

/-- Elements of one name with children. -/
def filledItem : Path.Pattern :=
  .single ⟨false, [⟨.name none "item" "", false, false,
    [.call Path.Function.hasChildNodes.title []]⟩]⟩

/-- One instruction, which waits for such elements. -/
def waiting : Environment :=
  ⟨{ code := #[⟨.act (.processSiblings ⟨none, []⟩ (some filledItem) none), .unknown, none⟩]
     templates := #[]
     procedures := #[]
     groups := #[{ (default : Group) with ancestry := [Program.rootGroup] }]
     globals := [] }, {}, .plain fun _ => none⟩

def waitingRequest : SiblingRequest := ⟨⟨Program.rootGroup, []⟩, 0⟩

def waiter : SiblingWait :=
  ⟨.met 1 (.element (.simple "first") []),
    [{ Activation.start (.template 0) 2 1 false [.start Program.rootGroup 0 []] with
        phase := .awaitingSiblings waitingRequest }]⟩

def offeredItem : Event := .met 2 (.element (.simple "item") [])

/-- The parent of the waiter and of the element that follows. -/
def atParent : State :=
  { State.initial waiting.program with nodes := [.fresh (.met 0 .root)] }

/-- The element, once it is the current node. -/
def atOffered : State :=
  ({ atParent with nodes := .fresh offeredItem :: atParent.nodes }).after
    (.noted (.enterNode offeredItem (atParent.depth + 1)))

/-- A waiter for elements with children declines one, which a template would match. -/
theorem sibling_conditions_agree_filled :
    (Operation.takes waiting waiter waitingRequest offeredItem).Yields atParent false atParent ∧
      atOffered.wouldMatch waiting.program (waiter.group waitingRequest) true filledItem := by
  have hr : waitingRequest.HasConditions waiting.program (some filledItem) none := ⟨_, rfl⟩
  have hopen : (Operation.openChild offeredItem waitingRequest.handover true).Yields atParent
      _ atOffered := Operation.yields_openChild.mpr ⟨rfl, rfl⟩
  have hlocals : ∀ q ∈ [filledItem], ∀ n, .reference n ∈ q.parts →
      findInScopes waiter.scopes n = none := fun _ _ _ _ => rfl
  have hsound : ∀ q ∈ [filledItem], ∀ a ∈ q.alternatives, ∃ m,
      atOffered.tryPath waiting.program (waiter.group waitingRequest) false a = .ok m := by
    intro q hq a ha
    obtain rfl := List.mem_singleton.mp hq
    obtain rfl := List.mem_singleton.mp ha
    exact ⟨none, rfl⟩
  have hdeclined : ((some filledItem).all
        (atOffered.wouldMatch waiting.program (waiter.group waitingRequest) false) &&
      !(none : Option Path.Pattern).any
        (atOffered.wouldMatch waiting.program (waiter.group waitingRequest) false)) = false := by
    decide +kernel
  have hjudged := sibling_conditions_agree hr hopen hlocals (fun h => by cases h) hsound
  exact ⟨hdeclined ▸ hjudged, by decide +kernel⟩

end StreamTransform
