import StreamTransform.Proofs.Siblings

/-!
# Looking ahead for children

A start tag is held back until the next event other than text. What the text and
this event come to decides whether the element has children, and whatever input
follows cannot change it. The answer goes with the element to every dispatch and
stays with the activations that start there. An instruction of theirs that asks
for it at the element gets it, unless it asks inside of a predicate on an open
node further up: there the answer is always yes.
-/

namespace StreamTransform

/-! ## Children in a document -/

/-- The children in what follows the start of an element that has so many open elements inside. -/
def childrenFrom : Nat → List Mark → List Content
  | _, [] => []
  | 0, .close :: _ => []
  | depth + 1, .close :: r => childrenFrom depth r
  | depth, .node c :: r =>
    (if depth = 0 then [c] else []) ++ childrenFrom (if c.isElement then depth + 1 else depth) r

/-- The children of an element, given what follows its start tag in the document. -/
def childrenOf (following : List Mark) : List Content := childrenFrom 0 following

example (n : QName) : childrenOf [.node (.text "a"), .node (.element n []), .node (.text "b"),
    .close, .close, .node (.text "c")] = [.text "a", .element n []] := rfl

theorem childrenOf_node (c : Content) (r : List Mark) :
    (childrenOf (.node c :: r)).isEmpty = false := by
  simp [childrenOf, childrenFrom]

/-- However the input goes on, the element that follows on these steps has children or not. -/
def Foreseen (env : Environment) (is : List Input) (before : List Mark) (c : Content)
    (hasChildren : Bool) : Prop :=
  ∀ js, ∃ following, Input.document env.configuration (is ++ js) = before ++ .node c :: following ∧
    hasChildren = !(childrenOf following).isEmpty

section
variable {env : Environment} {c : Configuration} {is : List Input} {met before : List Mark}

theorem Foreseen.append {content : Content} {hasChildren : Bool}
    (h : Foreseen env is before content hasChildren) (js : List Input) :
    Foreseen env (is ++ js) before content hasChildren := fun ks => by
  rw [List.append_assoc]
  exact h (js ++ ks)

theorem marks_prefix_settle (r : Reading) : r.marks <+: r.settle c := by
  rw [settle_eq]
  exact List.prefix_append _ _

theorem marks_prefix_take (r : Reading) (i : Input) : r.marks <+: (r.take c i).marks := by
  cases i with
  | characters | parameter => exact List.prefix_rfl
  | startDocument | endDocument => exact marks_prefix_settle r
  | opening | closing | comment | instruction =>
    exact (marks_prefix_settle r).trans (List.prefix_append _ _)

/-- After an event other than text, further input only adds to the document. -/
theorem document_prefix_append (h : (Input.reading c is).text = "") (js : List Input) :
    Input.document c is <+: Input.document c (is ++ js) := by
  have hmarks : ∀ r : Reading, r.marks <+: (js.foldl (Reading.take c) r).marks := by
    induction js with
    | nil => exact fun r => List.prefix_rfl
    | cons i js ih => exact fun r => (marks_prefix_take r i).trans (ih _)
  have hsettled : Input.document c is = (Input.reading c is).marks := by
    rw [Input.document, settle_eq, h]
    simp [Input.counts]
  rw [hsettled, Input.document, Input.reading, Input.reading, List.foldl_append]
  exact (hmarks _).trans (marks_prefix_settle _)

end

/-! ## What the agenda says of children -/

/-- What follows the task that gives out what is held back: the end of the element, or something
that shows that the element goes on. -/
def FollowsFlush (closing : Bool) (rest : List Task) : Prop :=
  if closing then rest = [.leave]
  else rest = [.close .final, .endOutput] ∨ ∃ c r, marksAhead rest = .node c :: r

/-- The nodes on offer and those to be dispatched at the open nodes, each with what is said of its
children. -/
def atHand : List Task → List Event → List (Event × Bool)
  | [], _ => []
  | .offer e hasChildren :: ts, es => (e, hasChildren) :: atHand ts es
  | .dispatch _ _ hasChildren :: ts, e :: es => (e, hasChildren) :: atHand ts (e :: es)
  | .close _ :: ts, _ :: es | .unwind _ :: ts, _ :: es => atHand ts es
  | _ :: ts, es => atHand ts es

/-- Tasks that end a node. -/
def Task.ends : Task → Bool
  | .close _ | .unwind _ => true
  | _ => false

def Moment.atHand (m : Moment) : List (Event × Bool) :=
  StreamTransform.atHand m.agenda (m.state.nodes.map OpenNode.event)

section
variable {env : Environment} {t : Task} {ts rest post : List Task} {x x' : State}
  {es : List Event} {e : Event} {hasChildren closing : Bool}

theorem atHand_outer (h : Outer ts) (es : List Event) : atHand ts es = [] := by
  induction h with
  | final => cases es <;> simp [atHand]
  | flush closing _ ih => simpa [atHand] using ih
  | meet c hasChildren _ ih => simpa [atHand] using ih
  | _ => simp [atHand]

theorem atHand_enterGroups (gs : List GroupId) (ts : List Task) (es : List Event) :
    atHand (gs.map Task.enterGroup ++ ts) es = atHand ts es := by
  induction gs with
  | nil => rfl
  | cons g gs ih => simpa [atHand] using ih

/-- Only the end of a node takes an event off. -/
theorem mem_atHand_cons {p : Event × Bool} (ht : t.ends = false) (h : p ∈ atHand ts es) :
    p ∈ atHand (t :: ts) es := by
  cases t with
  | close | unwind => cases ht
  | dispatch => cases es <;> simp_all [atHand]
  | _ => simp_all [atHand]

theorem Turn.flush_notMem (h : Turn env t x ts x') (ht : t ≠ .conclude) :
    .flush closing ∉ ts := by
  cases h with
  | conclude => exact absurd rfl ht
  | begin => simp
  | flush c =>
    rcases x.pendingStart with - | p <;> rcases x.heldText env with - | u <;> simp
  | @offerOpened _ e => cases e.content.isElement <;> simp
  | @dispatchTemplate _ _ _ _ _ t => cases t.entered? <;> simp
  | _ => simp

/-- What follows the giving out stays what it was. -/
theorem Turn.followsFlush (h : Turn env t x ts x') (ho : Orderly true (t :: rest) x.nodes)
    (hs : ∀ closing post, .flush closing :: post <:+ t :: rest → FollowsFlush closing post)
    (hp : .flush closing :: post <:+ ts ++ rest) : FollowsFlush closing post := by
  have older : .flush closing :: post <:+ rest → FollowsFlush closing post := fun hr =>
    hs _ _ (hr.trans (List.suffix_cons t rest))
  obtain ⟨pre, hpre⟩ := hp
  rcases List.append_eq_append_iff.mp hpre with ⟨mid, hts, hmid⟩ | ⟨mid, -, hmid⟩
  · cases mid with
    | nil => exact older ⟨[], hmid⟩
    | cons u mid =>
      obtain ⟨rfl, hpost⟩ := List.cons.inj hmid
      have hmem : .flush closing ∈ ts := by simp [hts]
      by_cases ht : t = .conclude
      · subst ht
        cases ho.of_input rfl
        cases h with
        | conclude =>
          cases pre with
          | nil =>
            obtain ⟨hflush, hrest⟩ := List.cons.inj hts
            obtain rfl := Task.flush.inj hflush
            have hpost : post = mid := hpost.trans (List.append_nil mid)
            rw [hpost, ← hrest]
            exact .inl rfl
          | cons v pre =>
            exfalso
            have hin : Task.flush closing ∈ [Task.close .final, .endOutput] := by
              rw [(List.cons.inj hts).2]
              simp
            simp at hin
      · exact absurd hmem (h.flush_notMem ht)
  · exact older ⟨mid, hmid.symm⟩

/-- An element is met right after it was given out. -/
theorem Turn.meet_element (h : Turn env t x ts x') {c : Content}
    (hm : .meet c hasChildren ∈ ts) (hc : c.isElement) :
    ∃ closing n as, t = .flush closing ∧ x.pendingStart = some (n, as) ∧ c = .element n as ∧
      hasChildren = ((x.heldText env).isSome || !closing) ∧
      ts = .meet c hasChildren ::
        ((x.heldText env).map fun t => Task.meet (.text t) false).toList := by
  cases h with
  | flush closing =>
    rcases hp : x.pendingStart with - | ⟨n, as⟩ <;> rcases ht : x.heldText env with - | u <;>
      simp only [hp, ht, Option.map_none, Option.map_some, Option.toList_none, Option.toList_some,
        List.nil_append, List.append_nil, List.singleton_append, List.not_mem_nil,
        List.mem_cons, or_false, Task.meet.injEq] at hm
    · obtain ⟨rfl, -⟩ := hm
      cases hc
    · obtain ⟨rfl, rfl⟩ := hm
      exact ⟨closing, n, as, rfl, rfl, rfl, by simp, by simp⟩
    · rcases hm with ⟨rfl, rfl⟩ | ⟨rfl, -⟩
      · exact ⟨closing, n, as, rfl, rfl, rfl, by simp, by simp⟩
      · cases hc
  | begin => simp at hm
  | @offerOpened _ e => cases he : e.content.isElement <;> simp [he] at hm
  | @dispatchTemplate _ _ _ _ _ t => cases ht : t.entered? <;> simp [ht] at hm
  | _ => simp at hm

/-- What is at hand was at hand before, is met just now, is no element, or is the node of an
activation that hands it over. -/
theorem Turn.atHand_from (h : Turn env t x ts x') (ho : Orderly true (t :: rest) x.nodes)
    (hm : (e, hasChildren) ∈ atHand (ts ++ rest) (x'.nodes.map OpenNode.event)) :
    (e, hasChildren) ∈ atHand (t :: rest) (x.nodes.map OpenNode.event) ∨
      e.content.isElement = false ∨
      (∃ c n ns, t = .meet c hasChildren ∧ x.skipDepth = 0 ∧ x.nodes = n :: ns ∧
        e = (Event.register n.tally (.met x.serial c)).2) ∨
      ∃ a path, t = .run a ∧ a.isInitialiser = false ∧ a.hasChildren = hasChildren ∧
        x.nodes.map OpenNode.event = e :: path := by
  cases h with
  | begin =>
    cases ho.of_input rfl
    rw [List.append_nil, atHand_enterGroups] at hm
    obtain ⟨rfl, -⟩ : e = _ ∧ _ := by simpa [atHand] using hm
    exact .inr (.inl rfl)
  | conclude =>
    cases ho.of_input rfl
    rw [List.append_nil, atHand_outer (.flush _ .final)] at hm
    cases hm
  | flush closing =>
    have hr : Outer rest := by
      cases ho.of_input rfl with
      | flush _ hr => exact hr
    exfalso
    rcases hp : x.pendingStart with - | p <;> rcases ht : x.heldText env with - | u <;>
      simp [hp, ht, atHand, atHand_outer hr] at hm
  | leave =>
    cases ho.of_input rfl
    cases hn : x.nodes <;> simp [hn, atHand] at hm
  | meet hs hn =>
    have hr : Outer rest := by
      cases ho.of_input rfl with
      | meet _ _ hr => exact hr
    obtain ⟨rfl, rfl⟩ : e = _ ∧ _ := by simpa [atHand, atHand_outer hr] using hm
    exact .inr (.inr (.inl ⟨_, _, _, rfl, hs, hn, rfl⟩))
  | @offerOpened _ e' _ n ns g hn =>
    have hr := ho.of_offer
    refine .inl ?_
    cases he : e'.content.isElement <;>
      simpa [he, hn, OpenNode.fresh, atHand, atHand_outer hr] using hm
  | offerDeclined hn hw => exact .inl (by simpa [hn, atHand] using hm)
  | offerSkipped hn hw hchildren => exact .inl (mem_atHand_cons rfl hm)
  | @dispatchTemplate _ _ _ _ _ t' position ht =>
    refine .inl (mem_atHand_cons rfl ?_)
    cases hentered : t'.entered? <;> simpa [hentered, atHand] using hm
  | dispatchNothing => exact .inl (mem_atHand_cons rfl hm)
  | dispatchBuiltIn copied hn => exact .inl (mem_atHand_cons rfl (by simpa [hn] using hm))
  | runSelf fs g exclude hn hi =>
    simp only [List.cons_append, List.nil_append, List.map_cons, atHand, List.mem_cons,
      Prod.mk.injEq] at hm
    rcases hm with ⟨rfl, rfl⟩ | hold
    · exact .inr (.inr (.inr ⟨_, _, rfl, hi, rfl, by rw [hn]; rfl⟩))
    · exact .inl (mem_atHand_cons rfl (by rwa [hn]))
  | attributes =>
    simp only [List.cons_append, List.nil_append, List.map_cons, atHand, List.mem_cons,
      Prod.mk.injEq] at hm
    rcases hm with ⟨rfl, -⟩ | hold
    · exact .inr (.inl rfl)
    · exact .inl (mem_atHand_cons rfl hold)
  | unwindPopped hn hout => exact .inl (by simpa [hn, atHand, map_event_handOn] using hm)
  | closeClear _ =>
    left
    cases hn : x.nodes <;> simpa [hn, atHand] using hm
  | _ => exact .inl (by simp_all [atHand])

/-- A dispatch opens and closes nothing. -/
theorem Turn.events_of_dispatch {h : Handover} {exclude : List TemplateId}
    (hturn : Turn env (.dispatch h exclude hasChildren) x ts x') :
    x'.nodes.map OpenNode.event = x.nodes.map OpenNode.event := by
  cases hturn with
  | dispatchTemplate | dispatchNothing => rfl
  | dispatchBuiltIn copied hn => simp [hn]

theorem atHand_dispatch {h : Handover} {exclude : List TemplateId} {path : List Event}
    (hes : es = e :: path) :
    (e, hasChildren) ∈ atHand (.dispatch h exclude hasChildren :: rest) es := by
  rw [hes, atHand]
  exact List.mem_cons_self

/-- What is about to start on an element goes by what is at hand there, everything else under way
goes by what it started with. -/
theorem Turn.live_from (h : Turn env t x ts x') (ho : Orderly true (t :: rest) x.nodes)
    {a : Activation} {path : List Event} (ha : a.isInitialiser = false)
    (hm : ⟨a, e :: path⟩ ∈ live (ts ++ rest) x'.nodes) :
    (e, a.hasChildren) ∈ atHand (t :: rest) (x.nodes.map OpenNode.event) ∨
      ∃ a₀, SameStart a₀ a ∧ ⟨a₀, e :: path⟩ ∈ live (t :: rest) x.nodes := by
  have hmove := h.live_move ho
  generalize live (t :: rest) x.nodes = l, live (ts ++ rest) x'.nodes = l' at hm hmove
  have kept : ⟨a, e :: path⟩ ∈ l → (e, a.hasChildren) ∈ atHand (t :: rest)
      (x.nodes.map OpenNode.event) ∨ ∃ a₀, SameStart a₀ a ∧ ⟨a₀, e :: path⟩ ∈ l := fun hl =>
    .inr ⟨a, .refl a, hl⟩
  cases hmove with
  | kept => exact kept hm
  | template position _ ht =>
    rcases List.mem_cons.mp hm with heq | hold
    · obtain ⟨rfl, hpath⟩ := Entry.mk.inj heq
      exact .inl (atHand_dispatch (h.events_of_dispatch.symm.trans hpath.symm))
    · exact kept hold
  | builtIn copied _ hd =>
    rcases List.mem_cons.mp hm with heq | hold
    · obtain ⟨rfl, hpath⟩ := Entry.mk.inj heq
      exact .inl (atHand_dispatch (h.events_of_dispatch.symm.trans hpath.symm))
    · exact kept hold
  | initialiser passed _ hb =>
    rcases List.mem_cons.mp hm with heq | hold
    · obtain ⟨rfl, -⟩ := Entry.mk.inj heq
      cases ha
    · exact kept hold
  | advanced _ hadvances =>
    rcases List.mem_cons.mp hm with heq | hold
    · obtain ⟨rfl, rfl⟩ := Entry.mk.inj heq
      exact .inr ⟨_, hadvances.sameStart, List.mem_cons_self⟩
    · exact kept (List.mem_cons_of_mem _ hold)
  | resumed =>
    rcases List.mem_cons.mp hm with heq | hold
    · obtain ⟨rfl, rfl⟩ := Entry.mk.inj heq
      refine .inr ⟨_, ?_, List.mem_cons_self⟩
      exact ⟨rfl, rfl, rfl, rfl, rfl⟩
    · exact kept (List.mem_cons_of_mem _ hold)
  | ended | finished => exact kept (List.mem_cons_of_mem _ hm)

end

/-! ## Along a run -/

/-- What was said of the children of an element that was met is right. -/
def Judged (env : Environment) (is : List Input) (m : Moment) (e : Event) (hasChildren : Bool) :
    Prop :=
  ∃ before, MetAfter env is before e m ∧ Foreseen env is before e.content hasChildren

/-- Wherever the children of an element are spoken of, it is right what is said. -/
structure SpeaksRight (env : Environment) (is : List Input) (met : List Mark) (m : Moment) :
    Prop where
  flushed : ∀ closing post, .flush closing :: post <:+ m.agenda → FollowsFlush closing post
  /-- An element is met before anything else is. -/
  later : ∀ c hasChildren, .meet c hasChildren ∈ m.agenda.tail → c.isElement = false
  next : ∀ c hasChildren rest, m.agenda = .meet c hasChildren :: rest → c.isElement →
    Foreseen env is met c hasChildren
  atHand : ∀ e hasChildren, (e, hasChildren) ∈ m.atHand → e.content.isElement →
    Judged env is m e hasChildren
  live : ∀ a e path, ⟨a, e :: path⟩ ∈ m.live → a.isInitialiser = false → e.content.isElement →
    Judged env is m e a.hasChildren

section
variable {env : Environment} {is : List Input} {met : List Mark} {m m' : Moment} {i : Input}
  {t : Task} {ts rest : List Task} {s s' : State} {e : Event} {c : Content} {hasChildren : Bool}

theorem Judged.next (h : Judged env is m e hasChildren) (hn : Next env m m') (js : List Input) :
    Judged env (is ++ js) m' e hasChildren := by
  obtain ⟨before, hmet, hforeseen⟩ := h
  exact ⟨before, hmet.next hn, hforeseen.append js⟩

theorem Judged.task (h : Judged env is ⟨i, t :: rest, s⟩ e hasChildren)
    (hy : (t.perform env).Yields s ts s') : Judged env is ⟨i, ts ++ rest, s'⟩ e hasChildren := by
  simpa using h.next (.task hy) []

/-- Inputs begin with what may follow a start tag that is held back. -/
theorem followsFlush_of_tasks {closing : Bool} {post : List Task}
    (h : .flush closing :: post <:+ i.tasks) : FollowsFlush closing post := by
  cases i <;> simp only [Input.tasks, List.suffix_cons_iff, List.suffix_nil, List.cons.injEq,
    Task.flush.injEq, reduceCtorEq, false_and, or_false, false_or] at h
  all_goals obtain ⟨rfl, rfl⟩ := h
  · exact .inr ⟨_, _, rfl⟩
  · rfl
  · exact .inr ⟨_, _, rfl⟩
  · exact .inr ⟨_, _, rfl⟩

/-- The end of the document finds no start tag held back. -/
theorem pendingStart_of_concluding
    (h : Reached env ⟨i, [.flush false, .close .final, .endOutput], s⟩) :
    s.pendingStart = none := by
  have hsound := sound_of_reached h
  obtain rfl : i = .endDocument := (concluding_of_reached h).only (by simp)
  have hopen : s.inputOpen = [] := by
    rcases hsound.ended rfl with hconclude | hnone
    · simp at hconclude
    · exact hnone
  rcases hsound.stage (spined_of_reached h) with hbegin | hend | hspined
  · cases hbegin
  · cases hend
  · exact (root_of_spined hspined rfl rfl hopen).2.2

/-- Where an element is given out, the event that made it so shows whether it has children. -/
theorem foreseen_of_flush {closing : Bool} {n : QName} {as : List Attribute}
    (h : Fed env is met ⟨i, .flush closing :: rest, s⟩) (hp : s.pendingStart = some (n, as))
    (hf : FollowsFlush closing rest) :
    Foreseen env is met (.element n as) ((s.heldText env).isSome || !closing) := by
  intro js
  have hinOrder := inOrder_of_fed h
  obtain ⟨more, hmore⟩ := document_prefix_append (hinOrder.settled (by simp)) js
  have hwhole := hinOrder.whole
  simp only [State.heldMarks, hp, marksAhead_cons, Task.marks, Option.map_some,
    Option.toList_some, List.nil_append] at hwhole
  refine ⟨((s.heldText env).map fun t => Mark.node (.text t)).toList ++ marksAhead rest ++ more,
    ?_, ?_⟩
  · rw [← hmore, ← hwhole]
    simp
  · cases ht : s.heldText env with
    | some t => simp [childrenOf_node]
    | none =>
      cases closing with
      | true =>
        obtain rfl : rest = [.leave] := hf
        rfl
      | false =>
        rcases hf with rfl | ⟨c, r, hr⟩
        · have hnone := pendingStart_of_concluding h.reached
          rw [hp] at hnone
          cases hnone
        · simp [hr, childrenOf_node]

theorem speaksRight_take (hl : (Moment.take i s).live = live [] s.nodes)
    (hlive : ∀ a e path, ⟨a, e :: path⟩ ∈ live [] s.nodes → a.isInitialiser = false →
      e.content.isElement → Judged env is (.take i s) e a.hasChildren) :
    SpeaksRight env is met (.take i s) where
  flushed _ _ := followsFlush_of_tasks
  later c hasChildren hc := by cases i <;> simp_all [Moment.take, Input.tasks, Content.isElement]
  next c hasChildren rest hc := by cases i <;> simp [Moment.take, Input.tasks] at hc
  atHand e hasChildren he := by
    rw [Moment.atHand, Moment.take, atHand_outer i.outer_tasks] at he
    cases he
  live a e path ha := hlive a e path (hl ▸ ha)

theorem SpeaksRight.task (h : SpeaksRight env is met ⟨i, t :: rest, s⟩)
    (hf : Fed env is met ⟨i, t :: rest, s⟩) (hy : (t.perform env).Yields s ts s') :
    SpeaksRight env is (met ++ t.meets) ⟨i, ts ++ rest, s'⟩ := by
  have ho := (sound_of_reached hf.reached).orderly
  have hturn := Turn.of_yields hy
  constructor
  case flushed => exact fun closing post => hturn.followsFlush ho h.flushed
  case later =>
    intro c hasChildren hc
    cases ts with
    | nil => exact h.later c hasChildren (List.mem_of_mem_tail hc)
    | cons u us =>
      rcases List.mem_append.mp hc with hnew | hold
      · cases hel : c.isElement with
        | false => rfl
        | true =>
          have hmeet := hturn.meet_element (List.mem_cons_of_mem u hnew) hel
          obtain ⟨_, n, as, -, -, rfl, -, hts⟩ := hmeet
          obtain ⟨-, rfl⟩ := List.cons.inj hts
          simp at hnew
      · exact h.later c hasChildren hold
  case next =>
    intro c hasChildren rest' hc hel
    cases ts with
    | nil =>
      have hmem : .meet c hasChildren ∈ rest := by
        rw [show rest = _ from hc]
        exact List.mem_cons_self
      rw [h.later c hasChildren hmem] at hel
      cases hel
    | cons u us =>
      obtain ⟨rfl, -⟩ := List.cons.inj hc
      obtain ⟨closing, n, as, rfl, hp, rfl, rfl, -⟩ := hturn.meet_element List.mem_cons_self hel
      have hmeets : met ++ (Task.flush closing).meets = met := List.append_nil met
      rw [hmeets]
      have hforeseen := foreseen_of_flush hf hp (h.flushed _ _ List.suffix_rfl)
      exact hforeseen
  case atHand =>
    intro e hasChildren he hel
    rcases hturn.atHand_from ho he with hold | hno | ⟨c, n, ns, rfl, hs, hn, rfl⟩ |
      ⟨a, path, rfl, ha, rfl, hpath⟩
    · exact (h.atHand e hasChildren hold hel).task hy
    · rw [hno] at hel
      cases hel
    · have hforeseen := h.next c hasChildren rest rfl hel
      refine ⟨met, ?_, hforeseen⟩
      exact ⟨is, i, hasChildren, rest, s, List.prefix_rfl, hf, hs, rfl,
        .next (.refl trivial) (.task hy) trivial⟩
    · have hlive : ⟨a, e :: path⟩ ∈ (⟨i, .run a :: rest, s⟩ : Moment).live := by
        rw [Moment.live, live_run, show s.nodes.map OpenNode.event = _ from hpath]
        exact List.mem_cons_self
      exact (h.live a e path hlive ha hel).task hy
  case live =>
    intro a e path ha hrole hel
    rcases hturn.live_from ho hrole ha with hold | ⟨a₀, hsame, hold⟩
    · exact (h.atHand e _ hold hel).task hy
    · have hrole₀ : a₀.isInitialiser = false := by
        rw [← hrole, Activation.isInitialiser, Activation.isInitialiser, hsame.role]
      rw [hsame.hasChildren]
      exact (h.live a₀ e path hold hrole₀ hel).task hy

/-- It is right at every moment. -/
theorem speaksRight_of_fed (h : Fed env is met m) : SpeaksRight env is met m := by
  induction h with
  | first i _ =>
    refine speaksRight_take (live_take_initial i) ?_
    intro a e path ha
    simp [State.initial, parkedEntries] at ha
  | task hf hy ih => exact ih.task hf hy
  | @call is met m i hf hd ha ih =>
    have hlive : (Moment.take i m.settled).live = live [] m.settled.nodes := by
      rw [live_call i hd, Moment.live, hd]
      rfl
    refine speaksRight_take hlive ?_
    intro a e path hmem hrole hel
    rw [← hlive, live_call i hd] at hmem
    exact (ih.live a e path hmem hrole hel).next (.call i hd ha) [i]

end

/-! ## What an instruction is told -/

namespace Path

/-- What is seen inside of predicates that are judged at these depths, the outermost first. -/
def Context.judging (ctx : Context) (judged : List (Nat × Nat)) : Context :=
  judged.foldl (fun ctx p => ctx.seenFrom p.1 p.2) ctx

theorem Context.children_judging (ctx : Context) (judged : List (Nat × Nat)) :
    (ctx.judging judged).depth = ctx.depth ∧ (ctx.judging judged).hasChildNodes =
      (ctx.hasChildNodes || judged.any fun p => p.1 < ctx.depth) := by
  induction judged generalizing ctx with
  | nil => simp [judging]
  | cons p ps ih =>
    obtain ⟨hdepth, hchildren⟩ := ih (ctx.seenFrom p.1 p.2)
    refine ⟨hdepth, hchildren.trans ?_⟩
    have hsame : (ctx.seenFrom p.1 p.2).depth = ctx.depth := rfl
    rw [hsame, seenFrom, List.any_cons, Bool.or_comm (decide (p.1 < ctx.depth)), Bool.or_assoc]

theorem evaluate_hasChildNodes (ctx : Context) (top : Nat) :
    (Expr.call Function.hasChildNodes.title []).evaluate ctx top =
      .ok (.boolean (top < ctx.depth || ctx.hasChildNodes)) := rfl

end Path

/-- At its node, an instruction learns what its activation started with. Inside of predicates, a
node further up that is judged on the way makes the answer yes. -/
structure ToldOfChildren (env : Environment) (s : State) (a : Activation) (f : Frame) : Prop where
  outside : ∀ v s', (Operation.evaluate env a f
    (.call Path.Function.hasChildNodes.title [])).Yields s v s' ↔
      v = .boolean a.hasChildren ∧ s' = s
  inside : ∀ judged, (Path.Expr.call Path.Function.hasChildNodes.title []).evaluate
    ((s.context env.program a f).judging judged) a.depth =
      .ok (.boolean (a.hasChildren || judged.any fun p => p.1 < a.depth))

theorem toldOfChildren {env : Environment} {s : State} {a : Activation} (h : a.depth = s.depth)
    (f : Frame) : ToldOfChildren env s a f := by
  have hdepth : (s.context env.program a f).depth = a.depth := by
    simp [h, Path.Context.depth, State.context, State.path, State.depth]
  have hinside : ∀ judged, (Path.Expr.call Path.Function.hasChildNodes.title []).evaluate
      ((s.context env.program a f).judging judged) a.depth =
        .ok (.boolean (a.hasChildren || judged.any fun p => p.1 < a.depth)) := by
    intro judged
    obtain ⟨hsame, hchildren⟩ := (s.context env.program a f).children_judging judged
    rw [Path.evaluate_hasChildNodes, hsame, hchildren, hdepth]
    simp [State.context]
  have houtside := hinside []
  rw [Path.Context.judging, List.foldl_nil, List.any_nil, Bool.or_false] at houtside
  refine ⟨fun v s' => ?_, hinside⟩
  simp only [Operation.evaluate, Operation.yields_bind, Operation.yields_get]
  constructor
  · rintro ⟨_, _, ⟨rfl, rfl⟩, hy⟩
    rw [houtside] at hy
    exact Operation.yields_pure.mp hy
  · rintro ⟨rfl, rfl⟩
    refine ⟨s', s', ⟨rfl, rfl⟩, ?_⟩
    rw [houtside]
    exact Operation.yields_pure.mpr ⟨rfl, rfl⟩

/-- On a node without children: its parent is found by a predicate that says it has some, and the
node itself is not. -/
example : let parent := Event.met 1 (.element (.simple "a") [])
    let ctx := ⟨[.met 0 .root, parent, .met 2 (.element (.simple "b") [])], fun _ => none, 1, false⟩
    let asked := Path.Step.mk .child .wildcard [.call Path.Function.hasChildNodes.title []]
    (Path.Expr.path true [.mk .child .wildcard [.path false [asked]]]).evaluate ctx 3 =
        .ok ⟨[.node ⟨parent, 2⟩]⟩ ∧
      (Path.Expr.path true [.mk .child .wildcard [], asked]).evaluate ctx 3 = .ok ⟨[]⟩ :=
  ⟨rfl, rfl⟩

/-- The look-ahead for children is exact, up to questions inside of predicates. -/
structure LooksAhead (env : Environment) : Prop where
  fed : ∀ m, Reached env m → ∃ is met, Fed env is met m
  /-- An element is dispatched with what the document shows of its children. -/
  dispatched : ∀ is met m h exclude hasChildren rest e path, Fed env is met m →
    m.agenda = .dispatch h exclude hasChildren :: rest →
    m.state.nodes.map OpenNode.event = e :: path → e.content.isElement →
    Judged env is m e hasChildren
  /-- The answer stays with the activations on the element until they end. -/
  kept : ∀ is met m a e path, Fed env is met m → ⟨a, e :: path⟩ ∈ m.live →
    a.isInitialiser = false → e.content.isElement → Judged env is m e a.hasChildren
  told : ∀ m a rest f, Reached env m → m.agenda = .run a :: rest →
    ToldOfChildren env m.state a f

theorem looks_ahead_for_children (env : Environment) : LooksAhead env where
  fed _ h := exists_fed h
  dispatched is met m h exclude hasChildren rest e path hf ha hpath hel := by
    refine (speaksRight_of_fed hf).atHand e hasChildren ?_ hel
    rw [Moment.atHand, ha]
    exact atHand_dispatch hpath
  kept is met m a e path hf hl hrole hel := (speaksRight_of_fed hf).live a e path hl hrole hel
  told m a rest f hm ha := by
    have hlive : m.live = [] ++ ⟨a, m.state.nodes.map OpenNode.event⟩ ::
        live rest m.state.nodes := by
      rw [Moment.live, ha, live_run, List.nil_append]
    exact toldOfChildren (startedBefore hm hlive).1 f

end StreamTransform
