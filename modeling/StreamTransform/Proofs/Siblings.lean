import StreamTransform.Proofs.Recursion
import StreamTransform.Proofs.Selection
import StreamTransform.Proofs.Tallies

/-!
# Positions among siblings

The groups a child is counted in are exactly those of the node tests that accept
it. So the position that an activation is given is its node's place among the
siblings that satisfy the last step of the pattern by which its template was
chosen, and it keeps this position until it ends.
-/

namespace StreamTransform

/-- A node that stands among siblings: neither the root nor an attribute. -/
def Content.isChild : Content → Bool
  | .root | .attr .. => false
  | .element .. | .text _ | .comment _ | .instruction .. => true

namespace Path

/-! ## Node tests and groups -/

/-- The children counted in the group of a test are those that satisfy it. -/
theorem NodeTest.mem_groups_iff (test : NodeTest) (c : Content) :
    test.group ∈ c.groups ↔ test.accepts c .child = true := by
  cases test with
  | instruction target =>
    cases c with
    | instruction t data =>
      cases target with
      | none => simp [group, Content.groups, accepts]
      | some s =>
        simp only [group, Content.groups, accepts]
        simp [@eq_comm _ s]
    | _ => simp [group, Content.groups, accepts]
  | name q l uri =>
    cases c with
    | element n as =>
      simp only [group, Content.groups, accepts, isPrincipal, Content.isElement, Content.name?]
      simp [and_comm, @eq_comm _ uri, @eq_comm _ l]
    | _ => simp [group, Content.groups, accepts, isPrincipal, Content.isElement]
  | anyNamespace l =>
    cases c with
    | element n as =>
      simp only [group, Content.groups, accepts, isPrincipal, Content.isElement, Content.name?]
      simp [@eq_comm _ l]
    | _ => simp [group, Content.groups, accepts, isPrincipal, Content.isElement]
  | inNamespace q uri =>
    cases c with
    | element n as =>
      simp only [group, Content.groups, accepts, isPrincipal, Content.isElement, Content.name?]
      simp [@eq_comm _ uri]
    | _ => simp [group, Content.groups, accepts, isPrincipal, Content.isElement]
  | _ => cases c <;> simp [group, Content.groups, accepts, isPrincipal, Content.isElement]

/-- A test with an at sign accepts no child that it would not accept without. -/
theorem NodeTest.accepts_child {test : NodeTest} {c : Content} {axis : Axis}
    (h : test.accepts c axis = true) (hc : c.isChild) : test.accepts c .child = true := by
  cases c with
  | root | attr => cases hc
  | element | text | comment | instruction =>
    cases test <;> cases axis <;>
      simp_all [accepts, isPrincipal, Content.isElement, Content.isAttribute]

theorem membersOf_group (test : NodeTest) (l : List Content) :
    membersOf l test.group = l.countP fun c => test.accepts c .child := by
  apply List.countP_congr
  intro c _
  rw [List.contains_iff_mem, test.mem_groups_iff]

/-! ## The step that gives a position -/

section
variable {ctx : Context} {top position depth : Nat} {e : Event} {s : PatternStep}
  {r : List PatternStep} {absolute : Bool}

theorem holdsAt_of_matchUpwards (h : matchUpwards absolute ctx (s :: r) depth = .ok true) :
    s.holdsAt ctx depth = .ok true := by
  cases hs : s.holdsAt ctx depth with
  | error f => cases r <;> simp [matchUpwards, hs, Bind.bind, Except.bind] at h
  | ok held =>
    cases held with
    | true => rfl
    | false => cases r <;> simp [matchUpwards, hs, Bind.bind, Except.bind] at h

theorem PatternStep.accepts_on_axis (he : ctx.event? depth = some e)
    (h : s.holdsAt ctx depth = .ok true) : ∃ axis, s.test.accepts e.content axis = true := by
  by_cases ht : s.test.accepts e.content (if s.isAttribute then .attributes else .child)
  · exact ⟨_, ht⟩
  · simp [PatternStep.holdsAt, he, ht] at h

/-- The position that a match gives a child is its position in the group of the last test. -/
theorem PathPattern.last_of_match {q : PathPattern} (h : q.match? ctx top = .ok (some position))
    (he : ctx.event? top = some e) (hc : e.content.isChild) :
    ∃ last, q.steps.getLast? = some last ∧ last.test.accepts e.content .child = true ∧
      position = e.positionOf last.test.group := by
  rw [← List.reverse_reverse q.steps, List.getLast?_reverse]
  unfold PathPattern.match? at h
  cases hs : q.steps.reverse with
  | nil =>
    simp only [hs] at h
    split at h
    · rename_i htop
      subst htop
      have hroot : e.content ≠ .root := by
        intro hroot
        rw [hroot] at hc
        cases hc
      simp [Context.nodeAt, he, hroot, Bind.bind, Except.bind] at h
    · cases h
  | cons last r =>
    simp only [hs] at h
    cases hm : matchUpwards q.absolute ctx (last :: r) top with
    | error f =>
      rw [hm] at h
      cases h
    | ok b =>
      simp only [hm, Bind.bind, Except.bind, Context.nodeAt, he] at h
      cases b with
      | false => cases h
      | true =>
        cases h
        obtain ⟨axis, haccepts⟩ :=
          PatternStep.accepts_on_axis he (holdsAt_of_matchUpwards hm)
        exact ⟨last, rfl, NodeTest.accepts_child haccepts hc, rfl⟩

end

end Path

/-! ## Events in play -/

/-- The event of an open node and those of the closed children at which somebody waits. -/
def OpenNode.events (n : OpenNode) : List Event := n.event :: n.waits.map SiblingWait.event

/-- The event that a task offers. -/
def Task.event? : Task → Option Event
  | .offer e _ => some e
  | _ => none

/-- Every event that is on offer, open or waited at. -/
def eventsInPlay (ts : List Task) (ns : List OpenNode) : List Event :=
  ts.filterMap Task.event? ++ ns.flatMap OpenNode.events

section
variable {env : Environment} {t : Task} {ts rest : List Task} {x x' : State} {ns : List OpenNode}
  {e : Event} {en : Entry}

theorem mem_events_of_map (h : e ∈ ns.map OpenNode.event) : e ∈ ns.flatMap OpenNode.events := by
  obtain ⟨n, hn, rfl⟩ := List.mem_map.mp h
  exact List.mem_flatMap.mpr ⟨n, hn, List.mem_cons_self⟩

theorem OpenNode.mem_path_of_entries {n : OpenNode} (h : en ∈ n.entries ns) : ∀ e ∈ en.path,
    e ∈ (n :: ns).flatMap OpenNode.events := by
  intro e he
  have above : e ∈ n.event :: ns.map OpenNode.event → e ∈ (n :: ns).flatMap OpenNode.events :=
    @mem_events_of_map (n :: ns) e
  rcases List.mem_append.mp h with h | h
  · obtain ⟨w, hw, h⟩ := List.mem_flatMap.mp h
    obtain ⟨a, -, rfl⟩ := List.mem_map.mp h
    rcases List.mem_cons.mp he with rfl | he
    · exact List.mem_append_left _ (List.mem_cons_of_mem _ (List.mem_map_of_mem hw))
    · exact above he
  · obtain ⟨a, -, rfl⟩ := List.mem_map.mp h
    exact above he

theorem mem_path_of_parked (h : en ∈ parkedEntries ns) : ∀ e ∈ en.path,
    e ∈ ns.flatMap OpenNode.events := by
  induction ns with
  | nil => cases h
  | cons n ns ih =>
    intro e he
    rcases List.mem_append.mp h with h | h
    · exact OpenNode.mem_path_of_entries h e he
    · exact List.mem_append_right _ (ih h e he)

/-- Whatever is under way stands on events in play. -/
theorem mem_path_of_live (h : en ∈ live ts ns) : ∀ e ∈ en.path,
    e ∈ ns.flatMap OpenNode.events := by
  intro e he
  fun_induction live ts ns with
  | case1 ns => exact mem_path_of_parked h e he
  | case2 a ts ns ih =>
    rcases List.mem_cons.mp h with rfl | h
    · exact mem_events_of_map he
    · exact ih h
  | case3 mode ts n ns ih | case4 mode ts n ns ih =>
    rcases List.mem_append.mp h with h | h
    · exact OpenNode.mem_path_of_entries h e he
    · exact List.mem_append_right _ (ih h)
  | case5 t ts ns _ _ _ ih => exact ih h

/-- What is on offer has been on offer before, or is met just now. -/
theorem Turn.offer_in_play (h : Turn env t x ts x') (he : e ∈ ts.filterMap Task.event?) :
    t.event? = some e ∨
      ∃ c hasChildren n ns, t = .meet c hasChildren ∧ x.skipDepth = 0 ∧ x.nodes = n :: ns ∧
        e = (Event.register n.tally (.met x.serial c)).2 := by
  cases h with
  | flush closing =>
    rcases hp : x.pendingStart with - | p <;> rcases ht : x.heldText env with - | u <;>
      simp [hp, ht, Task.event?] at he
  | meet hs hn => exact .inr ⟨_, _, _, _, rfl, hs, hn, by simpa [Task.event?] using he⟩
  | @offerOpened _ e' => cases hel : e'.content.isElement <;> simp [hel, Task.event?] at he
  | offerDeclined hn hw => exact .inl (by simpa [Task.event?, eq_comm] using he)
  | @dispatchTemplate _ _ _ _ _ t => cases ht : t.entered? <;> simp [ht, Task.event?] at he
  | _ => simp [Task.event?] at he

/-- What is open or waited at has been so before, or was on offer, or is met just now without being
a child. -/
theorem Turn.node_in_play (h : Turn env t x ts x') (he : e ∈ x'.nodes.flatMap OpenNode.events) :
    e ∈ x.nodes.flatMap OpenNode.events ∨ t.event? = some e ∨
      e.content.isChild = false ∧ e.identity = .met x.serial := by
  cases h with
  | begin | attributes =>
    rcases List.mem_append.mp he with he | he
    · obtain rfl := List.mem_singleton.mp he
      exact .inr (.inr ⟨rfl, rfl⟩)
    · exact .inl he
  | offerOpened g hn =>
    rcases List.mem_append.mp he with he | he
    · obtain rfl := List.mem_singleton.mp he
      exact .inr (.inl rfl)
    · exact .inl (hn ▸ he)
  | offerDeclined hn hw | closeWaits hn hw =>
    left
    rw [hn]
    simp [OpenNode.events, OpenNode.ofWait, hw] at he ⊢
    grind
  | @unwindPopped _ mode n ns hn hout =>
    left
    rw [hn]
    cases ns with
    | nil => cases he
    | cons p r =>
      rw [handOn_cons] at he
      split at he
      · exact List.mem_append_right _ he
      · simp [OpenNode.events] at he ⊢
        grind
  | meet hs hn | dispatchBuiltIn copied hn | runChildren fs g hn hi | runSiblings fs r hn hi
  | runSelf fs g exclude hn hi | selfResumed hn ha | unwindResumed hn ha hout hrole
  | unwindBuiltIn hn ha hout hrole =>
    rw [hn]
    exact .inl he
  | _ => exact .inl he

/-- Whatever comes into play is met then, a child after it has been counted. -/
theorem Turn.events_in_play (h : Turn env t x ts x')
    (he : e ∈ eventsInPlay (ts ++ rest) x'.nodes) :
    e ∈ eventsInPlay (t :: rest) x.nodes ∨
      (∃ c hasChildren n ns, t = .meet c hasChildren ∧ x.skipDepth = 0 ∧ x.nodes = n :: ns ∧
        e = (Event.register n.tally (.met x.serial c)).2) ∨
      e.content.isChild = false ∧ e.identity = .met x.serial := by
  have offered : t.event? = some e → e ∈ eventsInPlay (t :: rest) x.nodes := fun ht =>
    List.mem_append_left _ (List.mem_filterMap.mpr ⟨t, List.mem_cons_self, ht⟩)
  rw [eventsInPlay, List.filterMap_append] at he
  rcases List.mem_append.mp he with he | he
  · rcases List.mem_append.mp he with he | he
    · rcases h.offer_in_play he with ht | hmet
      · exact .inl (offered ht)
      · exact .inr (.inl hmet)
    · obtain ⟨u, hu, hue⟩ := List.mem_filterMap.mp he
      exact .inl (List.mem_append_left _
        (List.mem_filterMap.mpr ⟨u, List.mem_cons_of_mem _ hu, hue⟩))
  · rcases h.node_in_play he with he | ht | hmet
    · exact .inl (List.mem_append_right _ he)
    · exact .inl (offered ht)
    · exact .inr (.inr hmet)

end

/-! ## Where events come from -/

/-- The event was made for the node that the run met right after these steps, when the first of
these inputs were taken in. -/
def MetAfter (env : Environment) (is : List Input) (before : List Mark) (e : Event) (m : Moment) :
    Prop :=
  ∃ js i hasChildren rest s, js <+: is ∧
    Fed env js before ⟨i, .meet e.content hasChildren :: rest, s⟩ ∧
    s.skipDepth = 0 ∧ e.identity = .met s.serial ∧
    Stretch env (fun _ => True) ⟨i, .meet e.content hasChildren :: rest, s⟩ m

/-- The event stands for a node that was met, and its positions count the siblings before it. -/
def Placed (env : Environment) (is : List Input) (met : List Mark) (m : Moment) (e : Event) :
    Prop :=
  ∃ before after, met = before ++ .node e.content :: after ∧ MetAfter env is before e m ∧
    ∀ g ∈ e.content.groups, e.positionOf g = 1 + membersOf (precedingSiblings before) g

section
variable {env : Environment} {is js : List Input} {met : List Mark} {m m' : Moment} {e : Event}

theorem MetAfter.next {before : List Mark} (h : MetAfter env is before e m) (hn : Next env m m') :
    MetAfter env (is ++ js) before e m' := by
  obtain ⟨ks, i, hasChildren, rest, s, hks, hf, hs, hid, hstretch⟩ := h
  exact ⟨ks, i, hasChildren, rest, s, hks.trans (List.prefix_append _ _), hf, hs, hid,
    hstretch.next hn trivial⟩

theorem Placed.next (h : Placed env is met m e) (hn : Next env m m') (js : List Input)
    (new : List Mark) : Placed env (is ++ js) (met ++ new) m' e := by
  obtain ⟨before, after, rfl, hmet, hg⟩ := h
  exact ⟨before, after ++ new, by simp, hmet.next hn, hg⟩

/-- Where a node is met and nothing is skipped, its parent has counted the siblings before it. -/
theorem count_of_meet {i : Input} {c : Content} {hasChildren : Bool} {rest : List Task}
    {s : State} {n : OpenNode} {ns : List OpenNode}
    (h : Fed env is met ⟨i, .meet c hasChildren :: rest, s⟩) (hs : s.skipDepth = 0)
    (hn : s.nodes = n :: ns) : n.tally.count = membersOf (precedingSiblings met) := by
  have hsound := sound_of_reached h.reached
  have houter : Outer rest := by
    cases hsound.orderly.of_input rfl with
    | meet _ _ hr => exact hr
  rcases hsound.stage (tallied_of_fed h) with hbegin | hend | htallied
  · cases hbegin
  · cases hend
  · obtain ⟨l, lower, hlevels, htop, -⟩ := htallied.of_meet houter hs hn
    rw [htop, precedingSiblings, hlevels]
    rfl

/-- Nothing is on offer between the nodes of the input. -/
theorem events_of_outer {ts : List Task} (h : Outer ts) : ts.filterMap Task.event? = [] := by
  induction h with
  | flush closing _ ih => simpa [Task.event?] using ih
  | meet c hasChildren _ ih => simpa [Task.event?] using ih
  | _ => rfl

/-- To take in one more input brings nothing into play. -/
theorem eventsInPlay_take (i : Input) (s : State) :
    eventsInPlay (Moment.take i s).agenda (Moment.take i s).state.nodes =
      s.nodes.flatMap OpenNode.events := by
  rw [Moment.take, eventsInPlay, events_of_outer i.outer_tasks, i.apply_nodes, List.nil_append]

/-- All children in play are placed. -/
theorem placed_of_fed (h : Fed env is met m) :
    ∀ e ∈ eventsInPlay m.agenda m.state.nodes, e.content.isChild → Placed env is met m e := by
  induction h with
  | first i _ =>
    intro e he
    rw [eventsInPlay_take] at he
    cases he
  | @task is met i t rest ts s s' hf hy ih =>
    intro e he hc
    rcases (Turn.of_yields hy).events_in_play he with hold | hmet | ⟨hother, -⟩
    · have hplaced := (ih e hold hc).next (.task hy) [] t.meets
      rwa [List.append_nil] at hplaced
    · obtain ⟨c, hasChildren, n, ns, rfl, hs, hn, rfl⟩ := hmet
      have hcount := count_of_meet hf hs hn
      refine ⟨met, [], rfl, ?_, fun g hg => positionOf_register hcount _ hg⟩
      exact ⟨is, i, hasChildren, rest, s, List.prefix_rfl, hf, hs, rfl,
        .next (.refl trivial) (.task hy) trivial⟩
    · rw [hother] at hc
      cases hc
  | @call is met m i hf hd ha ih =>
    intro e he hc
    rw [eventsInPlay_take] at he
    have hplaced := (ih e (List.mem_append_right _ he) hc).next (.call i hd ha) [i] []
    rwa [List.append_nil] at hplaced

/-- Every event in play has been met. -/
theorem met_in_play (h : Reached env m) :
    ∀ e ∈ eventsInPlay m.agenda m.state.nodes, ∃ serial, e.identity = .met serial := by
  induction h with
  | first i _ =>
    intro e he
    rw [eventsInPlay_take] at he
    cases he
  | next _ hn ih =>
    intro e he
    cases hn with
    | task hy =>
      rcases (Turn.of_yields hy).events_in_play he with hold | hmet | ⟨-, hmet⟩
      · exact ih e hold
      · obtain ⟨c, hasChildren, n, ns, rfl, hs, hn, rfl⟩ := hmet
        exact ⟨_, rfl⟩
      · exact ⟨_, hmet⟩
    | call i hd ha =>
      rw [eventsInPlay_take] at he
      exact ih e (List.mem_append_right _ he)

end

/-! ## Where positions come from -/

/-- A search finds a template that matches. -/
theorem match_of_searchTemplates {s : State} {p : Program} {g : GroupId}
    {exclude : List TemplateId} {hasChildren : Bool} {f : Found}
    (h : (s.searchTemplates p g exclude hasChildren).found = some f) :
    s.matchTemplate p hasChildren f.id = .ok (some f.position) := by
  have found : ∀ ids, (search (s.matchTemplate p hasChildren) ids).found = some f →
      s.matchTemplate p hasChildren f.id = .ok (some f.position) := fun ids hf =>
    (of_search_some (List.pairwise_of_forall (R := fun _ _ => True) fun _ _ => trivial) hf).2.1
  rw [State.searchTemplates, found_searchBoth, Option.or_eq_some_iff] at h
  rcases h with hown | ⟨-, hglobal⟩
  · exact found _ hown
  · exact found _ hglobal

/-- An activation that is dispatched has the position that its template's pattern gives the node. -/
theorem Operation.match_of_dispatch {env : Environment} {h : Handover} {exclude : List TemplateId}
    {hasChildren : Bool} {s s' : State} {ts : List Task} {a : Activation} {id : TemplateId}
    {t : Template} (hy : (dispatch env h exclude hasChildren).Yields s ts s') (ha : .run a ∈ ts)
    (hrole : a.role = .template id) (ht : env.program.templates[id]? = some t) :
    t.pattern.match? (s.patternContext env.program t.group hasChildren) s.depth =
      .ok (some a.position) := by
  obtain ⟨found, s₁, hselect, hy⟩ := yields_bind.mp hy
  have hfound := (ensures_selectTemplate env h.group exclude hasChildren s).of_yields hselect
  cases found with
  | none =>
    obtain ⟨_, _, -, hp⟩ := yields_bind.mp hy
    obtain ⟨rfl, -⟩ := yields_pure.mp hp
    cases ha
  | some f =>
    have hmatch := match_of_searchTemplates hfound.symm
    have hy : (startTemplate env f h.passed hasChildren).Yields s₁ ts s' := hy
    have hstarted : a.role = .template f.id ∧ a.position = f.position := by
      unfold startTemplate at hy
      split at hy
      · obtain ⟨rfl, -⟩ := yields_pure.mp hy
        cases ha
      · simp only [yields_bind, yields_current, yields_note, yields_get] at hy
        obtain ⟨n, _, -, _, _, rfl, _, _, ⟨rfl, rfl⟩, hy⟩ := hy
        split at hy
        · obtain ⟨rfl, -⟩ := yields_pure.mp hy
          obtain rfl : a = _ := by simpa using ha
          exact ⟨rfl, rfl⟩
        · obtain ⟨rfl, -⟩ := yields_pure.mp hy
          obtain rfl : a = _ := by simpa using ha
          exact ⟨rfl, rfl⟩
    obtain rfl : id = f.id := Role.template.inj (hrole.symm.trans hstarted.1)
    simp only [State.matchTemplate, ht] at hmatch
    rw [hstarted.2]
    exact hmatch

/-- A template that is chosen does not change which nodes are open. -/
theorem Turn.nodes_of_dispatch {env : Environment} {h : Handover} {exclude : List TemplateId}
    {hasChildren : Bool} {x x' : State} {ts : List Task} {a : Activation}
    (hturn : Turn env (.dispatch h exclude hasChildren) x ts x') (ha : .run a ∈ ts) :
    x'.nodes = x.nodes := by
  cases hturn with
  | dispatchTemplate => rfl
  | dispatchNothing => rfl
  | dispatchBuiltIn => cases ha

/-- At this moment a template is chosen for the current node, and gives it this position; its
pattern ends in the step `last`. -/
def Moment.Chooses (env : Environment) (m : Moment) (id : TemplateId) (position : Nat)
    (last : Path.PatternStep) : Prop :=
  ∃ h exclude hasChildren rest t, m.agenda = .dispatch h exclude hasChildren :: rest ∧
    env.program.templates[id]? = some t ∧
    t.pattern.match? (m.state.patternContext env.program t.group hasChildren) m.state.depth =
      .ok (some position) ∧
    t.pattern.steps.getLast? = some last

/-- The template of an activation was chosen for the node on which the activation stands, and the
activation has been under way since. -/
def ChosenBefore (env : Environment) (m : Moment) (a : Activation) (path : List Event)
    (id : TemplateId) (last : Path.PatternStep) : Prop :=
  ∃ m₀ m₁ a₀, Reached env m₀ ∧ m₀.Chooses env id a.position last ∧
    m₀.state.nodes.map OpenNode.event = path ∧ Next env m₀ m₁ ∧ m₁.live = ⟨a₀, path⟩ :: m₀.live ∧
    Stretch env (fun x => ∃ above a', SameStart a₀ a' ∧
      x.live = above ++ ⟨a', path⟩ :: m₀.live) m₁ m

section
variable {env : Environment} {m m' : Moment} {a : Activation} {id : TemplateId} {e : Event}
  {path : List Event}

/-- The event of the current node is the one that patterns match. -/
theorem event?_patternContext {s : State} {p : Program} {g : GroupId} {hasChildren : Bool}
    (h : s.nodes.map OpenNode.event = e :: path) :
    (s.patternContext p g hasChildren).event? s.depth = some e := by
  have hlength := congrArg List.length h
  simp only [List.length_map, List.length_cons] at hlength
  have hpath : s.path = path.reverse ++ [e] := by
    rw [State.path, List.map_reverse, h, List.reverse_cons]
  rw [State.depth, hlength]
  change s.path[path.length]? = some e
  rw [hpath, List.getElem?_append_right (by simp)]
  simp

/-- The activation of a template starts on the node that the template's pattern matches, with the
position that the match gives. -/
theorem matched_of_push (hm : Reached env m) (hn : Next env m m')
    (hlive : m'.live = ⟨a, path⟩ :: m.live) (hb : Entry.Begins m'.state.nodes ⟨a, path⟩)
    (hrole : a.role = .template id) :
    ∃ h exclude hasChildren rest t, m.agenda = .dispatch h exclude hasChildren :: rest ∧
      env.program.templates[id]? = some t ∧
      t.pattern.match? (m.state.patternContext env.program t.group hasChildren) m.state.depth =
        .ok (some a.position) ∧
      m.state.nodes.map OpenNode.event = path := by
  obtain ⟨h, exclude, hasChildren, t, rest, ht, hagenda, hagenda'⟩ :=
    dispatched_of_push hm hn hlive hrole
  obtain ⟨i, agenda, s⟩ := m
  obtain rfl : agenda = .dispatch h exclude hasChildren :: rest := hagenda
  cases hn with
  | call _ hd _ => cases hd
  | @task _ _ _ ts _ s' hy =>
    have hts : ts = (t.entered?.map Task.enterGroup).toList ++ [.run a] := by
      apply (List.append_left_inj rest).mp
      rw [List.append_assoc]
      exact hagenda'
    have hnew : .run a ∈ ts := by
      rw [hts]
      exact List.mem_append_right _ (List.mem_singleton_self _)
    have hnodes : s'.nodes = s.nodes := (Turn.of_yields hy).nodes_of_dispatch hnew
    refine ⟨h, exclude, hasChildren, rest, t, rfl, ht, ?_, ?_⟩
    · exact Operation.match_of_dispatch hy hnew hrole ht
    · rw [← hnodes]
      exact hb.path.symm

/-- The position of a template's activation was given by the last step of its pattern. -/
theorem chosenBefore (hm : Reached env m) (hl : ⟨a, e :: path⟩ ∈ m.live)
    (hrole : a.role = .template id) (hc : e.content.isChild) :
    ∃ last, ChosenBefore env m a (e :: path) id last ∧
      last.test.accepts e.content .child = true ∧ a.position = e.positionOf last.test.group := by
  obtain ⟨above, below, hlive⟩ := List.mem_iff_append.mp hl
  obtain ⟨m₀, m₁, a₀, hm₀, hn₀, hb, rfl, hlive₁, hsame, hstretch⟩ := exists_start hm hlive
  obtain ⟨h, exclude, hasChildren, rest, t, hagenda, ht, hmatch, hpath⟩ :=
    matched_of_push hm₀ hn₀ hlive₁ hb (hsame.role.symm.trans hrole)
  rw [← hsame.position] at hmatch
  obtain ⟨last, hlast, haccepts, hgroup⟩ :=
    Path.PathPattern.last_of_match hmatch (event?_patternContext hpath) hc
  refine ⟨last, ⟨m₀, m₁, a₀, hm₀, ?_, hpath, hn₀, hlive₁, hstretch⟩, haccepts, hgroup⟩
  exact ⟨h, exclude, hasChildren, rest, t, hagenda, ht, hmatch, hlast⟩

end

/-! ## Positions and the document -/

/-- After these inputs, the position of a template's activation is the place of its node in the
document among the siblings that satisfy the last step of the pattern. -/
structure Numbered (env : Environment) (is : List Input) (m : Moment) (a : Activation) (e : Event)
    (path : List Event) (id : TemplateId) (before after : List Mark) (last : Path.PatternStep) :
    Prop where
  document : Input.document env.configuration is = before ++ .node e.content :: after
  met : MetAfter env is before e m
  chosen : ChosenBefore env m a (e :: path) id last
  accepted : last.test.accepts e.content .child = true
  position : a.position =
    1 + (precedingSiblings before).countP fun c => last.test.accepts c .child

/-- Positions count siblings, whatever became of these, from the start of an activation to its
end. -/
structure PositionsCount (env : Environment) : Prop where
  fed : ∀ m, Reached env m → ∃ is met, Fed env is met m
  counted : ∀ is met m a e path id, Fed env is met m → ⟨a, e :: path⟩ ∈ m.live →
    a.role = .template id → e.content.isChild →
    ∃ before after last, Numbered env is m a e path id before after last
  shown : ∀ a f s v s', (Operation.evaluate env a f (.call "position" [])).Yields s v s' ↔
    v = .number (Float.ofNat a.position) ∧ s' = s

section
variable {env : Environment} {is : List Input} {met : List Mark} {m : Moment} {a : Activation}
  {e : Event} {path : List Event} {id : TemplateId}

theorem numbered_of_fed (h : Fed env is met m) (hl : ⟨a, e :: path⟩ ∈ m.live)
    (hrole : a.role = .template id) (hc : e.content.isChild) :
    ∃ before after last, Numbered env is m a e path id before after last := by
  obtain ⟨last, hchosen, haccepts, hposition⟩ := chosenBefore h.reached hl hrole hc
  have hplay : e ∈ eventsInPlay m.agenda m.state.nodes :=
    List.mem_append_right _ (mem_path_of_live hl e List.mem_cons_self)
  obtain ⟨before, after, rfl, hmet, hgroups⟩ := placed_of_fed h e hplay hc
  obtain ⟨rest, hrest⟩ := met_prefix_document h
  refine ⟨before, after ++ rest, last, ⟨?_, hmet, hchosen, haccepts, ?_⟩⟩
  · rw [← hrest, List.append_assoc, List.cons_append]
  · rw [hposition, hgroups _ ((last.test.mem_groups_iff _).mpr haccepts),
      Path.membersOf_group]

end

theorem Operation.yields_position (env : Environment) (a : Activation) (f : Frame) (s s' : State)
    (v : Value) : (Operation.evaluate env a f (.call "position" [])).Yields s v s' ↔
      v = .number (Float.ofNat a.position) ∧ s' = s := by
  have hvalue : (Path.Expr.call "position" []).evaluate (s.context env.program a f) a.depth =
      .ok (.number (Float.ofNat a.position)) := rfl
  simp only [Operation.evaluate, yields_bind, yields_get]
  constructor
  · rintro ⟨_, _, ⟨rfl, rfl⟩, hy⟩
    rw [hvalue] at hy
    exact yields_pure.mp hy
  · rintro ⟨rfl, rfl⟩
    refine ⟨s', s', ⟨rfl, rfl⟩, ?_⟩
    rw [hvalue]
    exact yields_pure.mpr ⟨rfl, rfl⟩

theorem positions_count_siblings (env : Environment) : PositionsCount env where
  fed _ h := exists_fed h
  counted _ _ _ _ _ _ _ h hl hrole hc := numbered_of_fed h hl hrole hc
  shown a f s v s' := Operation.yields_position env a f s s' v

end StreamTransform
