import StreamTransform.Proofs.Agenda
import StreamTransform.Proofs.AttributeSteps

/-!
# Places of attributes

Attributes are not counted by test as siblings are. The position of an
attribute is its place among all attributes of its element, whatever test is
asked: in the predicates of a path, in those of a pattern, and for the template
that is run for it. This is the place among the attributes that satisfy the
test only where all attributes before it satisfy the test as well.
-/

namespace StreamTransform

/-! ## Attributes on the agenda -/

/-- None of the events is an attribute. -/
def Ordinary (es : List Event) : Prop := ∀ e ∈ es, e.content.isAttribute = false

/-- The nodes that the tasks bring are no attributes. -/
def BringsOrdinary (ts : List Task) : Prop :=
  ∀ c hasChildren, .meet c hasChildren ∈ ts → c.isAttribute = false

/-- Tasks that work on the current node and leave it open. -/
def Task.isInner : Task → Bool
  | .run _ | .dispatch .. | .enterGroup _ | .selfDone _ => true
  | .begin | .conclude | .endOutput | .flush _ | .hold .. | .checkEnd _ | .leave | .meet ..
  | .offer .. | .attributes .. | .close _ | .unwind _ => false

/-- `Enumerated ts es`: with these nodes open, the innermost first, what the agenda has left of
attributes is the rest of those of the node that is current then. An attribute that is open is
closed before the next input, and never as one among siblings. -/
inductive Enumerated : List Task → List Event → Prop
  | outer {ts : List Task} {es : List Event} : Outer ts → BringsOrdinary ts → Ordinary es →
      Enumerated ts es
  | offer {ts : List Task} {es : List Event} {e : Event} (hasChildren : Bool) : Outer ts →
      BringsOrdinary ts → Ordinary (e :: es) → Enumerated (.offer e hasChildren :: ts) es
  | inner {t : Task} {ts : List Task} {es : List Event} : t.isInner → Enumerated ts es →
      Enumerated (t :: ts) es
  | attributes {ts : List Task} {es : List Event} {e : Event} {as : List (Attribute × Nat)}
      (h : Handover) : as <:+ Operation.withPlaces e.content.attributes →
      Enumerated ts (e :: es) → Enumerated (.attributes as h :: ts) (e :: es)
  | close {ts : List Task} {es : List Event} (mode : Closing) :
      (mode = .sibling → Ordinary es.head?.toList) → Enumerated ts es.tail →
      Enumerated (.close mode :: ts) es
  | unwind {ts : List Task} {es : List Event} (mode : Closing) :
      (mode = .sibling → Ordinary es.head?.toList) → Enumerated ts es.tail →
      Enumerated (.unwind mode :: ts) es

section
variable {t : Task} {ts rest : List Task} {es : List Event} {e : Event} {hasChildren : Bool}
  {mode : Closing}

theorem ordinary_cons : Ordinary (e :: es) ↔ e.content.isAttribute = false ∧ Ordinary es :=
  List.forall_mem_cons

theorem Ordinary.tail (h : Ordinary es) : Ordinary es.tail :=
  fun e he => h e (List.mem_of_mem_tail he)

theorem Ordinary.head (h : Ordinary es) : Ordinary es.head?.toList := by
  cases es with
  | nil => exact h
  | cons e r => exact fun f hf => h f (List.mem_singleton.mp hf ▸ List.mem_cons_self)

theorem BringsOrdinary.of_cons (h : BringsOrdinary (t :: ts)) : BringsOrdinary ts :=
  fun c hasChildren hm => h c hasChildren (List.mem_cons_of_mem _ hm)

theorem bringsOrdinary_input (i : Input) : BringsOrdinary i.tasks := by
  intro c hasChildren hm
  cases i <;> simp [Input.tasks] at hm
  · rw [hm.1]
    rfl
  · rw [hm.1]
    rfl

/-- What was held back is met before the rest. -/
def heldTasks (start : Option (QName × List Attribute)) (hasChildren : Bool)
    (text : Option String) : List Task :=
  (start.map fun p => Task.meet (.element p.1 p.2) hasChildren).toList ++
    (text.map fun t => Task.meet (.text t) false).toList

theorem outer_held (start : Option (QName × List Attribute)) (hasChildren : Bool)
    (text : Option String) (h : Outer ts) : Outer (heldTasks start hasChildren text ++ ts) := by
  cases start with
  | none =>
    cases text with
    | none => exact h
    | some u => exact .meet _ _ h
  | some p =>
    cases text with
    | none => exact .meet _ _ h
    | some u => exact .meet _ _ (.meet _ _ h)

theorem bringsOrdinary_held (start : Option (QName × List Attribute)) (hasChildren : Bool)
    (text : Option String) (h : BringsOrdinary ts) :
    BringsOrdinary (heldTasks start hasChildren text ++ ts) := by
  intro c hasChildren' hm
  rcases List.mem_append.mp hm with hm | hm
  · cases start <;> cases text <;> simp [heldTasks] at hm
    · exact hm.1 ▸ rfl
    · exact hm.1 ▸ rfl
    · rcases hm with hm | hm <;> exact hm.1 ▸ rfl
  · exact h c hasChildren' hm

theorem Outer.tail (h : Outer (t :: ts)) (ht : t.isOuter) : Outer ts := by
  cases h with
  | begin | conclude | endOutput | leave | hold => exact .nil
  | final => cases ht
  | checkEnd => exact .flush true .leave
  | flush _ h | meet _ _ h => exact h

namespace Enumerated

theorem of_outer (h : Enumerated (t :: ts) es) (ht : t.isOuter) :
    Outer (t :: ts) ∧ BringsOrdinary (t :: ts) ∧ Ordinary es := by
  cases h with
  | outer ho hb he => exact ⟨ho, hb, he⟩
  | inner hi => cases t <;> simp [Task.isOuter, Task.isInner] at ht hi
  | _ => cases ht

theorem tail_of_outer (h : Enumerated (t :: ts) es) (ht : t.isOuter) : Enumerated ts es := by
  obtain ⟨ho, hb, he⟩ := h.of_outer ht
  exact .outer (ho.tail ht) hb.of_cons he

theorem of_offer (h : Enumerated (.offer e hasChildren :: ts) es) :
    Outer ts ∧ BringsOrdinary ts ∧ Ordinary (e :: es) := by
  cases h with
  | outer ho => cases ho
  | offer _ ho hb he => exact ⟨ho, hb, he⟩
  | inner hi => cases hi

theorem of_inner (h : Enumerated (t :: ts) es) (ht : t.isInner) : Enumerated ts es := by
  cases h with
  | inner _ h => exact h
  | outer ho => cases ho <;> cases ht
  | _ => cases ht

theorem of_attributes {as : List (Attribute × Nat)} {h : Handover}
    (he : Enumerated (.attributes as h :: ts) es) : ∃ e r, es = e :: r ∧
      as <:+ Operation.withPlaces e.content.attributes ∧ Enumerated ts es := by
  cases he with
  | outer ho => cases ho
  | inner hi => cases hi
  | attributes _ hs hr => exact ⟨_, _, rfl, hs, hr⟩

theorem of_close (h : Enumerated (.close mode :: ts) es) :
    (mode = .sibling → Ordinary es.head?.toList) ∧ Enumerated ts es.tail := by
  cases h with
  | outer ho hb he =>
    cases ho with
    | final => exact ⟨fun _ => he.head, .outer .endOutput hb.of_cons he.tail⟩
  | inner hi => cases hi
  | close _ hm hr => exact ⟨hm, hr⟩

theorem of_unwind (h : Enumerated (.unwind mode :: ts) es) :
    (mode = .sibling → Ordinary es.head?.toList) ∧ Enumerated ts es.tail := by
  cases h with
  | outer ho => cases ho
  | inner hi => cases hi
  | unwind _ hm hr => exact ⟨hm, hr⟩

end Enumerated

end

/-- Each attribute stands right above its element, with its place there. -/
inductive Owned : List Event → Prop
  | nil : Owned []
  | ordinary {e : Event} {es : List Event} : e.content.isAttribute = false → Owned es →
      Owned (e :: es)
  | above {e owner : Event} {es : List Event} {a : Attribute} {place : Nat} :
      e.content = .attr a place → (a, place) ∈ Operation.withPlaces owner.content.attributes →
      Owned (owner :: es) → Owned (e :: owner :: es)

theorem Owned.tail {es : List Event} (h : Owned es) : Owned es.tail := by
  cases h with
  | nil => exact .nil
  | ordinary _ h => exact h
  | above _ _ h => exact h

theorem Owned.of_attribute {e : Event} {es : List Event} {a : Attribute} {place : Nat}
    (h : Owned (e :: es)) (hc : e.content = .attr a place) :
    ∃ owner r, es = owner :: r ∧ (a, place) ∈ Operation.withPlaces owner.content.attributes := by
  cases h with
  | ordinary he =>
    rw [hc] at he
    cases he
  | above hc' hm =>
    obtain ⟨rfl, rfl⟩ := Content.attr.inj (hc'.symm.trans hc)
    exact ⟨_, _, rfl, hm⟩

/-- Attributes in a state with the agenda. -/
structure Attributed (ts : List Task) (ns : List OpenNode) : Prop where
  enumerated : Enumerated ts (ns.map OpenNode.event)
  /-- Nobody waits at a closed attribute. -/
  waits : ∀ n ∈ ns, Ordinary (n.waits.map SiblingWait.event)
  owned : Owned (ns.map OpenNode.event)

section
variable {env : Environment} {t : Task} {ts rest : List Task} {x x' : State}

theorem enumerated_groups {gs : List GroupId} {es : List Event} (h : Enumerated ts es) :
    Enumerated (gs.map Task.enterGroup ++ ts) es := by
  induction gs with
  | nil => exact h
  | cons g gs ih => exact .inner rfl ih

/-- A node that changes in everything but its event and those who wait changes nothing here. -/
theorem Attributed.congr {n n' : OpenNode} {ns : List OpenNode} (h : Attributed ts (n :: ns))
    (he : n'.event = n.event) (hw : n'.waits = n.waits) : Attributed ts (n' :: ns) where
  enumerated := by
    have henum := h.enumerated
    rw [List.map_cons] at henum ⊢
    rw [he]
    exact henum
  waits := by
    obtain ⟨hn, hns⟩ := List.forall_mem_cons.mp h.waits
    exact List.forall_mem_cons.mpr ⟨hw ▸ hn, hns⟩
  owned := by
    have hown := h.owned
    rw [List.map_cons] at hown ⊢
    rw [he]
    exact hown

theorem Attributed.agenda {ns : List OpenNode} (h : Attributed ts ns)
    (he : Enumerated ts (ns.map OpenNode.event) → Enumerated rest (ns.map OpenNode.event)) :
    Attributed rest ns :=
  ⟨he h.enumerated, h.waits, h.owned⟩

/-- A node that is opened and is no attribute. -/
theorem Attributed.opened {n : OpenNode} {ns : List OpenNode} (h : Attributed ts ns)
    (hn : n.event.content.isAttribute = false) (hw : Ordinary (n.waits.map SiblingWait.event))
    (he : Enumerated rest (n.event :: ns.map OpenNode.event)) : Attributed rest (n :: ns) :=
  ⟨he, List.forall_mem_cons.mpr ⟨hw, h.waits⟩, .ordinary hn h.owned⟩

/-- One of those who wait is taken off the node and its own node opened again. -/
theorem Attributed.restored {n : OpenNode} {ns : List OpenNode} {w : SiblingWait}
    {ws : List SiblingWait} (h : Attributed ts (n :: ns)) (hw : n.waits = w :: ws)
    (he : Enumerated rest (n.event :: ns.map OpenNode.event)) :
    Attributed (.close .restored :: rest) (.ofWait w :: { n with waits := ws } :: ns) := by
  obtain ⟨hn, hns⟩ := List.forall_mem_cons.mp h.waits
  rw [hw, List.map_cons, ordinary_cons] at hn
  have hrest : Attributed rest ({ n with waits := ws } :: ns) :=
    ⟨he, List.forall_mem_cons.mpr ⟨hn.2, hns⟩, h.owned⟩
  refine hrest.opened hn.1 (by simp [OpenNode.ofWait, Ordinary]) ?_
  exact .close .restored (by simp) he

/-- The end of a node: those who go on waiting wait at a node that is no attribute. -/
theorem Attributed.popped {mode : Closing} {n : OpenNode} {ns : List OpenNode}
    (h : Attributed (.unwind mode :: ts) (n :: ns))
    (hout : ∀ a r, n.activations = a :: r → Operation.outlives mode a = true) :
    Attributed ts (handOn n ns) := by
  obtain ⟨hmode, henum⟩ := h.enumerated.of_unwind
  obtain ⟨-, hns⟩ := List.forall_mem_cons.mp h.waits
  have hown := h.owned.tail
  refine ⟨(map_event_handOn n ns).symm ▸ henum, ?_, (map_event_handOn n ns).symm ▸ hown⟩
  cases ns with
  | nil => exact hns
  | cons p r =>
    rw [handOn_cons]
    split
    · exact hns
    · rename_i hparked
      obtain ⟨a, as, ha⟩ := List.exists_cons_of_ne_nil (mt List.isEmpty_iff.mpr hparked)
      have hsibling : mode = .sibling := by
        have := hout a as ha
        simp only [Operation.outlives, Bool.and_eq_true, beq_iff_eq] at this
        exact this.1
      obtain ⟨hp, hr⟩ := List.forall_mem_cons.mp hns
      refine List.forall_mem_cons.mpr ⟨?_, hr⟩
      rw [List.map_cons, ordinary_cons]
      exact ⟨hmode hsibling _ (List.mem_singleton_self _), hp⟩

theorem Turn.attributed (h : Turn env t x ts x') (ho : Orderly true (t :: rest) x.nodes)
    (ha : Attributed (t :: rest) x.nodes) : Attributed (ts ++ rest) x'.nodes := by
  cases h with
  | begin =>
    cases ho.of_input rfl
    obtain ⟨-, -, hes⟩ := ha.enumerated.of_outer rfl
    rw [List.append_nil]
    refine ha.opened rfl (by simp [OpenNode.fresh, Ordinary]) (enumerated_groups ?_)
    exact .inner rfl (.outer .nil (by simp [BringsOrdinary]) (ordinary_cons.mpr ⟨rfl, hes⟩))
  | conclude _ =>
    cases ho.of_input rfl
    refine ha.agenda fun he => ?_
    exact .outer (.flush false .final) (by simp [BringsOrdinary]) (he.of_outer rfl).2.2
  | flush closing =>
    refine ha.agenda fun he => ?_
    obtain ⟨houter, hb, hes⟩ := he.of_outer rfl
    exact .outer (outer_held _ _ _ (houter.tail rfl)) (bringsOrdinary_held _ _ _ hb.of_cons) hes
  | leave _ =>
    cases ho.of_input rfl
    refine ha.agenda fun he => ?_
    obtain ⟨-, -, hes⟩ := he.of_outer rfl
    exact .close _ (fun _ => hes.head) (.outer .nil (by simp [BringsOrdinary]) hes.tail)
  | @meet _ c hasChildren n ns _ hn =>
    rw [hn] at ha
    refine Attributed.congr (n := n) (ha.agenda fun he => ?_) rfl rfl
    obtain ⟨houter, hb, hes⟩ := he.of_outer rfl
    have hc : c.isAttribute = false := hb c hasChildren List.mem_cons_self
    exact .offer hasChildren (houter.tail rfl) hb.of_cons (ordinary_cons.mpr ⟨hc, hes⟩)
  | @offerOpened _ e hasChildren n ns g hn =>
    rw [hn] at ha
    obtain ⟨houter, hb, hes⟩ := ha.enumerated.of_offer
    obtain ⟨he, hbelow⟩ := ordinary_cons.mp hes
    refine ha.opened he (by simp [OpenNode.fresh, Ordinary]) (.inner rfl ?_)
    split
    · exact .outer houter hb hes
    · exact .close _ (fun _ => hes.head) (.outer houter hb hbelow)
  | offerDeclined hn hw =>
    rw [hn] at ha
    exact ha.restored hw ha.enumerated
  | offerSkipped hn hw hchildren =>
    refine ha.agenda fun he => ?_
    obtain ⟨houter, hb, hes⟩ := he.of_offer
    exact .outer houter hb (ordinary_cons.mp hes).2
  | @dispatchTemplate _ _ _ _ _ t position ht =>
    refine ha.agenda fun he => ?_
    have hrest := he.of_inner rfl
    cases t.entered? with
    | none => exact .inner rfl hrest
    | some g => exact .inner rfl (.inner rfl hrest)
  | @dispatchBuiltIn _ _ _ _ n ns copied hn =>
    rw [hn] at ha
    exact Attributed.congr (n := n) (ha.agenda fun he => he.of_inner rfl) rfl rfl
  | enterGroup passed hb | runOn fs =>
    exact ha.agenda fun he => .inner rfl (he.of_inner rfl)
  | @runAttributes _ a n ns fs g hn =>
    rw [hn] at ha ⊢
    refine ha.agenda fun he => ?_
    exact .attributes g (List.suffix_refl _) (.inner rfl (he.of_inner rfl))
  | @runChildren _ a n ns fs _ hn hi | @runSiblings _ a n ns fs _ hn hi =>
    rw [hn] at ha
    exact Attributed.congr (n := n) (ha.agenda fun he => he.of_inner rfl) rfl rfl
  | @runSelf _ a n ns fs g exclude hn hi =>
    rw [hn] at ha
    refine Attributed.congr (n := n) (ha.agenda fun he => ?_) rfl rfl
    exact .inner rfl (.inner rfl (he.of_inner rfl))
  | attributesDone =>
    refine ha.agenda fun he => ?_
    obtain ⟨e, r, -, -, hr⟩ := he.of_attributes
    exact hr
  | attributes =>
    obtain ⟨e, r, hes, hsuffix, hr⟩ := ha.enumerated.of_attributes
    refine ⟨?_, List.forall_mem_cons.mpr ⟨by simp [OpenNode.fresh, Ordinary], ha.waits⟩, ?_⟩
    · rw [List.map_cons]
      refine .inner rfl (.close .final (by simp) ?_)
      rw [List.tail_cons, hes]
      exact .attributes _ ((List.suffix_cons _ _).trans hsuffix) (hes ▸ hr)
    · have hown := ha.owned
      rw [List.map_cons]
      rw [hes] at hown ⊢
      exact .above rfl (hsuffix.subset List.mem_cons_self) hown
  | @selfResumed _ n ns a r hn hr =>
    rw [hn] at ha
    exact Attributed.congr (n := n) (ha.agenda fun he => .inner rfl (he.of_inner rfl)) rfl rfl
  | closeWaits hn hw =>
    rw [hn] at ha
    exact ha.restored hw ha.enumerated
  | closeClear hc =>
    refine ha.agenda fun he => ?_
    obtain ⟨hmode, hr⟩ := he.of_close
    exact .unwind _ hmode hr
  | unwindPopped hn hout =>
    rw [hn] at ha
    exact ha.popped hout
  | @unwindResumed _ mode n ns a r hn hr hout hrole =>
    rw [hn] at ha
    exact Attributed.congr (n := n) (ha.agenda fun he => .inner rfl he) rfl rfl
  | @unwindBuiltIn _ mode n ns a r copied hn hr hout hrole =>
    rw [hn] at ha
    exact Attributed.congr (n := n) ha rfl rfl
  | endOutput | hold | checkEnd | leaveSkipped | meetSkipped =>
    exact ha.agenda fun he => he.tail_of_outer rfl
  | dispatchNothing | enterGroupAlone | runEnded | selfWaits =>
    exact ha.agenda fun he => he.of_inner rfl

end

/-- Whatever a run comes to, attributes are processed at their elements and one after the other. -/
theorem attributed_of_reached {env : Environment} {m : Moment} (h : Reached env m) :
    Attributed m.agenda m.state.nodes := by
  induction h with
  | first i _ =>
    rw [Moment.take, i.apply_nodes]
    exact ⟨.outer i.outer_tasks (bringsOrdinary_input i) (by simp [State.initial, Ordinary]),
      by simp [State.initial], .nil⟩
  | next hm hn ih =>
    cases hn with
    | task hy => exact (Turn.of_yields hy).attributed (sound_of_reached hm).orderly ih
    | call i hd ha =>
      rw [Moment.take, i.apply_nodes]
      refine ih.agenda fun he => ?_
      rw [hd] at he
      cases he with
      | outer _ _ hes => exact .outer i.outer_tasks (bringsOrdinary_input i) hes

/-! ## Tests of attributes -/

namespace Path

variable {ctx : Context} {top place : Nat} {e : Event} {a : Attribute}

/-- Without an at sign no test accepts an attribute. -/
theorem NodeTest.accepts_child_attr (test : NodeTest) (a : Attribute) (place : Nat) :
    test.accepts (.attr a place) .child = false := by
  cases test <;> rfl

/-- A step of a pattern holds at an attribute if it has an at sign, its test accepts the attribute
and its predicates hold with the place of the attribute as the position. -/
theorem PatternStep.holdsAt_attribute_iff {s : PatternStep} (he : ctx.event? top = some e)
    (hc : e.content = .attr a place) : s.holdsAt ctx top = .ok true ↔
      s.isAttribute = true ∧ s.test.accepts (.attr a place) .attributes = true ∧
        holdAll (ctx.seenFrom top place) top place s.predicates = .ok true := by
  have hposition : e.positionOf s.test.group = place := by rw [Event.positionOf, hc]
  rw [holdsAt_iff he, hposition, hc]
  cases s.isAttribute with
  | false => simp [NodeTest.accepts_child_attr]
  | true => simp

/-- A pattern that matches an attribute has a last step, and the position is the place. -/
theorem PathPattern.last_of_attribute {q : PathPattern} {position : Nat}
    (h : q.match? ctx top = .ok (some position)) (he : ctx.event? top = some e)
    (hc : e.content = .attr a place) :
    ∃ p last, q = PathPattern.append p last ∧ last.holdsAt ctx top = .ok true ∧
      position = place := by
  obtain ⟨absolute, steps⟩ := q
  rcases List.eq_nil_or_concat steps with rfl | ⟨above, last, rfl⟩
  · simp only [match?, List.reverse_nil] at h
    split at h
    · rename_i htop
      subst htop
      simp [Context.nodeAt, he, hc, Bind.bind, Except.bind] at h
    · cases h
  · rw [List.concat_eq_append] at h ⊢
    obtain ⟨hh, hposition⟩ :=
      PathPattern.holdsAt_of_match? (p := ⟨absolute, above⟩) (s := last) h he
    refine ⟨⟨absolute, above⟩, last, rfl, hh, ?_⟩
    rw [hposition, Event.positionOf, hc]

theorem holdAll_number (ctx : Context) (top position : Nat) (x : Float) :
    holdAll ctx top position [.number x] = .ok true ↔ (x == Float.ofNat position) = true := by
  have hselects : selects (.number x) position = (x == Float.ofNat position) := rfl
  simp only [holdAll, Expr.evaluate, Bind.bind, Except.bind, hselects]
  cases x == Float.ofNat position <;> simp

def NodeTest.acceptsAttribute (test : NodeTest) (a : Attribute) : Bool :=
  test.accepts (.attr a 1) .attributes

/-- The place of an attribute does not matter to a test. -/
theorem NodeTest.accepts_attr (test : NodeTest) (a : Attribute) (place : Nat) :
    test.accepts (.attr a place) .attributes = test.acceptsAttribute a := by
  cases test <;> rfl

/-- The place of an attribute is its place among those that satisfy the test only where all before
it satisfy the test. -/
theorem NodeTest.place_eq_count_iff (test : NodeTest) {l : List Attribute} {i : Nat}
    (h : i < l.length) : i + 1 = 1 + (l.take i).countP test.acceptsAttribute ↔
      ∀ b ∈ l.take i, test.acceptsAttribute b = true := by
  rw [← List.countP_eq_length, List.length_take_of_le (Nat.le_of_lt h)]
  omega

end Path

/-! ## Positions of attributes -/

/-- A template is run for an attribute, the one at this place of the element above, with this place
as its position. Its pattern ends in the step `last`. -/
structure AtPlace (env : Environment) (m : Moment) (a : Activation) (e : Event) (path : List Event)
    (id : TemplateId) (attr : Attribute) (place : Nat) (owner : Event) (last : Path.PatternStep) :
    Prop where
  above : path.head? = some owner
  listed : 1 ≤ place ∧ owner.content.attributes[place - 1]? = some attr
  chosen : ChosenBefore env m a (e :: path) id last
  accepted : last.isAttribute = true ∧ last.test.accepts e.content .attributes = true
  position : a.position = place

/-- The positions of attributes are their places among all attributes of their elements. -/
structure PlacesCount (env : Environment) : Prop where
  /-- A step of a path judges its predicates with the place. -/
  selected {test : Path.NodeTest} {ps : List Path.Expr} {ctx : Path.Context}
    {nodes next : List NodeRef} {m : NodeRef} :
    (Path.Step.mk .attributes test ps).select ctx nodes = .ok next →
    (m ∈ next ↔ ∃ n ∈ nodes, ∃ i, Path.AttributeAt n test i m ∧
      Path.holdAll (ctx.seenFrom (ctx.judgedAt m) (i + 1)) (ctx.judgedAt m) (i + 1) ps = .ok true)
  /-- A number as the only predicate is compared with the place. -/
  numbered {test : Path.NodeTest} {x : Float} {ctx : Path.Context} {nodes next : List NodeRef}
    {m : NodeRef} : (Path.Step.mk .attributes test [.number x]).select ctx nodes = .ok next →
    (m ∈ next ↔ ∃ n ∈ nodes, ∃ i, Path.AttributeAt n test i m ∧ (x == Float.ofNat (i + 1)) = true)
  /-- A step of a pattern judges its predicates with the place as well. -/
  judged {s : Path.PatternStep} {ctx : Path.Context} {top place : Nat} {e : Event}
    {a : Attribute} : ctx.event? top = some e → e.content = .attr a place →
    (s.holdsAt ctx top = .ok true ↔
      s.isAttribute = true ∧ s.test.accepts (.attr a place) .attributes = true ∧
        Path.holdAll (ctx.seenFrom top place) top place s.predicates = .ok true)
  /-- A pattern that matches gives the place as the position. -/
  matched {p : Path.PathPattern} {ctx : Path.Context} {top position place : Nat} {e : Event}
    {a : Attribute} : p.match? ctx top = .ok (some position) → ctx.event? top = some e →
    e.content = .attr a place → position = place
  /-- The template that is run for an attribute has the place as its position until it ends. -/
  dispatched {m : Moment} {a : Activation} {e : Event} {path : List Event} {id : TemplateId}
    {attr : Attribute} {place : Nat} : Reached env m → ⟨a, e :: path⟩ ∈ m.live →
    a.role = .template id → e.content = .attr attr place →
    ∃ owner last, AtPlace env m a e path id attr place owner last
  shown : ∀ a f s v s', (Operation.evaluate env a f (.call "position" [])).Yields s v s' ↔
    v = .number (Float.ofNat a.position) ∧ s' = s
  /-- Whether an attribute satisfies a test has nothing to do with its place, -/
  accepted (test : Path.NodeTest) (a : Attribute) (place : Nat) :
    test.accepts (.attr a place) .attributes = test.acceptsAttribute a
  /-- so the place counts the attributes that satisfy the test only where all before it do. -/
  compared (test : Path.NodeTest) {l : List Attribute} {i : Nat} : i < l.length →
    (i + 1 = 1 + (l.take i).countP test.acceptsAttribute ↔
      ∀ b ∈ l.take i, test.acceptsAttribute b = true)

theorem atPlace_of_reached {env : Environment} {m : Moment} {a : Activation} {e : Event}
    {path : List Event} {id : TemplateId} {attr : Attribute} {place : Nat} (hm : Reached env m)
    (hl : ⟨a, e :: path⟩ ∈ m.live) (hrole : a.role = .template id)
    (hc : e.content = .attr attr place) :
    ∃ owner last, AtPlace env m a e path id attr place owner last := by
  obtain ⟨above, below, hlive⟩ := List.mem_iff_append.mp hl
  obtain ⟨m₀, m₁, a₀, hm₀, hn₀, hb, rfl, hlive₁, hsame, hstretch⟩ := exists_start hm hlive
  obtain ⟨h, exclude, hasChildren, rest, t, hagenda, ht, hmatch, hpath⟩ :=
    matched_of_push hm₀ hn₀ hlive₁ hb (hsame.role.symm.trans hrole)
  rw [← hsame.position] at hmatch
  have hevent : (m₀.state.patternContext env.program t.group hasChildren).event? m₀.state.depth =
      some e := event?_patternContext hpath
  obtain ⟨p, last, hq, hh, hposition⟩ := Path.PathPattern.last_of_attribute hmatch hevent hc
  obtain ⟨hsign, haccepts, -⟩ := (Path.PatternStep.holdsAt_attribute_iff hevent hc).mp hh
  have hlast : t.pattern.steps.getLast? = some last := by
    rw [hq, Path.PathPattern.append, List.getLast?_concat]
  -- the element was there when the template was chosen, and nodes stay where they are
  have howned := (attributed_of_reached hm₀).owned
  rw [hpath] at howned
  obtain ⟨owner, r, rfl, hmem⟩ := howned.of_attribute hc
  refine ⟨owner, last, rfl, List.mk_mem_zipIdx_iff_le_and_getElem?_sub.mp hmem,
    ⟨m₀, m₁, a₀, hm₀, ?_, hpath, hn₀, hlive₁, hstretch⟩, ⟨hsign, hc ▸ haccepts⟩, hposition⟩
  exact ⟨h, exclude, hasChildren, rest, t, hagenda, ht, hmatch, hlast⟩

theorem places_count (env : Environment) : PlacesCount env where
  selected := Path.mem_select_attributes
  numbered h := by simp only [Path.mem_select_attributes h, Path.holdAll_number]
  judged := Path.PatternStep.holdsAt_attribute_iff
  matched h he hc := by
    obtain ⟨-, -, -, -, hposition⟩ := Path.PathPattern.last_of_attribute h he hc
    exact hposition
  dispatched := atPlace_of_reached
  shown a f s v s' := Operation.yields_position env a f s s' v
  accepted := Path.NodeTest.accepts_attr
  compared test _ _ h := test.place_eq_count_iff h

end StreamTransform
