import StreamTransform.Proofs.Flow

/-!
# What one step can do

`Turn` says for every task what its success may do to the open nodes and to the
input that is held back, and which tasks it leaves. It speaks of states without
their output and variables, and of frames only as far as one body is on top of
others. Whatever holds of the stack of nodes along a run is derived from it.
-/

namespace StreamTransform

/-- The text held back, unless it is empty or white space to be dropped. -/
def State.heldText (env : Environment) (s : State) : Option String :=
  if s.pendingText.isEmpty ||
      (env.configuration.stripSpace && s.pendingText.toList.all Text.isXmlSpace)
  then none else some s.pendingText

/-- The nodes below the current one once it is closed, with what it leaves to wait. -/
def handOn (n : OpenNode) : List OpenNode → List OpenNode
  | [] => []
  | p :: r =>
    if n.activations.isEmpty then p :: r
    else { p with waits := ⟨n.event, n.activations⟩ :: p.waits } :: r

/-- The group whose fresh frame goes with an activation of the template. -/
def Template.entered? (t : Template) : Option GroupId :=
  if t.recursionEntry then some t.group else none

/-- The activation of a template as it starts. -/
def Template.activation (t : Template) (id : TemplateId) (depth position : Nat)
    (hasChildren : Bool) (passed : Bindings) : Activation :=
  { Activation.start (.template id) depth position hasChildren [.start t.group t.body passed] with
    entered := t.entered? }

/-- The built-in rule as it waits for the children of its node. -/
def Activation.descending (copied : Option QName) (depth : Nat) (hasChildren : Bool) :
    Activation :=
  { Activation.start (.builtIn copied) depth 1 hasChildren [] with phase := .awaitingChildren }

inductive Turn (env : Environment) : Task → State → List Task → State → Prop
  | begin {x : State} :
      Turn env .begin x
        ((List.range env.program.groups.size).map Task.enterGroup
          ++ [.dispatch ⟨Program.rootGroup, []⟩ [] true])
        { x with nodes := .fresh (.met x.serial .root) :: x.nodes, serial := x.serial + 1 }
  | conclude {x : State} : x.inputOpen = [] →
      Turn env .conclude x [.flush false, .close .final, .endOutput] x
  | endOutput {x : State} : Turn env .endOutput x [] x
  | flush {x : State} (closing : Bool) :
      Turn env (.flush closing) x
        ((x.pendingStart.map fun p =>
            Task.meet (.element p.1 p.2) ((x.heldText env).isSome || !closing)).toList
          ++ ((x.heldText env).map fun t => Task.meet (.text t) false).toList)
        { x with pendingText := "", pendingStart := none }
  | hold {x : State} (n : QName) (as : List Attribute) :
      Turn env (.hold n as) x []
        { x with inputOpen := n :: x.inputOpen, pendingStart := some (n, as) }
  | checkEnd {x : State} {n o : QName} {os : List QName} : x.inputOpen = o :: os → o.same n →
      Turn env (.checkEnd n) x [] { x with inputOpen := os }
  | leaveSkipped {x : State} : 0 < x.skipDepth →
      Turn env .leave x [] { x with skipDepth := x.skipDepth - 1 }
  | leave {x : State} : x.skipDepth = 0 → Turn env .leave x [.close .sibling] x
  | meetSkipped {x : State} {c : Content} {hasChildren : Bool} : 0 < x.skipDepth →
      Turn env (.meet c hasChildren) x []
        { x with skipDepth := x.skipDepth + if c.isElement then 1 else 0 }
  | meet {x : State} {c : Content} {hasChildren : Bool} {n : OpenNode} {ns : List OpenNode} :
      x.skipDepth = 0 → x.nodes = n :: ns →
      Turn env (.meet c hasChildren) x
        [.offer (Event.register n.tally (.met x.serial c)).2 hasChildren]
        { x with
          serial := x.serial + 1
          nodes := { n with tally := (Event.register n.tally (.met x.serial c)).1 } :: ns }
  | offerOpened {x : State} {e : Event} {hasChildren : Bool} {n : OpenNode} {ns : List OpenNode}
      (h : Handover) : x.nodes = n :: ns →
      Turn env (.offer e hasChildren) x
        (.dispatch h [] hasChildren :: if e.content.isElement then [] else [.close .sibling])
        { x with nodes := .fresh e :: n :: ns }
  | offerDeclined {x : State} {e : Event} {hasChildren : Bool} {n : OpenNode} {ns : List OpenNode}
      {w : SiblingWait} {ws : List SiblingWait} : x.nodes = n :: ns → n.waits = w :: ws →
      Turn env (.offer e hasChildren) x [.close .restored, .offer e hasChildren]
        { x with nodes := .ofWait w :: { n with waits := ws } :: ns }
  | offerSkipped {x : State} {e : Event} {hasChildren : Bool} {n : OpenNode} {ns : List OpenNode} :
      x.nodes = n :: ns → n.waits = [] → n.children = none →
      Turn env (.offer e hasChildren) x []
        { x with skipDepth := if e.content.isElement then 1 else x.skipDepth }
  | dispatchTemplate {x : State} {h : Handover} {exclude : List TemplateId} {hasChildren : Bool}
      {id : TemplateId} {t : Template} (position : Nat) : env.program.templates[id]? = some t →
      id ∉ exclude → Turn env (.dispatch h exclude hasChildren) x
        ((t.entered?.map Task.enterGroup).toList ++
          [.run (t.activation id x.depth position hasChildren h.passed)]) x
  | dispatchNothing {x : State} {h : Handover} {exclude : List TemplateId} {hasChildren : Bool} :
      Turn env (.dispatch h exclude hasChildren) x [] x
  | dispatchBuiltIn {x : State} {h : Handover} {exclude : List TemplateId} {hasChildren : Bool}
      {n : OpenNode} {ns : List OpenNode} (copied : Option QName) : x.nodes = n :: ns →
      Turn env (.dispatch h exclude hasChildren) x []
        { x with nodes :=
          { n with
            children := some h
            activations := .descending copied x.depth hasChildren :: n.activations } :: ns }
  | enterGroupAlone {x : State} {g : GroupId} : Turn env (.enterGroup g) x [] x
  | enterGroup {x : State} {g : GroupId} {b : NodeId} (passed : Bindings) :
      (env.program.group g).initialiser = some b →
      Turn env (.enterGroup g) x
        [.run (.start (.initialiser g) x.depth 1 false [.start g b passed])] x
  | runEnded {x : State} {a : Activation} : a.frames = [] → Turn env (.run a) x [] x
  | runOn {x : State} {a : Activation} (fs : List Frame) :
      Turn env (.run a) x [.run { a with frames := fs }] x
  | runAttributes {x : State} {a : Activation} {n : OpenNode} {ns : List OpenNode}
      (fs : List Frame) (h : Handover) : x.nodes = n :: ns →
      Turn env (.run a) x
        [.attributes (Operation.withPlaces n.event.content.attributes) h,
          .run { a with frames := fs }] x
  | runChildren {x : State} {a : Activation} {n : OpenNode} {ns : List OpenNode}
      (fs : List Frame) (h : Handover) : x.nodes = n :: ns → a.isInitialiser = false →
      a.suspendedBy = none → Turn env (.run a) x []
        { x with nodes :=
          { n with
            children := some h
            activations :=
              { a with
                phase := .awaitingChildren
                suspendedBy := some .children
                frames := fs } :: n.activations } :: ns }
  | runSiblings {x : State} {a : Activation} {n : OpenNode} {ns : List OpenNode}
      (fs : List Frame) (r : SiblingRequest) : x.nodes = n :: ns → a.isInitialiser = false →
      a.suspendedBy = none → Turn env (.run a) x []
        { x with nodes :=
          { n with
            activations :=
              { a with
                phase := .awaitingSiblings r
                suspendedBy := some .siblings
                frames := fs } :: n.activations } :: ns }
  | runSelf {x : State} {a : Activation} {n : OpenNode} {ns : List OpenNode}
      (fs : List Frame) (h : Handover) (exclude : List TemplateId) :
      x.nodes = n :: ns → a.isInitialiser = false → a.suspendedBy = none →
      exclude = a.template?.toList ++ n.activations.filterMap Activation.template? →
      Turn env (.run a) x [.dispatch h exclude a.hasChildren, .selfDone n.activations.length]
        { x with nodes :=
          { n with
            activations :=
              { a with
                phase := .awaitingSelf
                suspendedBy := some .self
                frames := fs } :: n.activations } :: ns }
  | attributesDone {x : State} {h : Handover} : Turn env (.attributes [] h) x [] x
  | attributes {x : State} {h : Handover} {attr : Attribute} {place : Nat}
      {rest : List (Attribute × Nat)} :
      Turn env (.attributes ((attr, place) :: rest) h) x
        [.dispatch h [] false, .close .final, .attributes rest h]
        { x with
          nodes := .fresh (.met x.serial (.attr attr place)) :: x.nodes
          serial := x.serial + 1 }
  | selfResumed {x : State} {n : OpenNode} {ns : List OpenNode} {a : Activation}
      {r : List Activation} : x.nodes = n :: ns → n.activations = a :: r →
      Turn env (.selfDone r.length) x [.run { a with phase := .running }]
        { x with nodes := { n with activations := r } :: ns }
  | selfWaits {x : State} {below : Nat} {n : OpenNode} {ns : List OpenNode} : x.nodes = n :: ns →
      (∀ a r, n.activations = a :: r → r.length ≠ below) → Turn env (.selfDone below) x [] x
  | closeWaits {x : State} {mode : Closing} {n : OpenNode} {ns : List OpenNode} {w : SiblingWait}
      {ws : List SiblingWait} : x.nodes = n :: ns → n.waits = w :: ws →
      Turn env (.close mode) x [.close .restored, .close mode]
        { x with nodes := .ofWait w :: { n with waits := ws } :: ns }
  | closeClear {x : State} {mode : Closing} : (∀ n ns, x.nodes = n :: ns → n.waits = []) →
      Turn env (.close mode) x [.unwind mode] x
  | unwindPopped {x : State} {mode : Closing} {n : OpenNode} {ns : List OpenNode} :
      x.nodes = n :: ns →
      (∀ a r, n.activations = a :: r → Operation.outlives mode a = true) →
      Turn env (.unwind mode) x [] { x with nodes := handOn n ns }
  | unwindResumed {x : State} {mode : Closing} {n : OpenNode} {ns : List OpenNode}
      {a : Activation} {r : List Activation} : x.nodes = n :: ns → n.activations = a :: r →
      Operation.outlives mode a = false → (∀ copied, a.role ≠ .builtIn copied) →
      Turn env (.unwind mode) x [.run { a with phase := .running }, .unwind mode]
        { x with nodes := { n with children := none, activations := r } :: ns }
  | unwindBuiltIn {x : State} {mode : Closing} {n : OpenNode} {ns : List OpenNode}
      {a : Activation} {r : List Activation} {copied : Option QName} :
      x.nodes = n :: ns → n.activations = a :: r →
      Operation.outlives mode a = false → a.role = .builtIn copied →
      Turn env (.unwind mode) x [.unwind mode]
        { x with nodes := { n with children := none, activations := r } :: ns }

/-! ## Inversion -/

@[simp] theorem State.inputSide_after (s : State) (h : Happening) :
    (s.after h).inputSide = s.inputSide := rfl

@[simp] theorem State.inputSide_nodes (s : State) : s.inputSide.nodes = s.nodes := rfl

theorem State.nodes_eq {s s' : State} (h : s'.inputSide = s.inputSide) : s'.nodes = s.nodes := by
  rw [← State.inputSide_nodes s', h, State.inputSide_nodes]

@[simp] theorem State.inputSide_heldText (env : Environment) (s : State) :
    s.inputSide.heldText env = s.heldText env := rfl

namespace Operation

variable {env : Environment} {s s' : State} {ts : List Task}

@[simp] theorem yields_note {n : Note} {u : Unit} :
    Yields (note n) s u s' ↔ s' = s.after (.noted n) := yields_modify

@[simp] theorem yields_current {n : OpenNode} :
    Yields current s n s' ↔ (∃ ns, s.nodes = n :: ns) ∧ s' = s := by
  rw [current, yields_get_bind]
  rcases hn : s.nodes with - | ⟨m, ms⟩
  · simp
  · simp only [yields_pure, List.cons.injEq, exists_and_left, exists_eq', and_true]
    rw [eq_comm]

@[simp] theorem yields_modifyCurrent {g : OpenNode → OpenNode} {u : Unit} :
    Yields (modifyCurrent g) s u s' ↔
      ∃ n ns, s.nodes = n :: ns ∧ s' = { s with nodes := g n :: ns } := by
  rw [modifyCurrent, yields_get_bind]
  rcases hn : s.nodes with - | ⟨m, ms⟩
  · simp
  · simp only [yields_modify, List.cons.injEq]
    constructor
    · rintro rfl
      exact ⟨m, ms, ⟨rfl, rfl⟩, rfl⟩
    · rintro ⟨n, ns, ⟨rfl, rfl⟩, rfl⟩
      rfl

@[simp] theorem yields_enterNode {n : OpenNode} {u : Unit} :
    Yields (enterNode n) s u s' ↔
      s' = ({ s with nodes := n :: s.nodes }).after (.noted (.enterNode n.event (s.depth + 1))) := by
  rw [enterNode, yields_modify_bind, yields_get_bind]
  exact yields_note

@[simp] theorem yields_newEvent {c : Content} {e : Event} :
    Yields (newEvent c) s e s' ↔
      e = .met s.serial c ∧ s' = { s with serial := s.serial + 1 } := yields_modifyGet

@[simp] theorem yields_takeText {t : Option String} :
    Yields (takeText env) s t s' ↔
      t = s.heldText env ∧ s' = { s with pendingText := "" } := by
  rw [takeText, yields_get_bind, yields_modify_bind]
  unfold State.heldText
  split <;> exact yields_pure

/-- An emission is no turn of the input side. -/
theorem inputSide_emit {e : Output.Event} {node : Option NodeId} {u : Unit}
    (h : Yields (emit env e node) s u s') : s'.inputSide = s.inputSide :=
  inputSide_eq (fun s₀ => (outward_inputSide env s₀).emit e node) h

theorem turn_begin (h : (begin env).Yields s ts s') :
    Turn env .begin s.inputSide ts s'.inputSide := by
  simp only [begin, yields_bind, yields_note, yields_newEvent, yields_enterNode,
    yields_pure] at h
  obtain ⟨_, _, rfl, _, s₂, he, root, _, ⟨rfl, rfl⟩, _, _, rfl, rfl, rfl⟩ := h
  have hside := inputSide_emit he
  rw [State.inputSide_after] at hside
  exact hside ▸ Turn.begin (x := s₂.inputSide)

theorem closed_of_concludeInput (h : (concludeInput env).Yields s ts s') :
    s.inputOpen = [] ∧ ts = [.flush false, .close .final, .endOutput] ∧ s' = s := by
  rw [concludeInput, yields_get_bind] at h
  split at h
  · simp [fatal] at h
  · rename_i ho
    exact ⟨ho, yields_pure.mp h⟩

theorem turn_conclude (h : (concludeInput env).Yields s ts s') :
    Turn env .conclude s.inputSide ts s'.inputSide := by
  obtain ⟨ho, rfl, rfl⟩ := closed_of_concludeInput h
  exact .conclude ho

theorem turn_endOutput (h : (endOutput env).Yields s () s') :
    Turn env .endOutput s.inputSide [] s'.inputSide := by
  simp only [endOutput, yields_bind, yields_note] at h
  obtain ⟨_, s₁, he, rfl⟩ := h
  rw [State.inputSide_after, inputSide_emit he]
  exact .endOutput

theorem turn_flush {closing : Bool} (h : (flush env closing).Yields s ts s') :
    Turn env (.flush closing) s.inputSide ts s'.inputSide := by
  simp only [flush, yields_bind, yields_takeText] at h
  obtain ⟨text, _, ⟨rfl, rfl⟩, h⟩ := h
  simp only [yields_get, yields_modify, yields_pure] at h
  obtain ⟨_, _, ⟨rfl, rfl⟩, _, _, rfl, rfl, rfl⟩ := h
  have hturn : Turn env _ s.inputSide _ _ := .flush closing
  have hpending : s.inputSide.pendingStart = s.pendingStart := rfl
  rw [State.inputSide_heldText, hpending] at hturn
  rcases hp : s.pendingStart with - | ⟨n, as⟩ <;> rcases ht : s.heldText env with - | t <;>
    (rw [hp, ht] at hturn; exact hturn)

theorem opened_of_checkEnd {n : QName} {u : Unit}
    (h : (checkEnd env n).Yields s u s') :
    ∃ o os, s.inputOpen = o :: os ∧ o.same n ∧ s' = { s with inputOpen := os } := by
  rw [checkEnd, yields_get_bind] at h
  split at h
  · simp [fatal] at h
  · rename_i o os ho
    rw [yields_modify_bind] at h
    split at h
    · rename_i hsame
      exact ⟨o, os, ho, hsame, (yields_pure.mp h).2⟩
    · simp [fatal] at h

theorem turn_checkEnd {n : QName} {u : Unit} (h : (checkEnd env n).Yields s u s') :
    Turn env (.checkEnd n) s.inputSide [] s'.inputSide := by
  obtain ⟨o, os, ho, hsame, rfl⟩ := opened_of_checkEnd h
  exact .checkEnd ho hsame

theorem turn_leave (h : leave.Yields s ts s') : Turn env .leave s.inputSide ts s'.inputSide := by
  rw [leave, yields_get_bind] at h
  split at h
  · rename_i hskip
    simp only [yields_bind, yields_set, yields_pure] at h
    obtain ⟨_, _, rfl, rfl, rfl⟩ := h
    exact .leaveSkipped hskip
  · rename_i hskip
    obtain ⟨rfl, rfl⟩ := yields_pure.mp h
    exact .leave (Nat.eq_zero_of_not_pos hskip)

theorem turn_meet {c : Content} {hasChildren : Bool} (h : (meet env c hasChildren).Yields s ts s') :
    Turn env (.meet c hasChildren) s.inputSide ts s'.inputSide := by
  rw [meet, yields_get_bind] at h
  split at h
  · rename_i hskip
    have hturn : Turn env (.meet c hasChildren) s.inputSide _ _ := .meetSkipped hskip
    split at h
    · rename_i hc
      simp only [yields_bind, yields_modify, yields_pure] at h
      obtain ⟨_, _, rfl, rfl, rfl⟩ := h
      rw [if_pos hc] at hturn
      exact hturn
    · rename_i hc
      obtain ⟨rfl, rfl⟩ := yields_pure.mp h
      rw [if_neg hc] at hturn
      exact hturn
  · rename_i hskip
    split at h
    · simp [fatal] at h
    · rename_i n ns hn
      simp only [yields_bind, yields_newEvent, yields_modifyCurrent, yields_pure] at h
      obtain ⟨e, _, ⟨rfl, rfl⟩, _, _, ⟨m, ms, hm, rfl⟩, rfl, rfl⟩ := h
      obtain ⟨rfl, rfl⟩ := List.cons.inj (hn.symm.trans hm)
      exact .meet (Nat.eq_zero_of_not_pos hskip) hn

theorem yields_releaseWait {w : SiblingWait} {ws : List SiblingWait} {u : Unit} :
    Yields (releaseWait w ws) s u s' ↔ ∃ n ns, s.nodes = n :: ns ∧
      s' = { s with nodes := .ofWait w :: { n with waits := ws } :: ns } := by
  simp only [releaseWait, restore, yields_bind, yields_modifyCurrent, yields_modify]
  constructor
  · rintro ⟨_, _, ⟨n, ns, hn, rfl⟩, rfl⟩
    exact ⟨n, ns, hn, rfl⟩
  · rintro ⟨n, ns, hn, rfl⟩
    exact ⟨⟨⟩, _, ⟨n, ns, hn, rfl⟩, rfl⟩

theorem turn_openChild {e : Event} {g : Handover} {hasChildren : Bool}
    {n : OpenNode} {ns : List OpenNode} (hn : s.nodes = n :: ns)
    (h : (openChild e g hasChildren).Yields s ts s') :
    Turn env (.offer e hasChildren) s.inputSide ts s'.inputSide := by
  simp only [openChild, yields_bind, yields_enterNode, yields_pure] at h
  obtain ⟨_, _, rfl, rfl, rfl⟩ := h
  have hturn : Turn env (.offer e hasChildren) s.inputSide _ _ := .offerOpened g hn
  rw [← hn] at hturn
  exact hturn

theorem turn_offer {e : Event} {hasChildren : Bool} (h : (offer env e hasChildren).Yields s ts s') :
    Turn env (.offer e hasChildren) s.inputSide ts s'.inputSide := by
  simp only [offer, yields_bind, yields_current] at h
  obtain ⟨n, s₁, ⟨⟨ns, hn⟩, rfl⟩, h⟩ := h
  split at h
  · rename_i hw
    split at h
    · exact turn_openChild hn h
    · rename_i hchildren
      simp only [skip, yields_bind, yields_pure] at h
      obtain ⟨_, s₂, hskip, rfl, rfl⟩ := h
      have hturn : Turn env (.offer e hasChildren) s₁.inputSide _ _ :=
        .offerSkipped hn hw hchildren
      split at hskip
      · rename_i he
        obtain rfl := yields_modify.mp hskip
        rw [if_pos he] at hturn
        exact hturn
      · rename_i he
        obtain ⟨-, rfl⟩ := yields_pure.mp hskip
        rw [if_neg he] at hturn
        exact hturn
  · rename_i w ws hw
    have declined : ∀ {s₂ : State}, s₂.inputSide = s₁.inputSide →
        (do releaseWait w ws
            pure [Task.close .restored, .offer e hasChildren]).Yields s₂ ts s' →
        Turn env (.offer e hasChildren) s₁.inputSide ts s'.inputSide := by
      intro s₂ hside hr
      simp only [yields_bind, yields_releaseWait, yields_pure] at hr
      obtain ⟨_, _, ⟨m, ms, hm, rfl⟩, rfl, rfl⟩ := hr
      rw [← hside]
      rw [← State.inputSide_nodes, ← hside] at hn
      obtain ⟨rfl, rfl⟩ := List.cons.inj (hm.symm.trans hn)
      exact .offerDeclined hm hw
    split at h
    · exact declined rfl h
    · rename_i r hr
      rw [yields_bind] at h
      obtain ⟨taken, s₂, ht, h⟩ := h
      have hside := inputSide_eq (fun s₀ => (outward_inputSide env s₀).takes _ _ _) ht
      split at h
      · rw [← hside]
        rw [← State.inputSide_nodes, ← hside] at hn
        exact turn_openChild hn h
      · exact declined hside h

/-! ### Activations -/

theorem turn_builtIn {g : Handover} {exclude : List TemplateId} {hasChildren : Bool} {u : Unit}
    (h : (builtIn env g hasChildren).Yields s u s') :
    Turn env (.dispatch g exclude hasChildren) s.inputSide [] s'.inputSide := by
  simp only [builtIn, yields_bind, yields_current] at h
  obtain ⟨n, s₁, ⟨⟨ns, hn⟩, rfl⟩, h⟩ := h
  have descended : ∀ {s₂ : State} (copied : Option QName), s₂.inputSide = s₁.inputSide →
      (do parkForChildren (.start (.builtIn copied) (← get).depth 1 hasChildren []) g).Yields
        s₂ u s' → Turn env (.dispatch g exclude hasChildren) s₁.inputSide [] s'.inputSide := by
    intro s₂ copied hside hy
    rw [yields_get_bind, parkForChildren, yields_modifyCurrent] at hy
    obtain ⟨m, ms, hm, rfl⟩ := hy
    rw [← hside]
    exact .dispatchBuiltIn copied hm
  have unmoved : s'.inputSide = s₁.inputSide →
      Turn env (.dispatch g exclude hasChildren) s₁.inputSide [] s'.inputSide :=
    fun hside => hside ▸ .dispatchNothing
  split at h
  · exact descended none rfl h
  · split at h
    · obtain ⟨_, s₂, he, h⟩ := yields_bind.mp h
      exact descended _ (inputSide_emit he) h
    · exact descended none rfl h
  all_goals
    split at h
    · apply unmoved
      first
        | exact inputSide_emit h
        | exact inputSide_eq (fun s₀ => (outward_inputSide env s₀).addAttribute _ _) h
    · obtain ⟨-, rfl⟩ := yields_pure.mp h
      exact unmoved rfl

theorem turn_startTemplate {g : Handover} {exclude : List TemplateId} {hasChildren : Bool}
    {found : Found} (hexclude : found.id ∉ exclude)
    (h : (startTemplate env found g.passed hasChildren).Yields s ts s') :
    Turn env (.dispatch g exclude hasChildren) s.inputSide ts s'.inputSide := by
  unfold startTemplate at h
  split at h
  · obtain ⟨rfl, rfl⟩ := yields_pure.mp h
    exact .dispatchNothing
  · rename_i t ht
    simp only [yields_bind, yields_current, yields_note, yields_get] at h
    obtain ⟨n, s₁, ⟨-, rfl⟩, _, _, rfl, _, _, ⟨rfl, rfl⟩, h⟩ := h
    have hturn : Turn env (.dispatch g exclude hasChildren) s₁.inputSide _ _ :=
      .dispatchTemplate found.position ht hexclude
    split at h
    · rename_i hentry
      obtain ⟨rfl, rfl⟩ := yields_pure.mp h
      have hentered : t.entered? = some t.group := if_pos hentry
      rw [Template.activation, hentered] at hturn
      exact hturn
    · rename_i hentry
      obtain ⟨rfl, rfl⟩ := yields_pure.mp h
      have hentered : t.entered? = none := if_neg hentry
      rw [Template.activation, hentered] at hturn
      exact hturn

theorem turn_dispatch {g : Handover} {exclude : List TemplateId} {hasChildren : Bool}
    (h : (dispatch env g exclude hasChildren).Yields s ts s') :
    Turn env (.dispatch g exclude hasChildren) s.inputSide ts s'.inputSide := by
  obtain ⟨found, s₁, hselect, h⟩ := yields_bind.mp h
  have hexclude := gives_selectTemplate _ _ _ _ _ _ hselect
  rw [← inputSide_eq (fun s₀ => (outward_inputSide env s₀).selectTemplate _ _ _) hselect]
  cases found with
  | some f => exact turn_startTemplate (hexclude f rfl) h
  | none =>
    simp only [yields_bind, yields_pure] at h
    obtain ⟨_, _, hb, rfl, rfl⟩ := h
    exact turn_builtIn hb

theorem turn_enterGroup {g : GroupId} (h : (enterGroup env g).Yields s ts s') :
    Turn env (.enterGroup g) s.inputSide ts s'.inputSide := by
  rw [enterGroup, yields_modify_bind] at h
  split at h
  · obtain ⟨rfl, rfl⟩ := yields_pure.mp h
    exact .enterGroupAlone
  · rename_i b hb
    rw [yields_get_bind] at h
    obtain ⟨rfl, rfl⟩ := yields_pure.mp h
    exact .enterGroup (x := s.inputSide) _ hb

theorem turn_suspend {a : Activation} {f : Frame} {fs : List Frame} {r : Request}
    (ha : a.isInitialiser = false) (hfirst : r.walk.suspends → a.suspendedBy = none)
    (h : (suspend { a with
      frames := f :: fs
      suspendedBy := if r.walk.suspends then some r.walk else a.suspendedBy } r).Yields s ts s') :
    Turn env (.run a) s.inputSide ts s'.inputSide := by
  unfold suspend at h
  cases hw : r.walk with
  | attributes =>
    simp only [hw, yields_bind, yields_current, yields_pure] at h
    obtain ⟨n, _, ⟨⟨ns, hn⟩, rfl⟩, rfl, rfl⟩ := h
    exact .runAttributes (f :: fs) r.handover hn
  | children =>
    simp only [hw, parkForChildren, yields_bind, yields_modifyCurrent, yields_pure] at h
    obtain ⟨_, _, ⟨n, ns, hn, rfl⟩, rfl, rfl⟩ := h
    exact .runChildren (f :: fs) r.handover hn ha (hfirst (by rw [hw]; rfl))
  | siblings =>
    simp only [hw, park, yields_bind, yields_modifyCurrent, yields_pure] at h
    obtain ⟨_, _, ⟨n, ns, hn, rfl⟩, rfl, rfl⟩ := h
    exact .runSiblings (f :: fs) ⟨r.handover, r.instruction⟩ hn ha (hfirst (by rw [hw]; rfl))
  | self =>
    simp only [hw, park, yields_bind, yields_current, yields_modifyCurrent, yields_pure] at h
    obtain ⟨n, _, ⟨⟨ns, hn⟩, rfl⟩, _, _, ⟨m, ms, hm, rfl⟩, rfl, rfl⟩ := h
    obtain ⟨rfl, rfl⟩ := List.cons.inj (hn.symm.trans hm)
    exact .runSelf (f :: fs) r.handover _ hn ha (hfirst (by rw [hw]; rfl)) rfl

/-- Only the outlet learns that a template is left. -/
theorem sides_noteLeft {a : Activation} {u : Unit} (h : (match a.template? with
      | some id => note (.leaveTemplate id (env.program.sourceOf id))
      | none => pure ()).Yields s u s') : s'.inputSide = s.inputSide ∧ s'.frames = s.frames := by
  split at h
  · rw [yields_note.mp h]
    exact ⟨rfl, rfl⟩
  · obtain ⟨-, rfl⟩ := yields_pure.mp h
    exact ⟨rfl, rfl⟩

theorem inputSide_conclude {a : Activation} {u : Unit} (h : (conclude env a).Yields s u s') :
    s'.inputSide = s.inputSide := by
  cases he : a.entered with
  | some g =>
    simp only [conclude, he, yields_modify_bind] at h
    exact (sides_noteLeft h).1
  | none =>
    simp only [conclude, he] at h
    exact (sides_noteLeft h).1

theorem turn_advance {a : Activation} (h : (advance env a).Yields s ts s') :
    Turn env (.run a) s.inputSide ts s'.inputSide := by
  unfold advance at h
  split at h
  · rename_i ha
    simp only [yields_bind, yields_pure] at h
    obtain ⟨_, s₁, hconclude, rfl, rfl⟩ := h
    exact inputSide_conclude hconclude ▸ .runEnded ha
  · rename_i f fs ha
    split at h
    · obtain ⟨rfl, rfl⟩ := yields_pure.mp h
      exact .runOn fs
    · rename_i n hn
      obtain ⟨flow, s₁, hflow, h⟩ := yields_bind.mp h
      rw [← inputSide_eq (fun s₀ => inputSide_execute env s₀ a f n) hflow]
      cases flow with
      | on f' =>
        obtain ⟨rfl, rfl⟩ := yields_pure.mp h
        exact .runOn (f' :: fs)
      | done =>
        obtain ⟨rfl, rfl⟩ := yields_pure.mp h
        exact .runOn fs
      | call f' procedure passed =>
        simp only [enterProcedure] at h
        split at h
        · simp [fatal] at h
        · split at h
          · obtain ⟨rfl, rfl⟩ := yields_pure.mp h
            exact .runOn (_ :: f' :: fs)
          · obtain ⟨rfl, rfl⟩ := yields_pure.mp h
            exact .runOn (f' :: fs)
      | walk f' r =>
        obtain ⟨hinitialiser, hfirst⟩ := permitted_execute n _ _ _ hflow
        exact turn_suspend hinitialiser hfirst h

theorem turn_attributes {as : List (Attribute × Nat)} {g : Handover}
    (h : (attributes as g).Yields s ts s') :
    Turn env (.attributes as g) s.inputSide ts s'.inputSide := by
  unfold attributes at h
  split at h
  · obtain ⟨rfl, rfl⟩ := yields_pure.mp h
    exact .attributesDone
  · simp only [yields_bind, yields_newEvent, yields_enterNode, yields_pure] at h
    obtain ⟨e, _, ⟨rfl, rfl⟩, _, _, rfl, rfl, rfl⟩ := h
    exact .attributes (x := s.inputSide)

theorem turn_selfDone {below : Nat} (h : (selfDone below).Yields s ts s') :
    Turn env (.selfDone below) s.inputSide ts s'.inputSide := by
  simp only [selfDone, yields_bind, yields_current] at h
  obtain ⟨n, _, ⟨⟨ns, hn⟩, rfl⟩, h⟩ := h
  split at h
  · rename_i a r ha
    split at h
    · rename_i hbelow
      simp only [yields_bind, yields_modifyCurrent, yields_pure] at h
      obtain ⟨_, _, ⟨m, ms, hm, rfl⟩, rfl, rfl⟩ := h
      obtain ⟨rfl, rfl⟩ := List.cons.inj (hn.symm.trans hm)
      exact hbelow ▸ .selfResumed hm ha
    · rename_i hbelow
      obtain ⟨rfl, rfl⟩ := yields_pure.mp h
      refine .selfWaits hn fun b bs hb => ?_
      obtain ⟨rfl, rfl⟩ := List.cons.inj (ha.symm.trans hb)
      exact hbelow
  · rename_i ha
    obtain ⟨rfl, rfl⟩ := yields_pure.mp h
    exact .selfWaits hn fun b bs hb => by simp [ha] at hb

theorem turn_close {mode : Closing} (h : (close mode).Yields s ts s') :
    Turn env (.close mode) s.inputSide ts s'.inputSide := by
  rw [close, yields_get_bind] at h
  split at h
  · rename_i hn
    obtain ⟨rfl, rfl⟩ := yields_pure.mp h
    exact .closeClear fun n ns hn' => by simp [hn] at hn'
  · rename_i n ns hn
    split at h
    · rename_i hw
      obtain ⟨rfl, rfl⟩ := yields_pure.mp h
      refine .closeClear fun m ms hm => ?_
      obtain ⟨rfl, rfl⟩ := List.cons.inj (hn.symm.trans hm)
      exact hw
    · rename_i w ws hw
      simp only [yields_bind, yields_releaseWait, yields_pure] at h
      obtain ⟨_, _, ⟨m, ms, hm, rfl⟩, rfl, rfl⟩ := h
      obtain ⟨rfl, rfl⟩ := List.cons.inj (hn.symm.trans hm)
      exact .closeWaits hm hw

/-- Closing a node hands what is still parked there on to the node below. -/
theorem yields_popNode {mode : Closing} {u : Unit} (h : (popNode mode).Yields s u s') :
    ∃ n ns, s.nodes = n :: ns ∧ s'.inputSide = { s.inputSide with nodes := handOn n ns } := by
  rw [popNode, yields_get_bind] at h
  split at h
  · exact (yields_throw.mp h).elim
  · rename_i n ns hn
    refine ⟨n, ns, hn, ?_⟩
    have handed : ∀ {s₁ : State}, s₁.inputSide = { s.inputSide with nodes := ns } →
        (if !n.activations.isEmpty && !ns.isEmpty then
          modifyCurrent fun parent =>
            { parent with waits := ⟨n.event, n.activations⟩ :: parent.waits }
        else pure ()).Yields s₁ u s' →
        s'.inputSide = { s.inputSide with nodes := handOn n ns } := by
      intro s₁ hside hy
      have hns : s₁.nodes = ns := congrArg State.nodes hside
      split at hy
      · rename_i hwaits
        obtain ⟨p, r, hp, rfl⟩ := yields_modifyCurrent.mp hy
        obtain rfl := hns.symm.trans hp
        have hnone : ¬ n.activations.isEmpty := by simpa using hwaits
        rw [handOn, if_neg hnone]
        exact congrArg (fun x : State => { x with nodes :=
          { p with waits := ⟨n.event, n.activations⟩ :: p.waits } :: r }) hside
      · rename_i hwaits
        obtain ⟨-, rfl⟩ := yields_pure.mp hy
        rw [hside]
        cases ns with
        | nil => rfl
        | cons p r =>
          have hall : n.activations.isEmpty := by simpa using hwaits
          rw [handOn, if_pos hall]
    simp only at h
    split at h
    · simp only [yields_bind, yields_set, yields_note] at h
      obtain ⟨_, _, rfl, _, _, rfl, h⟩ := h
      exact handed rfl h
    · simp only [yields_bind, yields_set] at h
      obtain ⟨_, _, rfl, h⟩ := h
      exact handed rfl h

/-- The node that ends is closed, unless one of its activations goes on. -/
theorem yields_unwind {mode : Closing} (h : (unwind env mode).Yields s ts s') :
    ∃ n ns, s.nodes = n :: ns ∧
      (((∀ a r, n.activations = a :: r → outlives mode a = true) ∧ ts = [] ∧
          (popNode mode).Yields s () s') ∨
        ∃ a r ts', n.activations = a :: r ∧ outlives mode a = false ∧
          ts = ts' ++ [.unwind mode] ∧ (resume env a).Yields
            { s with nodes := { n with children := none, activations := r } :: ns } ts' s') := by
  have popped : (do popNode mode
                    pure [] : Operation (List Task)).Yields s ts s' →
      ts = [] ∧ (popNode mode).Yields s () s' := by
    intro h
    obtain ⟨_, _, hp, h⟩ := yields_bind.mp h
    obtain ⟨rfl, rfl⟩ := yields_pure.mp h
    exact ⟨rfl, hp⟩
  rw [unwind, yields_get_bind] at h
  split at h
  · rename_i hn
    obtain ⟨-, hp⟩ := popped h
    obtain ⟨m, ms, hm, -⟩ := yields_popNode hp
    cases hn.symm.trans hm
  · rename_i n ns hn
    refine ⟨n, ns, hn, ?_⟩
    split at h
    · rename_i ha
      exact .inl ⟨fun a r ha' => (List.cons_ne_nil a r (ha'.symm.trans ha)).elim, popped h⟩
    · rename_i a r ha
      split at h
      · rename_i hout
        refine .inl ⟨fun a' r' ha' => ?_, popped h⟩
        obtain ⟨rfl, -⟩ := List.cons.inj (ha.symm.trans ha')
        exact hout
      · rename_i hout
        simp only [yields_bind, yields_modifyCurrent, yields_pure] at h
        obtain ⟨_, _, ⟨m, ms, hm, rfl⟩, ts', s₁, hresume, rfl, rfl⟩ := h
        obtain ⟨rfl, rfl⟩ := List.cons.inj (hn.symm.trans hm)
        exact .inr ⟨a, r, ts', ha, eq_false_of_ne_true hout, rfl, hresume⟩

theorem turn_unwind {mode : Closing} (h : (unwind env mode).Yields s ts s') :
    Turn env (.unwind mode) s.inputSide ts s'.inputSide := by
  obtain ⟨n, ns, hn, ⟨hout, rfl, hp⟩ | ⟨a, r, ts', ha, hout, rfl, hresume⟩⟩ := yields_unwind h
  · obtain ⟨m, ms, hm, hside⟩ := yields_popNode hp
    obtain ⟨rfl, rfl⟩ := List.cons.inj (hn.symm.trans hm)
    exact hside ▸ .unwindPopped hn hout
  · unfold resume at hresume
    split at hresume
    · rename_i copied hrole
      have hturn : Turn env (.unwind mode) s.inputSide _ _ := .unwindBuiltIn hn ha hout hrole
      split at hresume
      · simp only [yields_bind, yields_pure] at hresume
        obtain ⟨_, s₂, he, rfl, rfl⟩ := hresume
        rw [inputSide_emit he]
        exact hturn
      · obtain ⟨rfl, rfl⟩ := yields_pure.mp hresume
        exact hturn
    all_goals
      rename_i hrole
      obtain ⟨rfl, rfl⟩ := yields_pure.mp hresume
      exact .unwindResumed hn ha hout fun copied h => by simp [hrole] at h

end Operation

theorem Turn.of_yields {env : Environment} {t : Task} {ts : List Task} {s s' : State}
    (h : (t.perform env).Yields s ts s') : Turn env t s.inputSide ts s'.inputSide := by
  cases t with
  | begin => exact Operation.turn_begin h
  | conclude => exact Operation.turn_conclude h
  | endOutput =>
    obtain ⟨_, _, he, hp⟩ := Operation.yields_bind.mp h
    obtain ⟨rfl, rfl⟩ := Operation.yields_pure.mp hp
    exact Operation.turn_endOutput he
  | flush closing => exact Operation.turn_flush h
  | hold n as =>
    obtain ⟨_, _, hh, hp⟩ := Operation.yields_bind.mp h
    obtain ⟨rfl, rfl⟩ := Operation.yields_pure.mp hp
    obtain rfl := Operation.yields_modify.mp hh
    exact .hold (x := s.inputSide) n as
  | checkEnd n =>
    obtain ⟨_, _, hc, hp⟩ := Operation.yields_bind.mp h
    obtain ⟨rfl, rfl⟩ := Operation.yields_pure.mp hp
    exact Operation.turn_checkEnd hc
  | leave => exact Operation.turn_leave h
  | meet c hasChildren => exact Operation.turn_meet h
  | offer e hasChildren => exact Operation.turn_offer h
  | dispatch g exclude hasChildren => exact Operation.turn_dispatch h
  | enterGroup g => exact Operation.turn_enterGroup h
  | run a => exact Operation.turn_advance h
  | attributes as g => exact Operation.turn_attributes h
  | selfDone below => exact Operation.turn_selfDone h
  | close mode => exact Operation.turn_close h
  | unwind mode => exact Operation.turn_unwind h

end StreamTransform
