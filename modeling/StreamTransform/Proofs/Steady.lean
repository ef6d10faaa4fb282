import StreamTransform.Proofs.Flow

/-!
# Tasks that keep a property

A task turns the input side: it opens nodes, parks activations on them, takes
input in and gives groups their frames. `Steady` says that a property bears all
of that while a node is open. The lemmas say which tasks then keep it: those
that write nothing if it is calm, and the others if it bears output as well.
Only the end of a node is left out, because after it no node may be open.
-/

namespace StreamTransform

namespace Operation

variable {α : Type} {env : Environment} {allowed : QName → List Attribute → Prop}
  {P : State → Prop} {Q : Fault → State → Prop}

/-- A property that bears every change of the input side that leaves a node open, and what comes of
a missing node. -/
structure Steady (env : Environment) (P : State → Prop) (Q : Fault → State → Prop) : Prop where
  turned : ∀ {s s' : State}, P s → s'.outlet = s.outlet → s'.frames = s.frames →
    (s.nodes ≠ [] → s'.nodes ≠ []) → P s'
  stray : ∀ {s : State} {f : Fault}, P s → s.nodes = [] → f.isPositional → Q f s
  strayReported : ∀ {s : State} {f : Fault}, P s → s.nodes = [] → f.isPositional →
    (report env .fatal f none).Ensures s (fun _ => Q f) Q

/-- A procedure is called, or calls are nested too deep. -/
theorem keeps_enterProcedure
    (hr : ∀ limit, Keeps P Q (report env .fatal (.recursionLimit limit) none))
    (hq : ∀ limit s, P s → Q (.recursionLimit limit) s) (a : Activation) (id : ProcedureId)
    (passed : Bindings) : Keeps P Q (enterProcedure env a id passed) := by
  unfold enterProcedure
  simp only
  split
  · exact keeps_bind (hr _) fun _ => keeps_throw (hq _)
  · split <;> exact keeps_pure _

theorem Voices.resume (ho : Voices env allowed P Q) (a : Activation) :
    Keeps P Q (resume env a) := by
  unfold Operation.resume
  split
  · simp only
    split
    · exact keeps_bind (ho.emit _ _ trivial) fun _ => keeps_pure _
    · exact keeps_pure _
  all_goals exact keeps_pure _

theorem Calm.noteLeft (h : Calm env P Q) (a : Activation) :
    Keeps P Q (match a.template? with
      | some id => note (.leaveTemplate id (env.program.sourceOf id))
      | none => pure ()) := by
  split
  · exact h.noted _
  · exact keeps_pure _

theorem Calm.conclude (h : Calm env P Q) (a : Activation)
    (hp : ∀ g ∈ a.entered, ∀ s, P s → P { s with frames := s.frames.pop g }) :
    Keeps P Q (conclude env a) := by
  unfold Operation.conclude
  cases hentered : a.entered with
  | none => exact h.noteLeft a
  | some g => exact keeps_bind (keeps_modify (hp g hentered)) fun _ => h.noteLeft a

theorem keeps_enterGroup {g : GroupId} (hp : ∀ s, P s → P { s with frames := s.frames.push g }) :
    Keeps P Q (enterGroup env g) := by
  refine keeps_bind (keeps_modify hp) fun _ => ?_
  split
  · exact keeps_pure _
  · exact keeps_bind keeps_get fun _ => keeps_pure _

theorem Calm.begin (h : Calm env P Q) (he : Keeps P Q (emit env .startDocument none))
    (hp : ∀ {s s' : State}, P s → s'.outlet = s.outlet → s'.frames = s.frames → P s') :
    Keeps P Q (begin env) :=
  keeps_bind (h.noted _) fun _ => keeps_bind he fun _ =>
    keeps_bind (keeps_modifyGet fun _ hs => hp hs rfl rfl) fun _ =>
    keeps_bind (keeps_bind (keeps_modify fun _ hs => hp hs rfl rfl) fun _ =>
      keeps_bind keeps_get fun _ => h.noted _) fun _ => keeps_pure _

theorem Voices.endOutput (ho : Voices env allowed P Q) (h : Calm env P Q) :
    Keeps P Q (endOutput env) :=
  keeps_bind (ho.emit _ _ trivial) fun _ => h.noted _

namespace Steady

variable (hm : Steady env P Q)
include hm

theorem current : Keeps P Q current := by
  refine keeps_get_bind fun s hs => ?_
  cases hn : s.nodes with
  | nil => exact hm.stray hs hn rfl
  | cons n ns => exact hs

theorem modifyCurrent (g : OpenNode → OpenNode) : Keeps P Q (modifyCurrent g) := by
  refine keeps_get_bind fun s hs => ?_
  cases hn : s.nodes with
  | nil => exact hm.stray hs hn rfl
  | cons n ns => exact hm.turned hs rfl rfl (by simp)

/-- A change of the state that neither writes nor takes the last node away. -/
theorem modify {g : State → State} (ho : ∀ s, (g s).outlet = s.outlet)
    (hf : ∀ s, (g s).frames = s.frames) (hn : ∀ s, s.nodes ≠ [] → (g s).nodes ≠ []) :
    Keeps P Q (modify g : Operation PUnit) :=
  keeps_modify fun s hs => hm.turned hs (ho s) (hf s) (hn s)

theorem newEvent (c : Content) : Keeps P Q (newEvent c) :=
  keeps_modifyGet fun _ hs => hm.turned hs rfl rfl id

theorem restore (w : SiblingWait) : Keeps P Q (restore w) :=
  hm.modify (fun _ => rfl) (fun _ => rfl) (by simp)

theorem releaseWait (w : SiblingWait) (rest : List SiblingWait) : Keeps P Q (releaseWait w rest) :=
  keeps_bind (hm.modifyCurrent _) fun _ => hm.restore w

theorem park (a : Activation) : Keeps P Q (park a) := hm.modifyCurrent _

theorem parkForChildren (a : Activation) (g : Handover) : Keeps P Q (parkForChildren a g) :=
  hm.modifyCurrent _

/-- A walk hands nothing to the output. -/
theorem suspend (a : Activation) (r : Request) : Keeps P Q (suspend a r) := by
  unfold Operation.suspend
  split
  · exact keeps_bind hm.current fun _ => keeps_pure _
  · exact keeps_bind (hm.parkForChildren _ _) fun _ => keeps_pure _
  · exact keeps_bind (hm.park _) fun _ => keeps_pure _
  · exact keeps_bind hm.current fun _ => keeps_bind (hm.park _) fun _ => keeps_pure _

theorem selfDone (below : Nat) : Keeps P Q (selfDone below) := by
  refine keeps_bind hm.current fun n => ?_
  split
  · split
    · exact keeps_bind (hm.modifyCurrent _) fun _ => keeps_pure _
    · exact keeps_pure _
  · exact keeps_pure _

theorem close (mode : Closing) : Keeps P Q (close mode) := by
  refine keeps_bind keeps_get fun s => ?_
  split
  · exact keeps_pure _
  · split
    · exact keeps_pure _
    · exact keeps_bind (hm.releaseWait _ _) fun _ => keeps_pure _

theorem flush (closing : Bool) : Keeps P Q (flush env closing) := by
  have taken : Keeps P Q (takeText env) := by
    refine keeps_bind keeps_get fun s =>
      keeps_bind (hm.modify (fun _ => rfl) (fun _ => rfl) fun _ => id) fun _ => ?_
    split <;> exact keeps_pure _
  exact keeps_bind taken fun _ => keeps_bind keeps_get fun _ =>
    keeps_bind (hm.modify (fun _ => rfl) (fun _ => rfl) fun _ => id) fun _ => keeps_pure _

theorem hold (n : QName) (as : List Attribute) : Keeps P Q (hold n as) :=
  hm.modify (fun _ => rfl) (fun _ => rfl) fun _ => id

theorem leave : Keeps P Q leave := by
  refine keeps_get_bind fun s hs => ?_
  split
  · exact hm.turned hs rfl rfl id
  · exact hs

theorem meet (c : Content) (hasChildren : Bool) : Keeps P Q (meet env c hasChildren) := by
  refine keeps_get_bind fun s hs => ?_
  simp only
  split
  · split
    · exact hm.turned hs rfl rfl id
    · exact hs
  · cases hn : s.nodes with
    | nil => exact ensures_bind.mpr (hm.strayReported hs hn rfl)
    | cons n ns =>
      exact keeps_bind (hm.newEvent c) (fun e =>
        keeps_bind (hm.modifyCurrent _) fun _ => keeps_pure _) s hs

/-- The built-in rule passes on the attributes of the current node. -/
theorem ensures_builtIn (ho : Voices env allowed P Q) (g : Handover) (hasChildren : Bool)
    {s : State} (hs : P s) (hc : ∀ n ns, s.nodes = n :: ns → ∀ name as,
      n.event.content = .element name as → allowed name as) :
    (builtIn env g hasChildren).Ensures s (fun _ s' => P s') Q := by
  have descended : ∀ copied : Option QName, Keeps P Q (do
      Operation.parkForChildren (.start (.builtIn copied) (← get).depth 1 hasChildren []) g) :=
    fun copied => keeps_bind keeps_get fun _ => hm.parkForChildren _ g
  rw [builtIn, ensures_bind]
  cases hn : s.nodes with
  | nil =>
    rw [Operation.current, ensures_bind, ensures_get, hn]
    exact hm.stray hs hn rfl
  | cons n ns =>
    have hallowed := hc n ns hn
    rw [ensures_current hn]
    simp only
    split
    · exact descended none s hs
    · rename_i name as hcontent
      split
      · exact keeps_bind (ho.emit (.opening name as) _ (.inr (hallowed name as hcontent)))
          (fun _ => descended _) s hs
      · exact descended none s hs
    all_goals
      split
      · first
          | exact ho.addAttribute _ _ s hs
          | refine ho.emit _ _ ?_ s hs
            exact trivial
      · exact hs

theorem builtIn (ho : Vocal env P Q) (g : Handover) (hasChildren : Bool) :
    Keeps P Q (builtIn env g hasChildren) := fun _ hs =>
  hm.ensures_builtIn ho.voices g hasChildren hs fun _ _ _ _ _ _ => trivial

theorem checkEnd (h : Muted env P Q) (n : QName) : Keeps P Q (checkEnd env n) := by
  refine keeps_bind keeps_get fun s => ?_
  split
  · exact h.fatal _ rfl
  · refine keeps_bind (hm.modify (fun _ => rfl) (fun _ => rfl) fun _ => id) fun _ => ?_
    split
    · exact keeps_pure _
    · exact h.fatal _ rfl

variable (h : Calm env P Q)
include h

theorem enterNode (n : OpenNode) : Keeps P Q (enterNode n) :=
  keeps_bind (hm.modify (fun _ => rfl) (fun _ => rfl) (by simp)) fun _ =>
    keeps_bind keeps_get fun _ => h.noted _

theorem attributes (as : List (Attribute × Nat)) (g : Handover) : Keeps P Q (attributes as g) := by
  cases as with
  | nil => exact keeps_pure _
  | cons p as =>
    exact keeps_bind (hm.newEvent _) fun e => keeps_bind (hm.enterNode h _) fun _ => keeps_pure _

theorem offer (e : Event) (hasChildren : Bool) : Keeps P Q (offer env e hasChildren) := by
  have released : ∀ (w : SiblingWait) (ws : List SiblingWait), Keeps P Q (do
      Operation.releaseWait w ws
      pure [.close .restored, .offer e hasChildren] : Operation (List Task)) := fun w ws =>
    keeps_bind (hm.releaseWait w ws) fun _ => keeps_pure _
  have opened : ∀ g, Keeps P Q (openChild e g hasChildren) := fun g =>
    keeps_bind (hm.enterNode h _) fun _ => keeps_pure _
  refine keeps_bind hm.current fun n => ?_
  split
  · split
    · exact opened _
    · refine keeps_bind ?_ fun _ => keeps_pure _
      unfold skip
      split
      · exact hm.modify (fun _ => rfl) (fun _ => rfl) fun _ => id
      · exact keeps_pure _
  · split
    · exact released _ _
    · refine keeps_bind (h.takes _ _ e) fun taken => ?_
      split
      · exact opened _
      · exact released _ _

theorem startTemplate (f : Found) (passed : Bindings) (hasChildren : Bool) :
    Keeps P Q (startTemplate env f passed hasChildren) := by
  unfold Operation.startTemplate
  split
  · exact keeps_pure _
  · refine keeps_bind hm.current fun n => keeps_bind (h.noted _) fun _ =>
      keeps_bind keeps_get fun s => ?_
    split <;> exact keeps_pure _

theorem dispatch (ho : Outward env P Q) (g : Handover) (exclude : List TemplateId)
    (hasChildren : Bool) : Keeps P Q (dispatch env g exclude hasChildren) := by
  refine keeps_bind (h.selectTemplate _ _ _) fun found => ?_
  cases found with
  | some f => exact hm.startTemplate h f _ _
  | none => exact keeps_bind (hm.builtIn ho.toVocal g hasChildren) fun _ => keeps_pure _

/-- What an activation keeps for a step if the instruction keeps it. -/
theorem advance {s : State} (hs : P s) (a : Activation)
    (hp : a.frames = [] → ∀ g ∈ a.entered, ∀ s, P s → P { s with frames := s.frames.pop g })
    (hc : ∀ a id passed, Keeps P Q (enterProcedure env a id passed))
    (hx : ∀ f fs n, a.frames = f :: fs → env.program.code[f.cursor]? = some n →
      (execute env a f n).Ensures s (fun _ s' => P s') Q) :
    (advance env a).Ensures s (fun _ s' => P s') Q := by
  unfold Operation.advance
  cases ha : a.frames with
  | nil => exact keeps_bind (h.conclude a (hp ha)) (fun _ => keeps_pure _) s hs
  | cons f fs =>
    cases hn : env.program.code[f.cursor]? with
    | none =>
      simp only [hn]
      exact hs
    | some n =>
      simp only [hn]
      refine ensures_bind.mpr ((hx f fs n ha hn).mono (fun flow s' hs' => ?_) fun _ _ hq => hq)
      cases flow with
      | on g => exact hs'
      | done => exact hs'
      | call g id passed => exact hc _ id passed s' hs'
      | walk g r => exact hm.suspend _ r s' hs'

end Steady

/-- The node that ends stays open until all its activations have gone on. -/
theorem ensures_unwind (hm : Steady env P Q) (ho : Voices env allowed P Q) {mode : Closing}
    {s : State}
    {ok : List Task → State → Prop} (hs : P s)
    (hpop : (popNode mode).Ensures s (fun _ => ok []) Q) (hok : ∀ ts s', P s' → ok ts s') :
    (unwind env mode).Ensures s ok Q := by
  rw [unwind, ensures_bind, ensures_get]
  have ended := ensures_bind.mpr (hpop.mono (fun _ _ h => ensures_pure.mpr h) fun _ _ h => h)
  split
  · exact ended
  · split
    · exact ended
    · split
      · exact ended
      · exact (keeps_bind (hm.modifyCurrent _) (fun _ => keeps_bind (ho.resume _) fun _ =>
          keeps_pure _) s hs).mono (fun _ _ h => hok _ _ h) fun _ _ h => h

/-- The end of a node keeps what does not look at the nodes. -/
theorem ensures_popNode (h : Calm env P Q) {mode : Closing} {s : State}
    (hp : ∀ {s s' : State}, P s → s'.outlet = s.outlet → s'.frames = s.frames → P s')
    (hstray : s.nodes = [] → Q .unbalancedNode s) (hs : P s) :
    (popNode mode).Ensures s (fun _ s' => P s') Q := by
  rw [popNode, ensures_bind, ensures_get]
  cases hn : s.nodes with
  | nil => exact hstray hn
  | cons n ns =>
    have handed : ∀ s₁ : State, s₁.nodes = ns → P s₁ →
        (if !n.activations.isEmpty && !ns.isEmpty then
          modifyCurrent fun parent =>
            { parent with waits := ⟨n.event, n.activations⟩ :: parent.waits }
        else pure ()).Ensures s₁ (fun _ s' => P s') Q := by
      intro s₁ hn₁ hs₁
      split
      · rename_i hwaits
        cases hns : ns with
        | nil => simp [hns] at hwaits
        | cons p r => exact (ensures_modifyCurrent (hn₁.trans hns)).mpr (hp hs₁ rfl rfl)
      · exact hs₁
    have hset : P { s with nodes := ns } := hp hs rfl rfl
    simp only [ensures_bind, ensures_set]
    split
    · exact ensures_bind.mpr (ensures_note.mpr (handed _ rfl (hp (h.noted _ _ hset) rfl rfl)))
    · exact handed _ rfl hset

end Operation

/-- Tasks by which nothing is written. -/
def Task.isQuiet : Task → Bool
  | .begin | .endOutput | .dispatch .. | .run _ | .unwind _ => false
  | .conclude | .flush _ | .hold .. | .checkEnd _ | .leave | .meet .. | .offer .. | .enterGroup _
  | .attributes .. | .selfDone _ | .close _ => true

open Operation in
theorem Task.keeps_perform {env : Environment} {P : State → Prop} {Q : Fault → State → Prop}
    (h : Calm env P Q) (hm : Steady env P Q) (t : Task) (ht : t.isQuiet)
    (hp : ∀ g, t = .enterGroup g → ∀ s, P s → P { s with frames := s.frames.push g }) :
    Keeps P Q (t.perform env) := by
  cases t with
  | conclude =>
    refine keeps_bind keeps_get fun s => ?_
    split
    · exact h.fatal _ rfl
    · exact keeps_pure _
  | flush closing => exact hm.flush closing
  | hold n as => exact keeps_bind (hm.hold n as) fun _ => keeps_pure _
  | checkEnd n => exact keeps_bind (hm.checkEnd h.toMuted n) fun _ => keeps_pure _
  | leave => exact hm.leave
  | meet c hasChildren => exact hm.meet c hasChildren
  | offer e hasChildren => exact hm.offer h e hasChildren
  | enterGroup g => exact keeps_enterGroup (hp g rfl)
  | attributes as g => exact hm.attributes h as g
  | selfDone below => exact hm.selfDone below
  | close mode => exact hm.close mode
  | _ => cases ht

open Operation in
/-- A property of the outlet that bears every note and every write, and what comes of an activation
that runs, bears every task. -/
theorem Task.ensures_perform {env : Environment} {P : State → Prop} {Q : Fault → State → Prop}
    (hout : Outward env P Q) (hm : Steady env P Q)
    (hp : ∀ {s s' : State}, P s → s'.outlet = s.outlet → P s') {t : Task} {s : State} (hs : P s)
    (hstray : Q .unbalancedNode s)
    (hrun : ∀ a, t = .run a → (advance env a).Ensures s (fun _ s' => P s') Q) :
    (t.perform env).Ensures s (fun _ s' => P s') Q := by
  cases t with
  | begin =>
    exact hout.toCalm.begin (hout.toVocal.emit _ _) (fun hs ho _ => hp hs ho) s hs
  | endOutput =>
    exact keeps_bind (hout.toVocal.voices.endOutput hout.toCalm) (fun _ => keeps_pure _) s hs
  | dispatch g exclude hasChildren =>
    exact hm.dispatch hout.toCalm hout g exclude hasChildren s hs
  | run a => exact hrun a rfl
  | unwind mode =>
    have popped : (popNode mode).Ensures s (fun _ => P) Q :=
      ensures_popNode hout.toCalm (fun hs ho _ => hp hs ho) (fun _ => hstray) hs
    exact ensures_unwind hm hout.toVocal.voices hs popped fun _ _ h => h
  | _ => exact Task.keeps_perform hout.toCalm hm _ rfl (fun _ _ s hs => hp hs rfl) s hs

end StreamTransform
