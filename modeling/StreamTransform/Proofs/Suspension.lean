import StreamTransform.Proofs.Bookkeeping

/-!
# Suspension is last in, first out

Every step changes the stack of activations under way at its top alone: it
starts one, takes the topmost further or ends it. What is parked is parked on
top and goes on from there, as it was parked. Looking back along the run, an
activation that executes an instruction stands on the nodes on which it was
started, with the same activations below it.
-/

namespace StreamTransform

/-! ## Stacks -/

section
variable {E : Type} {e e' e'' : E} {l r : List E}

/-- What lies at the bottom of a stack is the whole stack, or lies below its top. -/
theorem cases_of_suffix_cons (h : e :: l <:+ e' :: r) : (e = e' ∧ l = r) ∨ e :: l <:+ r := by
  rcases List.suffix_cons_iff.mp h with htop | hbelow
  · exact .inl (List.cons.inj htop)
  · exact .inr hbelow

/-- Below a top that is exchanged lies what lay there. -/
theorem exists_suffix_of_exchange (h : e :: l <:+ e' :: r) : ∃ e₁, e₁ :: l <:+ e'' :: r := by
  rcases cases_of_suffix_cons h with ⟨-, rfl⟩ | hbelow
  · exact ⟨e'', List.suffix_refl _⟩
  · exact ⟨e, hbelow.trans (List.suffix_cons e'' r)⟩

end

/-- A stack changes at its top alone. -/
inductive StackMove {E : Type} (begins : E → Prop) (changes : E → E → Prop) :
    List E → List E → Prop
  | kept (l : List E) : StackMove begins changes l l
  | pushed (e : E) (l : List E) : begins e → StackMove begins changes l (e :: l)
  | changed (e e' : E) (l : List E) : changes e e' → StackMove begins changes (e :: l) (e' :: l)
  | popped (e : E) (l : List E) : StackMove begins changes (e :: l) l

section
variable {E : Type} {begins : E → Prop} {changes : E → E → Prop} {e e' : E} {l l' r : List E}

theorem StackMove.of_eq (h : l' = l) : StackMove begins changes l l' := h ▸ .kept l'

theorem StackMove.of_push (h : l' = e :: l) (hb : begins e) : StackMove begins changes l l' :=
  h ▸ .pushed e l hb

end

/-- Where an entry of a stack comes from: it was pushed on what is below it now, and changed there
without ever leaving the stack. -/
theorem exists_push {env : Environment} {E : Type} (stack : Moment → List E)
    (begins : Moment → E → Prop) (changes : E → E → Prop) (hrefl : ∀ e, changes e e)
    (htrans : ∀ e e' e'', changes e e' → changes e' e'' → changes e e'')
    (h₀ : ∀ i, stack (.take i (.initial env.program)) = [])
    (hmove : ∀ m m', Reached env m → Next env m m' →
      StackMove (begins m') changes (stack m) (stack m'))
    {m : Moment} (hm : Reached env m) {above below : List E} {e : E}
    (h : stack m = above ++ e :: below) :
    ∃ m₀ m₁ e₀, Reached env m₀ ∧ Next env m₀ m₁ ∧ begins m₁ e₀ ∧ stack m₀ = below ∧
      stack m₁ = e₀ :: below ∧ changes e₀ e ∧
      Stretch env (fun x => ∃ above e', stack x = above ++ e' :: below ∧ changes e₀ e') m₁ m := by
  induction hm generalizing above e with
  | first i _ => simp [h₀] at h
  | @next m m' hm hn ih =>
    have older : ∀ above' {e'}, stack m = above' ++ e' :: below → changes e' e →
        ∃ m₀ m₁ e₀, Reached env m₀ ∧ Next env m₀ m₁ ∧ begins m₁ e₀ ∧ stack m₀ = below ∧
          stack m₁ = e₀ :: below ∧ changes e₀ e ∧
          Stretch env (fun x => ∃ above e', stack x = above ++ e' :: below ∧ changes e₀ e')
            m₁ m' := by
      intro _ e' hs hc
      obtain ⟨m₀, m₁, e₀, hr, hn₀, hb, hs₀, hs₁, hc₀, hstretch⟩ := ih hs
      have hchanges := htrans _ _ _ hc₀ hc
      exact ⟨m₀, m₁, e₀, hr, hn₀, hb, hs₀, hs₁, hchanges, hstretch.next hn ⟨above, e, h, hchanges⟩⟩
    have hmoved := hmove m m' hm hn
    generalize hl : stack m = l, hl' : stack m' = l' at hmoved
    rw [hl'] at h
    cases hmoved with
    | kept => exact older above (hl.trans h) (hrefl e)
    | pushed e₁ _ hb =>
      cases above with
      | nil =>
        obtain ⟨rfl, rfl⟩ := List.cons.inj h
        exact ⟨m, m', e₁, hm, hn, hb, hl, hl', hrefl e₁, .refl ⟨[], e₁, hl', hrefl e₁⟩⟩
      | cons e₂ above =>
        obtain ⟨-, h⟩ := List.cons.inj h
        exact older above (hl.trans h) (hrefl e)
    | changed e₁ e₁' r hc =>
      cases above with
      | nil =>
        obtain ⟨rfl, rfl⟩ := List.cons.inj h
        exact older [] hl hc
      | cons e₂ above =>
        obtain ⟨rfl, rfl⟩ := List.cons.inj h
        exact older (e₁ :: above) hl (hrefl e)
    | popped e₁ =>
      subst h
      exact older (e₁ :: above) hl (hrefl e)

/-- Where an entry of a stack goes: it stays there on what is below it, up to the one step that takes
it off. -/
theorem exists_removal {env : Environment} {E : Type} (stack : Moment → List E)
    (begins : Moment → E → Prop) (changes : E → E → Prop)
    (htrans : ∀ e e' e'', changes e e' → changes e' e'' → changes e e'')
    (hmove : ∀ m m', Reached env m → Next env m m' →
      StackMove (begins m') changes (stack m) (stack m'))
    {m₁ m : Moment} (hm : Reached env m₁) (h : Stretch env (fun _ => True) m₁ m) {e : E}
    {below : List E} (hs : ∃ e', changes e e' ∧ e' :: below <:+ stack m₁) :
    Stretch env (fun x => ∃ e', changes e e' ∧ e' :: below <:+ stack x) m₁ m ∨
      ∃ m₂ m₃ e', Stretch env (fun x => ∃ e', changes e e' ∧ e' :: below <:+ stack x) m₁ m₂ ∧
        Next env m₂ m₃ ∧ changes e e' ∧ stack m₂ = e' :: below ∧ stack m₃ = below ∧
        Stretch env (fun _ => True) m₃ m := by
  induction h with
  | refl _ => exact .inl (.refl hs)
  | @next m m' hstretch hn _ ih =>
    rcases ih with hkept | ⟨m₂, m₃, e', hkept, hn₂, hc, h₂, h₃, hlater⟩
    · obtain ⟨e', hc, hlast⟩ := hkept.last
      have hmoved := hmove m m' (hkept.reached hm) hn
      generalize hl : stack m = l, hl' : stack m' = l' at hmoved hlast
      have stays : ∀ e'', changes e e'' → e'' :: below <:+ l' →
          Stretch env (fun x => ∃ e', changes e e' ∧ e' :: below <:+ stack x) m₁ m' :=
        fun e'' hc' hs' => hkept.next hn ⟨e'', hc', hl' ▸ hs'⟩
      cases hmoved with
      | kept => exact .inl (stays e' hc hlast)
      | pushed e₁ _ _ => exact .inl (stays e' hc (hlast.trans (List.suffix_cons e₁ l)))
      | changed e₁ e₂ r hc' =>
        rcases cases_of_suffix_cons hlast with ⟨rfl, rfl⟩ | hbelow
        · exact .inl (stays e₂ (htrans _ _ _ hc hc') (List.suffix_refl _))
        · exact .inl (stays e' hc (hbelow.trans (List.suffix_cons e₂ r)))
      | popped e₁ =>
        rcases cases_of_suffix_cons hlast with ⟨rfl, rfl⟩ | hbelow
        · exact .inr ⟨m, m', e', hkept, hn, hc, hl, hl', .refl trivial⟩
        · exact .inl (stays e' hc hbelow)
    · exact .inr ⟨m₂, m₃, e', hkept, hn₂, hc, h₂, h₃, hlater.next hn trivial⟩

/-! ## One step -/

/-- What an activation keeps from its start to its end. -/
structure SameStart (a a' : Activation) : Prop where
  role : a'.role = a.role
  depth : a'.depth = a.depth
  position : a'.position = a.position
  hasChildren : a'.hasChildren = a.hasChildren
  entered : a'.entered = a.entered

theorem SameStart.refl (a : Activation) : SameStart a a := ⟨rfl, rfl, rfl, rfl, rfl⟩

theorem SameStart.trans {a a' a'' : Activation} (h : SameStart a a') (h' : SameStart a' a'') :
    SameStart a a'' :=
  ⟨h'.role.trans h.role, h'.depth.trans h.depth, h'.position.trans h.position,
    h'.hasChildren.trans h.hasChildren, h'.entered.trans h.entered⟩

/-- What becomes of an activation that runs: it goes on, or it is parked for the one walk that
suspends it. -/
inductive Activation.Advances (a : Activation) : Activation → Prop
  | on (fs : List Frame) : a.Advances { a with frames := fs }
  | parked (fs : List Frame) (phase : Phase) (w : Walk) : a.suspendedBy = none → phase ≠ .running →
      a.Advances { a with phase := phase, suspendedBy := some w, frames := fs }

theorem Activation.Advances.sameStart {a a' : Activation} (h : a.Advances a') : SameStart a a' := by
  cases h <;> exact ⟨rfl, rfl, rfl, rfl, rfl⟩

/-- An entry goes on where it stands. -/
def Entry.Changes (e e' : Entry) : Prop :=
  e'.path = e.path ∧ SameStart e.activation e'.activation

/-- An entry of an activation that starts at the current node. -/
structure Entry.Begins (ns : List OpenNode) (e : Entry) : Prop where
  path : e.path = ns.map OpenNode.event
  depth : e.activation.depth = ns.length
  suspendedBy : e.activation.suspendedBy = none

def Moment.live (m : Moment) : List Entry := StreamTransform.live m.agenda m.state.nodes

/-- The activation is the next to run as it was parked; the built-in rule only has its end tag
left. -/
def GoesOn (a : Activation) (agenda : List Task) : Prop :=
  (∃ rest, agenda = .run { a with phase := .running } :: rest) ∨ ∃ copied, a.role = .builtIn copied

/-- What a step does to the activations under way, with `ns` the nodes that are open after it. -/
inductive LiveMove (env : Environment) (ns : List OpenNode) :
    Task → List Task → List Entry → List Entry → Prop
  | kept {t : Task} {ts : List Task} (l : List Entry) : LiveMove env ns t ts l l
  | template {h : Handover} {exclude : List TemplateId} {hasChildren : Bool} {id : TemplateId}
      {t : Template} (position : Nat) (l : List Entry) : env.program.templates[id]? = some t →
      LiveMove env ns (.dispatch h exclude hasChildren)
        ((t.entered?.map Task.enterGroup).toList ++
          [.run (t.activation id ns.length position hasChildren h.passed)]) l
        (⟨t.activation id ns.length position hasChildren h.passed, ns.map OpenNode.event⟩ :: l)
  | builtIn {h : Handover} {exclude : List TemplateId} {hasChildren : Bool} {depth : Nat}
      (copied : Option QName) (l : List Entry) : depth = ns.length →
      LiveMove env ns (.dispatch h exclude hasChildren) [] l
        (⟨.descending copied depth hasChildren, ns.map OpenNode.event⟩ :: l)
  | initialiser {g : GroupId} {b : NodeId} {ts : List Task} (passed : Bindings) (l : List Entry) :
      (env.program.group g).initialiser = some b →
      LiveMove env ns (.enterGroup g) ts l
        (⟨.start (.initialiser g) ns.length 1 false [.start g b passed],
          ns.map OpenNode.event⟩ :: l)
  | advanced {a a' : Activation} {path : List Event} {ts : List Task} (l : List Entry) :
      a.Advances a' → LiveMove env ns (.run a) ts (⟨a, path⟩ :: l) (⟨a', path⟩ :: l)
  | ended {a : Activation} {path : List Event} (l : List Entry) : a.frames = [] →
      LiveMove env ns (.run a) [] (⟨a, path⟩ :: l) l
  | resumed {t : Task} {a : Activation} {path : List Event} {ts : List Task} (l : List Entry) :
      LiveMove env ns t ts (⟨a, path⟩ :: l) (⟨{ a with phase := .running }, path⟩ :: l)
  | finished {mode : Closing} {a : Activation} {path : List Event} {copied : Option QName}
      {ts : List Task} (l : List Entry) : a.role = .builtIn copied →
      LiveMove env ns (.unwind mode) ts (⟨a, path⟩ :: l) l

/-- So the stack of activations under way changes at its top alone. -/
theorem LiveMove.stackMove {env : Environment} {ns : List OpenNode} {t : Task} {ts : List Task}
    {l l' : List Entry} (h : LiveMove env ns t ts l l') :
    StackMove (Entry.Begins ns) Entry.Changes l l' := by
  cases h with
  | kept => exact .kept _
  | template position l ht => exact .pushed _ _ ⟨rfl, rfl, rfl⟩
  | builtIn copied l hd => exact .pushed _ _ ⟨rfl, hd, rfl⟩
  | initialiser passed l hb => exact .pushed _ _ ⟨rfl, rfl, rfl⟩
  | advanced l ha => exact .changed _ _ _ ⟨rfl, ha.sameStart⟩
  | ended l ha => exact .popped _ _
  | resumed l => exact .changed _ _ _ ⟨rfl, ⟨rfl, rfl, rfl, rfl, rfl⟩⟩
  | finished l hr => exact .popped _ _

section
variable {env : Environment} {ns : List OpenNode} {t : Task} {ts : List Task} {l l' : List Entry}

theorem LiveMove.of_push {e : Entry} (h : l' = e :: l) (hm : LiveMove env ns t ts l (e :: l)) :
    LiveMove env ns t ts l l' := h ▸ hm

theorem LiveMove.of_advance {a a' : Activation} {path : List Event} {r : List Entry}
    (h : l = ⟨a, path⟩ :: r) (h' : l' = ⟨a', path⟩ :: r) (ha : a.Advances a') :
    LiveMove env ns (.run a) ts l l' := h ▸ h' ▸ .advanced r ha

theorem LiveMove.of_eq (h : l' = l) : LiveMove env ns t ts l l' := h ▸ .kept l'

end

section
variable {env : Environment} {t : Task} {ts rest : List Task} {x x' : State}

theorem sibling_of_outlives {mode : Closing} {a : Activation}
    (h : Operation.outlives mode a = true) : mode = .sibling := by
  simp only [Operation.outlives, Bool.and_eq_true, beq_iff_eq] at h
  exact h.1

/-- A node that is taken off the stack leaves what is under way as it was. -/
theorem live_handOn {mode : Closing} {n : OpenNode} {ns : List OpenNode}
    (ho : Orderly true (.unwind mode :: rest) (n :: ns))
    (hout : ∀ a r, n.activations = a :: r → Operation.outlives mode a = true) :
    live rest (handOn n ns) = live (.unwind mode :: rest) (n :: ns) := by
  obtain ⟨hc, hm, -⟩ := ho.of_unwind
  have hw := clear_cons.mp hc
  cases ha : n.activations with
  | nil => simp [handOn_of_nil ha, entries_of_clear hw, ha]
  | cons a r =>
    obtain ⟨hlength, hr⟩ := hm (sibling_of_outlives (hout a r ha))
    have hns : ns ≠ [] := by
      rintro rfl
      simp at hlength
    simp [live_outer hr, parkedEntries_handOn hw hns]

theorem live_enterGroups (gs : List GroupId) (ts : List Task) (ns : List OpenNode) :
    live (gs.map Task.enterGroup ++ ts) ns = live ts ns := by
  induction gs with
  | nil => rfl
  | cons g gs ih => simpa using ih

theorem Turn.live_move (h : Turn env t x ts x') (ho : Orderly true (t :: rest) x.nodes) :
    LiveMove env x'.nodes t ts (live (t :: rest) x.nodes) (live (ts ++ rest) x'.nodes) := by
  cases h with
  | begin =>
    cases ho.of_input rfl
    apply LiveMove.of_eq
    rw [List.append_nil, live_enterGroups]
    simp [parkedEntries]
  | conclude _ =>
    cases ho.of_input rfl
    apply LiveMove.of_eq
    rw [List.append_nil, live_outer (.flush false .final)]
    simp
  | endOutput =>
    cases ho.of_input rfl
    exact .of_eq (by simp)
  | flush closing =>
    apply LiveMove.of_eq
    rcases x.pendingStart with - | p <;> rcases x.heldText env with - | u <;> simp
  | hold n as => exact .of_eq (by simp)
  | checkEnd _ _ => exact .of_eq (by simp)
  | leaveSkipped _ => exact .of_eq (by simp)
  | leave hs =>
    cases ho.of_input rfl
    apply LiveMove.of_eq
    cases x.nodes with
    | nil => rfl
    | cons n ns => simp [parkedEntries]
  | meetSkipped _ => exact .of_eq (by simp)
  | meet hs hn =>
    cases ho.of_input rfl with
    | meet c hasChildren hr =>
      apply LiveMove.of_eq
      simp [hn, live_outer hr, parkedEntries, OpenNode.entries]
  | @offerOpened _ e hasChildren n ns g hn =>
    have hr := ho.of_offer
    apply LiveMove.of_eq
    cases e.content.isElement <;> simp [hn, live_outer hr, parkedEntries]
  | offerDeclined hn hw =>
    have hr := ho.of_offer
    apply LiveMove.of_eq
    simp [hn, live_outer hr, parkedEntries, ← entries_released hw]
  | offerSkipped hn hw hchildren => exact .of_eq (by simp)
  | @dispatchTemplate _ _ _ _ _ t position ht =>
    rw [live_level rfl]
    refine .of_push ?_ (.template position _ ht)
    cases t.entered? <;> simp [State.depth]
  | dispatchNothing => exact .of_eq (by simp)
  | dispatchBuiltIn copied hn =>
    rw [hn] at ho ⊢
    obtain ⟨hc, hr⟩ := ho.of_dispatch
    have hw := clear_cons.mp hc
    simp only [List.nil_append, live_level]
    refine .of_push (live_park hr hw _ hw rfl rfl) (.builtIn copied _ ?_)
    rw [State.depth, hn]
    rfl
  | enterGroupAlone => exact .of_eq (by simp)
  | enterGroup passed hb =>
    simp only [List.singleton_append, live_level, live_run]
    exact .initialiser passed _ hb
  | runEnded ha =>
    rw [live_run]
    exact .ended _ ha
  | runOn fs =>
    simp only [List.singleton_append, live_run]
    exact .advanced _ (.on fs)
  | runAttributes fs g hn =>
    simp only [List.cons_append, List.nil_append, live_level, live_run]
    exact .advanced _ (.on fs)
  | @runChildren _ a n ns fs _ hn ha hfirst | @runSiblings _ a n ns fs _ hn ha hfirst =>
    rw [hn] at ho ⊢
    obtain ⟨hc, hr⟩ := ho.of_run
    have hw := clear_cons.mp hc
    exact .of_advance (live_run a) (live_park (ha ▸ hr) hw _ hw rfl rfl) (.parked fs _ _ hfirst (by simp))
  | @runSelf _ a n ns fs g exclude hn ha hfirst =>
    rw [hn] at ho ⊢
    obtain ⟨hc, hr⟩ := ho.of_run
    have hw := clear_cons.mp hc
    simp only [List.cons_append, List.nil_append, live_level]
    exact .of_advance (live_run a) (live_park (ha ▸ hr) hw _ hw rfl rfl) (.parked fs _ _ hfirst (by simp))
  | attributesDone => exact .of_eq (by simp)
  | attributes => exact .of_eq (by simp)
  | @selfResumed _ n ns a r hn ha =>
    rw [hn] at ho ⊢
    obtain ⟨hc, hr⟩ := ho.of_selfDone
    have hw := clear_cons.mp hc
    have hr' : Orderly false rest ({ n with activations := r } :: ns) := hr.congr rfl
    simp only [List.singleton_append, live_level, live_run]
    rw [live_park hr' hw a hw rfl ha]
    exact .resumed _
  | selfWaits => exact .of_eq (by simp)
  | closeWaits hn hw =>
    apply LiveMove.of_eq
    simp [hn, ← entries_released hw]
  | closeClear hc =>
    apply LiveMove.of_eq
    cases x.nodes <;> rfl
  | unwindPopped hn hout =>
    rw [hn] at ho ⊢
    exact .of_eq (live_handOn ho hout)
  | @unwindResumed _ mode n ns a r hn ha hout hrole =>
    rw [hn] at ho ⊢
    have hw := clear_cons.mp ho.of_unwind.1
    rw [live_unwind, entries_resumed hw ha]
    exact .resumed _
  | @unwindBuiltIn _ mode n ns a r copied hn ha hout hrole =>
    rw [hn] at ho ⊢
    have hw := clear_cons.mp ho.of_unwind.1
    rw [live_unwind, entries_resumed hw ha]
    exact .finished _ hrole

/-- A walk leaves its activation on top of all that is under way. -/
theorem Operation.live_suspend {ts rest : List Task} {s s' : State}
    {a : Activation} {r : Request} (hc : Clear s.nodes) (ho : Orderly false rest s.nodes)
    (hy : (suspend a r).Yields s ts s') :
    ∃ phase, (r.walk.suspends → phase ≠ .running) ∧ live (ts ++ rest) s'.nodes =
      ⟨{ a with phase := phase }, s.nodes.map OpenNode.event⟩ :: live rest s.nodes := by
  have parked : ∀ {n n' : OpenNode} {ns : List OpenNode} {a' : Activation}, s.nodes = n :: ns →
      n'.waits = n.waits → n'.event = n.event → n'.activations = a' :: n.activations →
      live rest (n' :: ns) = ⟨a', s.nodes.map OpenNode.event⟩ :: live rest s.nodes := by
    intro n n' ns a' hn hw he ha
    rw [hn] at ho hc ⊢
    have hclear := clear_cons.mp hc
    exact live_park ho hclear a' (hw.trans hclear) he ha
  unfold suspend at hy
  cases hw : r.walk with
  | attributes =>
    simp only [hw, yields_bind, yields_current, yields_pure] at hy
    obtain ⟨n, _, ⟨⟨ns, hn⟩, rfl⟩, rfl, rfl⟩ := hy
    exact ⟨a.phase, by simp [Walk.suspends], by simp⟩
  | children =>
    simp only [hw, parkForChildren, yields_bind, yields_modifyCurrent, yields_pure] at hy
    obtain ⟨_, _, ⟨n, ns, hn, rfl⟩, rfl, rfl⟩ := hy
    exact ⟨.awaitingChildren, by simp, parked hn rfl rfl rfl⟩
  | siblings =>
    simp only [hw, park, yields_bind, yields_modifyCurrent, yields_pure] at hy
    obtain ⟨_, _, ⟨n, ns, hn, rfl⟩, rfl, rfl⟩ := hy
    exact ⟨.awaitingSiblings _, by simp, parked hn rfl rfl rfl⟩
  | self =>
    simp only [hw, park, yields_bind, yields_current, yields_modifyCurrent, yields_pure] at hy
    obtain ⟨n, _, ⟨⟨ns, hn⟩, rfl⟩, _, _, ⟨m, ms, hm, rfl⟩, rfl, rfl⟩ := hy
    exact ⟨.awaitingSelf, by simp, parked hm rfl rfl rfl⟩

theorem parked_released {n : OpenNode} {w : SiblingWait} {ws : List SiblingWait}
    (h : n.waits = w :: ws) : (OpenNode.ofWait w).parked ++
      ({ n with waits := ws } : OpenNode).parked = n.parked := by
  simp [OpenNode.parked, OpenNode.ofWait, h]

theorem parked_resumed {n : OpenNode} {a : Activation} {r : List Activation} (h : n.waits = [])
    (ha : n.activations = a :: r) :
    n.parked = a :: ({ n with children := none, activations := r } : OpenNode).parked := by
  simp [OpenNode.parked, h, ha]

theorem parked_handOn {n : OpenNode} {ns : List OpenNode} (hn : n.waits = []) (hns : ns ≠ []) :
    (handOn n ns).flatMap OpenNode.parked = n.parked ++ ns.flatMap OpenNode.parked := by
  rw [← map_activation_parkedEntries, parkedEntries_handOn hn hns, List.map_append,
    map_activation_entries, map_activation_parkedEntries]

/-- One step parks an activation on top of the others, lets the topmost one go on, or leaves what
is parked alone. -/
theorem Turn.parked_move (h : Turn env t x ts x') (ho : Orderly true (t :: rest) x.nodes) :
    x'.parked = x.parked ∨ (∃ a, x'.parked = a :: x.parked) ∨
      ∃ a, x.parked = a :: x'.parked ∧ GoesOn a (ts ++ rest) := by
  have pushed : ∀ {n n' : OpenNode} {ns : List OpenNode} {a : Activation}, x.nodes = n :: ns →
      n'.waits = [] → n.waits = [] → n'.activations = a :: n.activations →
      (n' :: ns).flatMap OpenNode.parked = a :: x.parked := by
    intro n n' ns a hn hw' hw ha
    simp [State.parked, OpenNode.parked, hn, hw, hw', ha]
  cases h with
  | begin => exact .inl (by simp [State.parked, OpenNode.parked, OpenNode.fresh])
  | meet hs hn => exact .inl (by simp [State.parked, OpenNode.parked, hn])
  | offerOpened g hn => exact .inl (by simp [State.parked, OpenNode.parked, OpenNode.fresh, hn])
  | offerDeclined hn hw =>
    left
    simp only [State.parked, hn, List.flatMap_cons]
    rw [← List.append_assoc, parked_released hw]
  | dispatchBuiltIn copied hn =>
    rw [hn] at ho
    have hw := clear_cons.mp ho.of_dispatch.1
    exact .inr (.inl ⟨_, pushed hn hw hw rfl⟩)
  | @runChildren _ a n ns fs _ hn ha | @runSiblings _ a n ns fs _ hn ha
  | @runSelf _ a n ns fs _ exclude hn ha =>
    rw [hn] at ho
    have hw := clear_cons.mp ho.of_run.1
    exact .inr (.inl ⟨_, pushed hn hw hw rfl⟩)
  | attributes => exact .inl (by simp [State.parked, OpenNode.parked, OpenNode.fresh])
  | selfResumed hn ha =>
    rw [hn] at ho
    have hw := clear_cons.mp ho.of_selfDone.1
    refine .inr (.inr ⟨_, ?_, .inl ⟨_, rfl⟩⟩)
    simp [State.parked, hn, OpenNode.parked, hw, ha]
  | closeWaits hn hw =>
    left
    simp only [State.parked, hn, List.flatMap_cons]
    rw [← List.append_assoc, parked_released hw]
  | @unwindPopped _ mode n ns hn hout =>
    rw [hn] at ho
    obtain ⟨hc, hm, -⟩ := ho.of_unwind
    have hw := clear_cons.mp hc
    left
    cases ha : n.activations with
    | nil => simp [State.parked, hn, handOn_of_nil ha, OpenNode.parked, hw, ha]
    | cons a r =>
      obtain ⟨hlength, -⟩ := hm (sibling_of_outlives (hout a r ha))
      have hns : ns ≠ [] := by
        rintro rfl
        simp at hlength
      simp [State.parked, hn, parked_handOn hw hns]
  | unwindResumed hn ha hout hrole =>
    rw [hn] at ho
    have hw := clear_cons.mp ho.of_unwind.1
    refine .inr (.inr ⟨_, ?_, .inl ⟨_, rfl⟩⟩)
    simp [State.parked, hn, parked_resumed hw ha]
  | unwindBuiltIn hn ha hout hrole =>
    rw [hn] at ho
    have hw := clear_cons.mp ho.of_unwind.1
    refine .inr (.inr ⟨_, ?_, .inr ⟨_, hrole⟩⟩)
    simp [State.parked, hn, parked_resumed hw ha]
  | _ => exact .inl rfl

end

/-! ## Runs -/

/-- An activation was parked on what is parked below it now, and lay there ever since. -/
def ParkedBefore (env : Environment) (m : Moment) (a : Activation) (below : List Activation) :
    Prop :=
  ∃ m₀ m₁, Reached env m₀ ∧ Next env m₀ m₁ ∧ m₀.state.parked = below ∧
    m₁.state.parked = a :: below ∧
    Stretch env (fun x => a :: below <:+ x.state.parked) m₁ m

/-- An activation was started on the nodes that are open now, and has been under way since, with
nothing changed below it. -/
def StartedBefore (env : Environment) (m : Moment) (a : Activation) (below : List Entry) : Prop :=
  ∃ m₀ m₁ a₀, Reached env m₀ ∧ Next env m₀ m₁ ∧ m₁.state.path = m.state.path ∧
    m₀.live = below ∧ m₁.live = ⟨a₀, m.state.nodes.map OpenNode.event⟩ :: below ∧
    a₀.suspendedBy = none ∧ SameStart a₀ a ∧
    Stretch env (fun x => ∃ above a', SameStart a₀ a' ∧
      x.live = above ++ ⟨a', m.state.nodes.map OpenNode.event⟩ :: below) m₁ m

/-- What suspension means for two moments in a row. -/
structure Disciplined (env : Environment) (m m' : Moment) : Prop where
  /-- What is under way changes at the top alone. -/
  live : StackMove (Entry.Begins m'.state.nodes) Entry.Changes m.live m'.live
  /-- So does what is parked; an activation that is no longer parked goes on as it was parked. -/
  parked : m'.state.parked = m.state.parked ∨ (∃ a, m'.state.parked = a :: m.state.parked) ∨
    ∃ a, m.state.parked = a :: m'.state.parked ∧ GoesOn a m'.agenda ∧
      ParkedBefore env m a m'.state.parked
  /-- The activation that is about to execute stands where it was started. -/
  running : ∀ a rest, m.agenda = .run a :: rest → a.depth = m.state.depth ∧
    StartedBefore env m a (StreamTransform.live rest m.state.nodes)

section
variable {env : Environment} {m m' : Moment}

/-- A call starts and ends no activation by itself. -/
theorem live_call (i : Input) (hd : m.agenda = []) : (Moment.take i m.settled).live = m.live := by
  simp only [Moment.live, Moment.take, hd, live_nil, i.apply_nodes, live_outer i.outer_tasks]
  rfl

theorem live_move_of_next (hm : Reached env m) (hn : Next env m m') :
    StackMove (Entry.Begins m'.state.nodes) Entry.Changes m.live m'.live := by
  have ho := (sound_of_reached hm).orderly
  cases hn with
  | task hy => exact ((Turn.of_yields hy).live_move ho).stackMove
  | call i hd ha => exact .of_eq (live_call i hd)

theorem parked_move_of_next (hm : Reached env m) (hn : Next env m m') :
    m'.state.parked = m.state.parked ∨ (∃ a, m'.state.parked = a :: m.state.parked) ∨
      ∃ a, m.state.parked = a :: m'.state.parked ∧ GoesOn a m'.agenda := by
  have ho := (sound_of_reached hm).orderly
  cases hn with
  | task hy => exact (Turn.of_yields hy).parked_move ho
  | call i hd ha => exact .inl (congrArg (List.flatMap OpenNode.parked) (i.apply_nodes _))

theorem live_take_initial (i : Input) : (Moment.take i (.initial env.program)).live = [] := by
  simp only [Moment.live, Moment.take, i.apply_nodes, live_outer i.outer_tasks]
  rfl

/-- An activation under way was started on the nodes on which it stands, on top of what is below it
now, and has been under way since. -/
theorem exists_start (hm : Reached env m) {above below : List Entry} {a : Activation}
    {path : List Event} (h : m.live = above ++ ⟨a, path⟩ :: below) :
    ∃ m₀ m₁ a₀, Reached env m₀ ∧ Next env m₀ m₁ ∧ Entry.Begins m₁.state.nodes ⟨a₀, path⟩ ∧
      m₀.live = below ∧ m₁.live = ⟨a₀, path⟩ :: below ∧ SameStart a₀ a ∧
      Stretch env (fun x => ∃ above a', SameStart a₀ a' ∧ x.live = above ++ ⟨a', path⟩ :: below)
        m₁ m := by
  obtain ⟨m₀, m₁, ⟨a₀, path₀⟩, hr, hn, hb, hl₀, hl₁, ⟨hpath, hsame⟩, hstretch⟩ :=
    exists_push Moment.live (fun m => Entry.Begins m.state.nodes) Entry.Changes
      (fun e => ⟨rfl, .refl _⟩) (fun e e' e'' h h' => ⟨h'.1.trans h.1, h.2.trans h'.2⟩)
      live_take_initial (fun m m' => live_move_of_next) hm h
  obtain rfl : path = path₀ := hpath
  refine ⟨m₀, m₁, a₀, hr, hn, hb, hl₀, hl₁, hsame, hstretch.mono ?_⟩
  rintro x ⟨above', ⟨a', path'⟩, hx, hpath', hsame'⟩
  obtain rfl : path' = path := hpath'
  exact ⟨above', a', hsame', hx⟩

theorem startedBefore (hm : Reached env m) {above below : List Entry} {a : Activation}
    (h : m.live = above ++ ⟨a, m.state.nodes.map OpenNode.event⟩ :: below) :
    a.depth = m.state.depth ∧ StartedBefore env m a below := by
  obtain ⟨m₀, m₁, a₀, hr, hn, hb, hl₀, hl₁, hsame, hstretch⟩ := exists_start hm h
  have hnodes : m.state.nodes.map OpenNode.event = m₁.state.nodes.map OpenNode.event := hb.path
  have hlength := congrArg List.length hnodes
  simp only [List.length_map] at hlength
  refine ⟨?_, m₀, m₁, a₀, hr, hn, ?_, hl₀, hl₁, hb.suspendedBy, hsame, hstretch⟩
  · rw [hsame.depth, hb.depth, State.depth, hlength]
  · simp only [State.path, List.map_reverse]
    rw [hnodes]

theorem parkedBefore (hm : Reached env m) {a : Activation} {below : List Activation}
    (h : m.state.parked = a :: below) : ParkedBefore env m a below := by
  have hmove : ∀ m m', Reached env m → Next env m m' →
      StackMove (fun _ => True) Eq m.state.parked m'.state.parked := by
    intro m m' hm hn
    rcases parked_move_of_next hm hn with heq | ⟨b, hpush⟩ | ⟨b, hpop, -⟩
    · exact .of_eq heq
    · exact .of_push hpush trivial
    · rw [hpop]
      exact .popped _ _
  obtain ⟨m₀, m₁, e₀, hr, hn, -, hp₀, hp₁, rfl, hstretch⟩ :=
    exists_push (fun m => m.state.parked) (fun _ _ => True) Eq (fun _ => rfl)
      (fun _ _ _ h h' => h.trans h')
      (fun i => congrArg (List.flatMap OpenNode.parked) (i.apply_nodes _)) hmove hm
      (h.trans (List.nil_append _).symm)
  refine ⟨m₀, m₁, hr, hn, hp₀, hp₁, hstretch.mono ?_⟩
  rintro x ⟨above, e', hx, rfl⟩
  exact ⟨above, hx.symm⟩

/-- Activations are suspended and go on last in, first out: what is parked on top goes on first and
unchanged, and what executes is back on the nodes on which it was started. -/
theorem suspension_is_lifo (hm : Reached env m) (hn : Next env m m') : Disciplined env m m' where
  live := live_move_of_next hm hn
  parked := by
    rcases parked_move_of_next hm hn with heq | hpush | ⟨a, hpop, hgoes⟩
    · exact .inl heq
    · exact .inr (.inl hpush)
    · exact .inr (.inr ⟨a, hpop, hgoes, parkedBefore hm hpop⟩)
  running := by
    intro a rest ha
    have hlive : m.live = [] ++ ⟨a, m.state.nodes.map OpenNode.event⟩ ::
        StreamTransform.live rest m.state.nodes := by
      rw [Moment.live, ha, live_run, List.nil_append]
    exact startedBefore hm hlive

end

/-- One template, for the root, that has the children processed. -/
def descendingProgram : Program where
  code := #[⟨.body, ⟨1, 1⟩, some 2⟩, ⟨.act (.process .children ⟨none, []⟩), ⟨1, 1⟩, none⟩,
    ⟨.closing 0, ⟨1, 1⟩, none⟩]
  templates := #[⟨⟨true, []⟩, "/", 0, .group, false, 0, ⟨1, 1⟩, 0⟩]
  procedures := #[]
  groups := #[{ (default : Group) with
    templates := [0], candidates := [0], ancestry := [Program.rootGroup] }]
  globals := []

def descending : Environment := ⟨descendingProgram, {}, .plain fun _ => none⟩

theorem suspension_is_lifo_descending : ∃ m m' a, m.state.parked = [a] ∧ GoesOn a m'.agenda ∧
    Disciplined descending m m' := by
  have h₀ : Reached descending _ := .first .startDocument rfl
  have h₁ := h₀.next (.task rfl)
  have h₂ := h₁.next (.task rfl)
  have h₃ := h₂.next (.task rfl)
  have h₄ := h₃.next (.task rfl)
  have h₅ := h₄.next (.task rfl)
  have h₆ := h₅.next (.call .endDocument rfl rfl)
  have h₇ := h₆.next (.task rfl)
  have h₈ := h₇.next (.task rfl)
  have h₉ := h₈.next (.task rfl)
  exact ⟨_, _, _, rfl, .inl ⟨_, rfl⟩, suspension_is_lifo h₉ (.task rfl)⟩

end StreamTransform
