import Mathlib.Data.List.Perm.Subperm
import StreamTransform.Proofs.Agenda
import StreamTransform.Proofs.Suspension

/-!
# What is parked at a node

The activations parked at a node wait for a walk over the node itself, but for the
innermost one, which may wait for children or siblings. No template is among them
twice, since a walk over a node excludes those that are parked there. `Suits` says
how an agenda goes with what is parked at the open nodes; one step keeps it so.
-/

namespace StreamTransform

/-! ## What is parked at one node -/

/-- The activation can join others at their node: its template is one of the program and not one of
theirs. -/
def Activation.Joins (p : Program) (as : List Activation) (a : Activation) : Prop :=
  ∀ id, a.template? = some id → id < p.templates.size ∧ id ∉ as.filterMap Activation.template?

/-- The activation waits for nodes after the start of its own. -/
def Activation.AwaitsOthers (a : Activation) : Prop :=
  a.phase = .awaitingChildren ∨ ∃ r, a.phase = .awaitingSiblings r

/-- Different templates that wait for a walk over their node. -/
inductive SelfWaiting (p : Program) : List Activation → Prop
  | nil : SelfWaiting p []
  | cons {a : Activation} {as : List Activation} : a.phase = .awaitingSelf →
      a.suspendedBy.isSome → (∃ id, a.role = .template id) → a.Joins p as → SelfWaiting p as →
      SelfWaiting p (a :: as)

/-- What is parked at a node once its walks over itself are started: none of them is over, as the
innermost activation waits for other nodes. -/
inductive AtRest (p : Program) : List Activation → Prop
  | nil : AtRest p []
  | cons {a : Activation} {as : List Activation} : a.AwaitsOthers →
      ((∃ copied, a.role = .builtIn copied) ∨ a.suspendedBy.isSome) → a.Joins p as →
      SelfWaiting p as → AtRest p (a :: as)

section
variable {p : Program} {a : Activation} {as : List Activation}

theorem Activation.joins_of_none (h : a.template? = none) : a.Joins p as := by
  intro id hid
  simp [h] at hid

theorem Activation.Joins.congr {a' : Activation} (h : a.Joins p as) (hr : a'.role = a.role) :
    a'.Joins p as := by
  have ht : a'.template? = a.template? := by simp only [Activation.template?, hr]
  exact fun id hid => h id (ht ▸ hid)

theorem Activation.Joins.distinct (h : a.Joins p as)
    (hd : (as.filterMap Activation.template?).Nodup) :
    (a.template?.toList ++ as.filterMap Activation.template?).Nodup := by
  cases hid : a.template? with
  | none => exact hd
  | some id => exact List.nodup_cons.mpr ⟨(h id hid).2, hd⟩

theorem filterMap_template_cons : (a :: as).filterMap Activation.template? =
    a.template?.toList ++ as.filterMap Activation.template? := by
  cases h : a.template? <;> simp [h]

theorem SelfWaiting.of_cons (h : SelfWaiting p (a :: as)) : a.Joins p as ∧ SelfWaiting p as := by
  cases h with
  | cons _ _ _ hj h => exact ⟨hj, h⟩

theorem SelfWaiting.distinct (h : SelfWaiting p as) :
    (as.filterMap Activation.template?).Nodup := by
  induction h with
  | nil => exact List.nodup_nil
  | cons _ _ _ hj _ ih =>
    rw [filterMap_template_cons]
    exact hj.distinct ih

theorem SelfWaiting.ids_lt (h : SelfWaiting p as) :
    ∀ id ∈ as.filterMap Activation.template?, id < p.templates.size := by
  induction h with
  | nil => simp
  | @cons a as _ _ _ hj _ ih =>
    intro id hid
    rw [filterMap_template_cons, List.mem_append, Option.mem_toList] at hid
    exact hid.elim (fun ht => (hj id ht).1) (ih id)

theorem SelfWaiting.length_eq (h : SelfWaiting p as) :
    (as.filterMap Activation.template?).length = as.length := by
  induction h with
  | nil => rfl
  | @cons a as _ _ ht _ _ ih =>
    obtain ⟨id, hrole⟩ := ht
    rw [filterMap_template_cons, List.length_append, ih]
    simp [Activation.template?, hrole, Nat.add_comm]

/-- There are no more of them than templates. -/
theorem SelfWaiting.length_le (h : SelfWaiting p as) : as.length ≤ p.templates.size := by
  have hsub : (as.filterMap Activation.template?) ⊆ List.range p.templates.size := fun id hid =>
    List.mem_range.mpr (h.ids_lt id hid)
  have hlength := (h.distinct.subperm hsub).length_le
  rwa [h.length_eq, List.length_range] at hlength

/-- What may be parked at a node at any moment. -/
def Parkable (p : Program) (as : List Activation) : Prop := SelfWaiting p as ∨ AtRest p as

theorem Parkable.distinct (h : Parkable p as) : (as.filterMap Activation.template?).Nodup := by
  rcases h with h | h
  · exact h.distinct
  · cases h with
    | nil => exact List.nodup_nil
    | cons _ _ hj h =>
      rw [filterMap_template_cons]
      exact hj.distinct h.distinct

theorem Parkable.length_le (h : Parkable p as) : as.length ≤ p.templates.size + 1 := by
  rcases h with h | h
  · exact Nat.le_succ_of_le h.length_le
  · cases h with
    | nil => exact Nat.zero_le _
    | cons _ _ _ h => exact Nat.succ_le_succ h.length_le

theorem Parkable.of_cons (h : Parkable p (a :: as)) : a.Joins p as ∧ SelfWaiting p as := by
  rcases h with h | h
  · exact h.of_cons
  · cases h with
    | cons _ _ hj h => exact ⟨hj, h⟩

/-- What is parked has been suspended by a walk, but for the built-in rule. -/
theorem Parkable.suspended (h : Parkable p (a :: as)) :
    (∃ copied, a.role = .builtIn copied) ∨ a.suspendedBy.isSome := by
  rcases h with h | h
  · cases h with
    | cons _ hs => exact .inr hs
  · cases h with
    | cons _ hs => exact hs

theorem SelfWaiting.phase_eq (h : SelfWaiting p as) : ∀ b ∈ as, b.phase = .awaitingSelf := by
  induction h with
  | nil => simp
  | cons hp _ _ _ _ ih => exact List.forall_mem_cons.mpr ⟨hp, ih⟩

theorem Parkable.phase_ne (h : Parkable p as) : ∀ b ∈ as, b.phase ≠ .running := by
  have waiting : ∀ {as}, SelfWaiting p as → ∀ b ∈ as, b.phase ≠ .running := fun h b hb => by
    simp [h.phase_eq b hb]
  rcases h with h | h
  · exact waiting h
  · cases h with
    | nil => simp
    | cons hp _ _ h =>
      refine List.forall_mem_cons.mpr ⟨?_, waiting h⟩
      rcases hp with hp | ⟨r, hp⟩ <;> simp [hp]

/-- What outlives its node is at rest. -/
theorem Parkable.atRest_of_outlives {mode : Closing} (h : Parkable p (a :: as))
    (ho : Operation.outlives mode a = true) : AtRest p (a :: as) := by
  rcases h with h | h
  · cases h with
    | cons hp =>
      simp [Operation.outlives, Activation.siblingRequest?, hp] at ho
  · exact h

end

/-! ## Agendas -/

/-- `Suits p base running ts as`: an agenda goes with the activations parked at each open node,
where `base` says it of the agendas on which nothing runs. Unless `running`, the innermost activation
at the current node can be one that awaits other nodes. -/
inductive Suits (p : Program) (base : Bool → List Task → List (List Activation) → Prop) :
    Bool → List Task → List (List Activation) → Prop
  | base {running : Bool} {ts : List Task} {as : List (List Activation)} :
      base running ts as → Suits p base running ts as
  | run {ts : List Task} {l : List Activation} {as : List (List Activation)} (a : Activation) :
      a.phase = .running → (∀ copied, a.role ≠ .builtIn copied) → a.Joins p l →
      SelfWaiting p l → Suits p base (a.isInitialiser || a.suspendedBy.isSome) ts (l :: as) →
      Suits p base true (.run a :: ts) (l :: as)
  | dispatch {ts : List Task} {l : List Activation} {as : List (List Activation)} (h : Handover)
      (exclude : List TemplateId) (hasChildren : Bool) :
      (∀ id ∈ l.filterMap Activation.template?, id ∈ exclude) → SelfWaiting p l →
      Suits p base false ts (l :: as) →
      Suits p base true (.dispatch h exclude hasChildren :: ts) (l :: as)
  | enterGroup {ts : List Task} {l : List Activation} {as : List (List Activation)} (g : GroupId) :
      SelfWaiting p l → Suits p base true ts (l :: as) →
      Suits p base true (.enterGroup g :: ts) (l :: as)
  | attributes {ts : List Task} {l : List Activation} {as : List (List Activation)}
      (rest : List (Attribute × Nat)) (h : Handover) : SelfWaiting p l →
      Suits p base true ts (l :: as) → Suits p base true (.attributes rest h :: ts) (l :: as)
  | selfDone {running : Bool} {ts : List Task} {as : List (List Activation)}
      (above : List Activation) {a : Activation} {below : List Activation} :
      SelfWaiting p (a :: below) → (above ≠ [] → AtRest p (above ++ a :: below)) →
      Suits p base false ts (below :: as) →
      Suits p base running (.selfDone below.length :: ts) ((above ++ a :: below) :: as)
  | close {running : Bool} {ts : List Task} {as : List (List Activation)} (mode : Closing) :
      (∀ l ∈ as.head?, Parkable p l) → Suits p base true ts as.tail →
      Suits p base running (.close mode :: ts) as
  | unwind {running : Bool} {ts : List Task} {as : List (List Activation)} (mode : Closing) :
      (∀ l ∈ as.head?, Parkable p l) → Suits p base true ts as.tail →
      Suits p base running (.unwind mode :: ts) as

/-- On an agenda of the base others can be parked before, as far as the base says so. -/
structure Grounded (p : Program) (base : Bool → List Task → List (List Activation) → Prop) :
    Prop where
  weaken : ∀ {ts as}, base false ts as → base true ts as
  push : ∀ {ts above below as}, base false ts (below :: as) → AtRest p (above ++ below) →
    base false ts ((above ++ below) :: as)

section
variable {p : Program} {base : Bool → List Task → List (List Activation) → Prop} {running : Bool}
  {ts : List Task} {as : List (List Activation)} {a : Activation}

theorem Suits.close_node {l : List Activation} (mode : Closing) (hp : Parkable p l)
    (h : Suits p base true ts as) : Suits p base running (.close mode :: ts) (l :: as) :=
  .close mode (by simpa using hp) h

theorem Suits.unwind_node {l : List Activation} (mode : Closing) (hp : Parkable p l)
    (h : Suits p base true ts as) : Suits p base running (.unwind mode :: ts) (l :: as) :=
  .unwind mode (by simpa using hp) h

theorem Suits.weaken (hg : Grounded p base) (h : Suits p base running ts as) :
    Suits p base true ts as := by
  cases running with
  | true => exact h
  | false =>
    cases h with
    | base hb => exact .base (hg.weaken hb)
    | selfDone above hs hr h => exact .selfDone above hs hr h
    | close mode hp h => exact .close mode hp h
    | unwind mode hp h => exact .unwind mode hp h

/-- What is parked on top waits for what comes after the tasks for the current node. -/
theorem Suits.push (hg : Grounded p base) (above : List Activation) {below : List Activation}
    (h : Suits p base false ts (below :: as)) (hr : AtRest p (above ++ below)) :
    Suits p base false ts ((above ++ below) :: as) := by
  generalize hl : below :: as = l at h
  cases h with
  | base hb => exact .base (hg.push (hl ▸ hb) hr)
  | selfDone above' hs hr' h =>
    obtain ⟨rfl, rfl⟩ := List.cons.inj hl
    rw [← List.append_assoc] at hr ⊢
    exact .selfDone _ hs (fun _ => hr) h
  | close mode hp h =>
    subst hl
    exact .close_node mode (.inr hr) h
  | unwind mode hp h =>
    subst hl
    exact .unwind_node mode (.inr hr) h

theorem Suits.park (hg : Grounded p base) {l : List Activation} (h : Suits p base false ts (l :: as))
    (ha : a.AwaitsOthers) (hs : (∃ copied, a.role = .builtIn copied) ∨ a.suspendedBy.isSome)
    (hj : a.Joins p l) (hl : SelfWaiting p l) : Suits p base true ts ((a :: l) :: as) :=
  (h.push hg [a] (.cons ha hs hj hl)).weaken hg

/-- An activation that goes on leaves the others to wait for their walks. -/
theorem Parkable.suits_resumed {l : List Activation} (h : Parkable p (a :: l))
    (hr : ∀ copied, a.role ≠ .builtIn copied) (hs : Suits p base true ts (l :: as)) :
    Suits p base true (.run { a with phase := .running } :: ts) (l :: as) := by
  obtain ⟨hj, hl⟩ := h.of_cons
  have hsuspended : a.suspendedBy.isSome :=
    h.suspended.resolve_left fun ⟨copied, hc⟩ => hr copied hc
  refine .run _ rfl hr (hj.congr rfl) hl ?_
  rw [hsuspended, Bool.or_true]
  exact hs

/-! What a task in front says of the agenda, unless the agenda belongs to the base: -/

theorem Suits.of_run (h : Suits p base running (.run a :: ts) as) :
    base running (.run a :: ts) as ∨ ∃ l r, as = l :: r ∧ a.phase = .running ∧
      (∀ copied, a.role ≠ .builtIn copied) ∧ a.Joins p l ∧ SelfWaiting p l ∧
      Suits p base (a.isInitialiser || a.suspendedBy.isSome) ts as := by
  cases h with
  | base hb => exact .inl hb
  | run _ hp hr hj hs h => exact .inr ⟨_, _, rfl, hp, hr, hj, hs, h⟩

theorem Suits.of_dispatch {g : Handover} {exclude : List TemplateId} {hasChildren : Bool}
    (h : Suits p base running (.dispatch g exclude hasChildren :: ts) as) :
    base running (.dispatch g exclude hasChildren :: ts) as ∨ ∃ l r, as = l :: r ∧
      (∀ id ∈ l.filterMap Activation.template?, id ∈ exclude) ∧ SelfWaiting p l ∧
      Suits p base false ts as := by
  cases h with
  | base hb => exact .inl hb
  | dispatch _ _ _ hx hs h => exact .inr ⟨_, _, rfl, hx, hs, h⟩

theorem Suits.of_enterGroup {g : GroupId} (h : Suits p base running (.enterGroup g :: ts) as) :
    base running (.enterGroup g :: ts) as ∨ ∃ l r, as = l :: r ∧ SelfWaiting p l ∧
      Suits p base true ts as := by
  cases h with
  | base hb => exact .inl hb
  | enterGroup _ hs h => exact .inr ⟨_, _, rfl, hs, h⟩

theorem Suits.of_attributes {rest : List (Attribute × Nat)} {g : Handover}
    (h : Suits p base running (.attributes rest g :: ts) as) :
    base running (.attributes rest g :: ts) as ∨ ∃ l r, as = l :: r ∧ SelfWaiting p l ∧
      Suits p base true ts as := by
  cases h with
  | base hb => exact .inl hb
  | attributes _ _ hs h => exact .inr ⟨_, _, rfl, hs, h⟩

theorem Suits.of_selfDone {n : Nat} (h : Suits p base running (.selfDone n :: ts) as) :
    base running (.selfDone n :: ts) as ∨ ∃ above a below r, as = (above ++ a :: below) :: r ∧
      below.length = n ∧ SelfWaiting p (a :: below) ∧
      (above ≠ [] → AtRest p (above ++ a :: below)) ∧ Suits p base false ts (below :: r) := by
  cases h with
  | base hb => exact .inl hb
  | selfDone above hs hr h => exact .inr ⟨above, _, _, _, rfl, rfl, hs, hr, h⟩

theorem Suits.of_close {mode : Closing} (h : Suits p base running (.close mode :: ts) as) :
    base running (.close mode :: ts) as ∨
      (∀ l ∈ as.head?, Parkable p l) ∧ Suits p base true ts as.tail := by
  cases h with
  | base hb => exact .inl hb
  | close _ hp h => exact .inr ⟨hp, h⟩

theorem Suits.of_unwind {mode : Closing} (h : Suits p base running (.unwind mode :: ts) as) :
    base running (.unwind mode :: ts) as ∨
      (∀ l ∈ as.head?, Parkable p l) ∧ Suits p base true ts as.tail := by
  cases h with
  | base hb => exact .inl hb
  | unwind _ hp h => exact .inr ⟨hp, h⟩

theorem Suits.of_outer {t : Task} (h : Suits p base running (t :: ts) as)
    (ht : t.isOuter ∨ ∃ e hasChildren, t = .offer e hasChildren) : base running (t :: ts) as := by
  cases h with
  | base hb => exact hb
  | _ => simp [Task.isOuter] at ht

/-- Whatever is parked, at any open node, may be parked there. -/
theorem Suits.parkable (hb : ∀ running ts as, base running ts as → ∀ l ∈ as, Parkable p l)
    (h : Suits p base running ts as) : ∀ l ∈ as, Parkable p l := by
  induction h with
  | base hbase => exact hb _ _ _ hbase
  | run a _ _ _ _ _ ih => exact ih
  | dispatch _ _ _ _ _ _ ih => exact ih
  | enterGroup _ _ _ ih => exact ih
  | attributes _ _ _ _ ih => exact ih
  | selfDone above hs hr _ ih =>
    refine List.forall_mem_cons.mpr ⟨?_, (List.forall_mem_cons.mp ih).2⟩
    cases above with
    | nil => exact .inl hs
    | cons b bs => exact .inr (hr (by simp))
  | @close _ _ as mode hp _ ih | @unwind _ _ as mode hp _ ih =>
    cases as with
    | nil => simp
    | cons l as => exact List.forall_mem_cons.mpr ⟨hp l rfl, ih⟩

end

/-! ## Steps -/

/-- What waits for its siblings is at rest. -/
def State.WaitersRest (p : Program) (s : State) : Prop :=
  ∀ n ∈ s.nodes, ∀ w ∈ n.waits, AtRest p w.activations

section
variable {env : Environment} {base : Bool → List Task → List (List Activation) → Prop} {t : Task}
  {ts rest : List Task} {x x' : State}

theorem suits_enterGroups {gs : List GroupId} {l : List Activation} {as : List (List Activation)}
    (hs : SelfWaiting env.program l) (h : Suits env.program base true ts (l :: as)) :
    Suits env.program base true (gs.map Task.enterGroup ++ ts) (l :: as) := by
  induction gs with
  | nil => exact h
  | cons g gs ih => exact .enterGroup g hs ih

/-- One step keeps the agenda in tune with what is parked. -/
theorem Turn.suits (hg : Grounded env.program base) (h : Turn env t x ts x')
    (hs : Suits env.program base true (t :: rest) x.parkedAt) (hw : x.WaitersRest env.program)
    (hb : base true (t :: rest) x.parkedAt → Suits env.program base true (ts ++ rest) x'.parkedAt) :
    Suits env.program base true (ts ++ rest) x'.parkedAt := by
  have parked : ∀ {n ns}, x.nodes = n :: ns →
      x.parkedAt = n.activations :: ns.map OpenNode.activations := fun hn => by
    rw [State.parkedAt, hn, List.map_cons]
  cases h with
  | @dispatchTemplate _ _ _ _ id t position ht hx =>
    rcases hs.of_dispatch with hbase | ⟨l, r, hl, hids, hself, hrest⟩
    · exact hb hbase
    have hrun : ∀ hasChildren passed, Suits env.program base true
        (.run (t.activation id x.depth position hasChildren passed) :: rest) x.parkedAt := by
      intro hasChildren passed
      rw [hl] at hrest ⊢
      refine .run _ rfl (by simp [Template.activation, Activation.start]) (fun id' hid => ?_)
        hself hrest
      obtain rfl := Option.some.inj hid
      exact ⟨(Array.getElem?_eq_some_iff.mp ht).1, fun hm => hx (hids _ hm)⟩
    cases t.entered? with
    | none => exact hrun _ _
    | some g =>
      rw [hl] at hrun ⊢
      exact .enterGroup g hself (hrun _ _)
  | dispatchNothing =>
    rcases hs.of_dispatch with hbase | ⟨l, r, hl, hids, hself, hrest⟩
    · exact hb hbase
    exact hrest.weaken hg
  | dispatchBuiltIn copied hn =>
    rcases hs.of_dispatch with hbase | ⟨l, r, hl, hids, hself, hrest⟩
    · exact hb hbase
    rw [parked hn] at hl hrest
    obtain ⟨rfl, rfl⟩ := List.cons.inj hl
    exact hrest.park hg (.inl rfl) (.inl ⟨copied, rfl⟩) (Activation.joins_of_none rfl) hself
  | enterGroupAlone =>
    rcases hs.of_enterGroup with hbase | ⟨l, r, hl, hself, hrest⟩
    · exact hb hbase
    exact hrest
  | enterGroup passed hinit =>
    rcases hs.of_enterGroup with hbase | ⟨l, r, hl, hself, hrest⟩
    · exact hb hbase
    change Suits env.program base true _ x.parkedAt
    rw [hl] at hrest ⊢
    exact .run _ rfl (by simp [Activation.start]) (Activation.joins_of_none rfl) hself hrest
  | runEnded ha =>
    rcases hs.of_run with hbase | ⟨l, r, hl, hphase, hrole, hj, hself, hrest⟩
    · exact hb hbase
    exact hrest.weaken hg
  | runOn fs =>
    rcases hs.of_run with hbase | ⟨l, r, hl, hphase, hrole, hj, hself, hrest⟩
    · exact hb hbase
    rw [hl] at hrest ⊢
    exact .run _ hphase hrole (hj.congr rfl) hself hrest
  | runAttributes fs g hn =>
    rcases hs.of_run with hbase | ⟨l, r, hl, hphase, hrole, hj, hself, hrest⟩
    · exact hb hbase
    rw [hl] at hrest ⊢
    exact .attributes _ _ hself (.run _ hphase hrole (hj.congr rfl) hself hrest)
  | runChildren fs g hn hi hfirst =>
    rcases hs.of_run with hbase | ⟨l, r, hl, hphase, hrole, hj, hself, hrest⟩
    · exact hb hbase
    rw [parked hn] at hl hrest
    obtain ⟨rfl, rfl⟩ := List.cons.inj hl
    rw [hi, hfirst] at hrest
    exact hrest.park hg (.inl rfl) (.inr rfl) (hj.congr rfl) hself
  | runSiblings fs r hn hi hfirst =>
    rcases hs.of_run with hbase | ⟨l, r, hl, hphase, hrole, hj, hself, hrest⟩
    · exact hb hbase
    rw [parked hn] at hl hrest
    obtain ⟨rfl, rfl⟩ := List.cons.inj hl
    rw [hi, hfirst] at hrest
    exact hrest.park hg (.inr ⟨_, rfl⟩) (.inr rfl) (hj.congr rfl) hself
  | @runSelf _ a n ns fs g exclude hn hi hfirst hexclude =>
    rcases hs.of_run with hbase | ⟨l, r, hl, hphase, hrole, hj, hself, hrest⟩
    · exact hb hbase
    rw [parked hn] at hl hrest
    obtain ⟨rfl, rfl⟩ := List.cons.inj hl
    rw [hi, hfirst] at hrest
    have htemplate : ∃ id, a.role = .template id := by
      cases hr : a.role with
      | template id => exact ⟨id, rfl⟩
      | builtIn copied => exact absurd hr (hrole copied)
      | initialiser group => simp [Activation.isInitialiser, hr] at hi
    have hparked : SelfWaiting env.program ({ a with
        phase := .awaitingSelf, suspendedBy := some .self, frames := fs } :: n.activations) :=
      .cons rfl rfl htemplate (hj.congr rfl) hself
    refine .dispatch _ _ _ (fun id hid => ?_) hparked (.selfDone [] hparked (by simp) hrest)
    rw [filterMap_template_cons] at hid
    exact hexclude ▸ hid
  | attributesDone =>
    rcases hs.of_attributes with hbase | ⟨l, r, hl, hself, hrest⟩
    · exact hb hbase
    exact hrest
  | attributes =>
    rcases hs.of_attributes with hbase | ⟨l, r, hl, hself, hrest⟩
    · exact hb hbase
    refine .dispatch _ _ _ (by simp [OpenNode.fresh]) .nil ?_
    refine .close_node _ (.inl .nil) ?_
    change Suits env.program base true _ x.parkedAt
    rw [hl] at hrest ⊢
    exact .attributes _ _ hself hrest
  | @selfResumed _ n ns a r hn ha =>
    rcases hs.of_selfDone with hbase | ⟨above, a', below, r', hl, hbelow, hself, -, hrest⟩
    · exact hb hbase
    rw [parked hn, ha] at hl
    obtain ⟨hlist, rfl⟩ := List.cons.inj hl
    have hlength := congrArg List.length hlist
    simp only [List.length_append, List.length_cons] at hlength
    obtain rfl : above = [] := List.length_eq_zero_iff.mp (by omega)
    obtain ⟨rfl, rfl⟩ := List.cons.inj hlist
    obtain ⟨id, hrole⟩ : ∃ id, a.role = .template id := by
      cases hself with
      | cons _ _ ht => exact ht
    have hparkable : Parkable env.program (a :: r) := .inl hself
    exact hparkable.suits_resumed (by simp [hrole]) (hrest.weaken hg)
  | @selfWaits _ _ n ns hn hne =>
    rcases hs.of_selfDone with hbase | ⟨above, a', below, r', hl, hbelow, hself, hr, hrest⟩
    · exact hb hbase
    have habove : above ≠ [] := by
      rintro rfl
      rw [parked hn] at hl
      exact hne _ _ (List.cons.inj hl).1 hbelow
    have hrest' := hrest.push hg (above ++ [a']) (by rw [List.append_assoc]; exact hr habove)
    rw [List.append_assoc] at hrest'
    rw [List.nil_append, hl]
    exact hrest'.weaken hg
  | @closeWaits _ mode n ns w ws hn hwaits =>
    have hrest : AtRest env.program w.activations := hw n (hn ▸ List.mem_cons_self) w
      (hwaits ▸ List.mem_cons_self)
    rw [parked hn] at hs
    exact .close_node _ (.inr hrest) hs
  | closeClear hc =>
    rcases hs.of_close with hbase | ⟨hp, hrest⟩
    · exact hb hbase
    exact .unwind _ hp hrest
  | @unwindPopped _ mode n ns hn hout =>
    rcases hs.of_unwind with hbase | ⟨hp, hrest⟩
    · exact hb hbase
    rw [parked hn] at hrest
    rw [State.parkedAt, map_activations_handOn]
    exact hrest
  | @unwindResumed _ mode n ns a r hn ha hout hrole =>
    rcases hs.of_unwind with hbase | ⟨hp, hrest⟩
    · exact hb hbase
    rw [parked hn] at hp hrest
    have hparkable : Parkable env.program (a :: r) := ha ▸ hp _ rfl
    exact hparkable.suits_resumed hrole (.unwind_node mode (.inl hparkable.of_cons.2) hrest)
  | @unwindBuiltIn _ mode n ns a r copied hn ha hout hrole =>
    rcases hs.of_unwind with hbase | ⟨hp, hrest⟩
    · exact hb hbase
    rw [parked hn] at hp hrest
    have hparkable : Parkable env.program (a :: r) := ha ▸ hp _ rfl
    exact .unwind_node mode (.inl hparkable.of_cons.2) hrest
  | offerOpened | offerDeclined | offerSkipped => exact hb (hs.of_outer (.inr ⟨_, _, rfl⟩))
  | _ => exact hb (hs.of_outer (.inl rfl))

/-! ## Between the nodes -/

/-- Agendas on which nothing runs, with everything at rest. -/
structure Idle (p : Program) (ts : List Task) (as : List (List Activation)) : Prop where
  tasks : Outer ts ∨ ∃ e hasChildren us, ts = .offer e hasChildren :: us ∧ Outer us
  rest : ∀ l ∈ as, AtRest p l

theorem grounded_idle (p : Program) : Grounded p fun _ => Idle p where
  weaken h := h
  push h hr := ⟨h.tasks, List.forall_mem_cons.mpr ⟨hr, (List.forall_mem_cons.mp h.rest).2⟩⟩

theorem Turn.waitersRest (h : Turn env t x ts x') (hw : x.WaitersRest env.program)
    (hp : ∀ l ∈ x.parkedAt, Parkable env.program l) : x'.WaitersRest env.program := by
  have top : ∀ {n n' : OpenNode} {ns : List OpenNode}, x.nodes = n :: ns →
      (∀ w ∈ n'.waits, w ∈ n.waits) →
      ∀ m ∈ n' :: ns, ∀ w ∈ m.waits, AtRest env.program w.activations := by
    intro n n' ns hn hsub
    rw [State.WaitersRest, hn] at hw
    obtain ⟨hhead, htail⟩ := List.forall_mem_cons.mp hw
    exact List.forall_mem_cons.mpr ⟨fun w hm => hhead w (hsub w hm), htail⟩
  have fresh : ∀ e, ∀ w ∈ (OpenNode.fresh e).waits, AtRest env.program w.activations := by
    simp [OpenNode.fresh]
  cases h with
  | begin => exact List.forall_mem_cons.mpr ⟨fresh _, hw⟩
  | attributes => exact List.forall_mem_cons.mpr ⟨fresh _, hw⟩
  | offerOpened g hn => exact List.forall_mem_cons.mpr ⟨fresh _, hn ▸ hw⟩
  | meet hs hn => exact top hn fun _ hm => hm
  | dispatchBuiltIn copied hn => exact top hn fun _ hm => hm
  | runChildren fs g hn => exact top hn fun _ hm => hm
  | runSiblings fs r hn => exact top hn fun _ hm => hm
  | runSelf fs g exclude hn => exact top hn fun _ hm => hm
  | selfResumed hn => exact top hn fun _ hm => hm
  | unwindResumed hn => exact top hn fun _ hm => hm
  | unwindBuiltIn hn => exact top hn fun _ hm => hm
  | offerDeclined hn hwaits =>
    exact List.forall_mem_cons.mpr ⟨by simp [OpenNode.ofWait],
      top hn fun _ hm => hwaits ▸ List.mem_cons_of_mem _ hm⟩
  | closeWaits hn hwaits =>
    exact List.forall_mem_cons.mpr ⟨by simp [OpenNode.ofWait],
      top hn fun _ hm => hwaits ▸ List.mem_cons_of_mem _ hm⟩
  | @unwindPopped _ mode n ns hn hout =>
    rw [State.WaitersRest, hn] at hw
    obtain ⟨-, htail⟩ := List.forall_mem_cons.mp hw
    cases ns with
    | nil => exact htail
    | cons q ns =>
      simp only [State.WaitersRest, handOn_cons]
      split
      · exact htail
      · obtain ⟨hq, hns⟩ := List.forall_mem_cons.mp htail
        refine List.forall_mem_cons.mpr ⟨List.forall_mem_cons.mpr ⟨?_, hq⟩, hns⟩
        have hparkable : Parkable env.program n.activations := hp _ (by simp [State.parkedAt, hn])
        cases ha : n.activations with
        | nil => exact .nil
        | cons a r => exact (ha ▸ hparkable).atRest_of_outlives (hout a r ha)
  | _ => exact hw

/-- One step of an agenda on which nothing runs. -/
theorem Turn.suits_of_idle (h : Turn env t x ts x') (hi : Idle env.program (t :: rest) x.parkedAt)
    (hw : x.WaitersRest env.program) :
    Suits env.program (fun _ => Idle env.program) true (ts ++ rest) x'.parkedAt := by
  have outer : (∀ e hasChildren, t ≠ .offer e hasChildren) → Outer (t :: rest) := by
    intro hne
    rcases hi.tasks with ho | ⟨e, hasChildren, us, he, -⟩
    · exact ho
    · exact absurd (List.cons.inj he).1 (hne _ _)
  have outer_of_offer : ∀ e hasChildren, t = .offer e hasChildren → Outer rest := by
    intro e hasChildren ht
    rcases hi.tasks with ho | ⟨e', c, us, he, hu⟩
    · rw [ht] at ho
      cases ho
    · exact (List.cons.inj he).2 ▸ hu
  have idle : ∀ {us as}, Outer us → (∀ l ∈ as, AtRest env.program l) →
      Suits env.program (fun _ => Idle env.program) true us as := fun hu ha => .base ⟨.inl hu, ha⟩
  have head : ∀ l ∈ x.parkedAt.head?, Parkable env.program l := fun l hl =>
    .inr (hi.rest l (List.mem_of_mem_head? hl))
  have htail : ∀ l ∈ x.parkedAt.tail, AtRest env.program l := fun l hl =>
    hi.rest l (List.mem_of_mem_tail hl)
  have opened : ∀ l ∈ [] :: x.parkedAt, AtRest env.program l :=
    List.forall_mem_cons.mpr ⟨.nil, hi.rest⟩
  cases h with
  | begin =>
    cases outer (by simp)
    rw [List.append_nil]
    exact suits_enterGroups .nil (.dispatch _ _ _ (by simp [OpenNode.fresh]) .nil
      (.base ⟨.inl .nil, opened⟩))
  | conclude ho =>
    cases outer (by simp)
    exact idle (.flush false .final) hi.rest
  | endOutput =>
    cases outer (by simp)
    exact idle .nil hi.rest
  | flush closing =>
    cases outer (by simp) with
    | flush _ hr => exact idle (hr.flushed x closing) hi.rest
  | hold n as =>
    cases outer (by simp)
    exact idle .nil hi.rest
  | checkEnd ho hsame =>
    cases outer (by simp)
    exact idle (.flush true .leave) hi.rest
  | leaveSkipped hs =>
    cases outer (by simp)
    exact idle .nil hi.rest
  | leave hs =>
    cases outer (by simp)
    exact .close _ head (idle .nil htail)
  | meetSkipped hs =>
    cases outer (by simp) with
    | meet _ _ hr => exact idle hr hi.rest
  | meet hs hn =>
    cases outer (by simp) with
    | meet _ _ hr =>
      have hrest := hi.rest
      rw [State.parkedAt, hn] at hrest
      exact .base ⟨.inr ⟨_, _, _, rfl, hr⟩, hrest⟩
  | @offerOpened _ e hasChildren n ns g hn =>
    have hr := outer_of_offer _ _ rfl
    rw [State.parkedAt, hn] at opened
    refine .dispatch _ _ _ (by simp [OpenNode.fresh]) .nil ?_
    split
    · exact .base ⟨.inl hr, opened⟩
    · exact .close_node _ (.inl .nil) (idle hr (List.forall_mem_cons.mp opened).2)
  | @offerDeclined _ e hasChildren n ns w ws hn hwaits =>
    have hr := outer_of_offer _ _ rfl
    have hrest : AtRest env.program w.activations := hw n (hn ▸ List.mem_cons_self) w
      (hwaits ▸ List.mem_cons_self)
    have hall := hi.rest
    rw [State.parkedAt, hn] at hall
    exact .close_node _ (.inr hrest) (.base ⟨.inr ⟨_, _, _, rfl, hr⟩, hall⟩)
  | offerSkipped hn hwaits hchildren => exact idle (outer_of_offer _ _ rfl) hi.rest
  | @closeWaits _ mode n ns w ws hn hwaits =>
    have hr := outer (by simp)
    have hrest : AtRest env.program w.activations := hw n (hn ▸ List.mem_cons_self) w
      (hwaits ▸ List.mem_cons_self)
    have hall := hi.rest
    rw [State.parkedAt, hn] at hall
    exact .close_node _ (.inr hrest) (idle hr hall)
  | closeClear hc =>
    cases outer (by simp) with
    | final => exact .unwind _ head (idle .endOutput htail)
  | _ => cases outer (by simp)

theorem Turn.suits_idle (h : Turn env t x ts x')
    (hs : Suits env.program (fun _ => Idle env.program) true (t :: rest) x.parkedAt)
    (hw : x.WaitersRest env.program) :
    Suits env.program (fun _ => Idle env.program) true (ts ++ rest) x'.parkedAt :=
  h.suits (grounded_idle _) hs hw fun hi => h.suits_of_idle hi hw

theorem Suits.parkable_of_idle {p : Program} {running : Bool} {as : List (List Activation)}
    (h : Suits p (fun _ => Idle p) running ts as) : ∀ l ∈ as, Parkable p l :=
  h.parkable fun _ _ _ hi l hl => .inr (hi.rest l hl)

end

/-! ## Runs -/

section
variable {env : Environment} {m m' m₁ : Moment}

/-- The agenda goes with what is parked at the open nodes, and what waits for siblings is at rest. -/
structure Moored (env : Environment) (m : Moment) : Prop where
  suits : Suits env.program (fun _ => Idle env.program) true m.agenda m.state.parkedAt
  waiters : m.state.WaitersRest env.program

theorem Moored.parkable (h : Moored env m) : ∀ n ∈ m.state.nodes, Parkable env.program n.activations :=
  fun _ hn => h.suits.parkable_of_idle _ (List.mem_map_of_mem hn)

/-- The activation that runs is of no template that is parked at its node. -/
theorem Moored.of_run (h : Moored env m) {a : Activation} {rest : List Task}
    (hd : m.agenda = .run a :: rest) : ∃ l r, m.state.parkedAt = l :: r ∧ a.phase = .running ∧
      (∀ copied, a.role ≠ .builtIn copied) ∧ a.Joins env.program l ∧ SelfWaiting env.program l := by
  have hs := h.suits
  rw [hd] at hs
  rcases hs.of_run with hi | ⟨l, r, hl, hphase, hrole, hj, hself, -⟩
  · rcases hi.tasks with ho | ⟨_, _, _, he, -⟩
    · cases ho
    · cases he
  · exact ⟨l, r, hl, hphase, hrole, hj, hself⟩

theorem Moored.atRest (h : Moored env m) (hd : m.agenda = []) :
    ∀ n ∈ m.state.nodes, AtRest env.program n.activations := by
  intro n hn
  have hs := h.suits
  rw [hd] at hs
  cases hs with
  | base hi => exact hi.rest _ (List.mem_map_of_mem hn)

theorem moored_of_reached (hm : Reached env m) : Moored env m := by
  induction hm with
  | first i _ =>
    have hnodes : (Moment.take i (.initial env.program)).state.nodes = [] := i.apply_nodes _
    refine ⟨.base ⟨.inl i.outer_tasks, ?_⟩, ?_⟩
    · simp [State.parkedAt, hnodes]
    · simp [State.WaitersRest, hnodes]
  | @next m m' hm hn ih =>
    cases hn with
    | task hy =>
      have hturn := Turn.of_yields hy
      exact ⟨hturn.suits_idle ih.suits ih.waiters,
        hturn.waitersRest ih.waiters ih.suits.parkable_of_idle⟩
    | call i hd ha =>
      have hnodes : (Moment.take i m.settled).state.nodes = m.state.nodes := i.apply_nodes _
      refine ⟨.base ⟨.inl i.outer_tasks, fun l hl => ?_⟩, ?_⟩
      · rw [State.parkedAt, hnodes] at hl
        obtain ⟨n, hn, rfl⟩ := List.mem_map.mp hl
        exact ih.atRest hd n hn
      · rw [State.WaitersRest, hnodes]
        exact ih.waiters

end

end StreamTransform
