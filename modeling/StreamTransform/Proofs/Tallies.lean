import StreamTransform.Proofs.Spine

/-!
# Tallies of children

Along a document, `openLevels` keeps the children so far of every open node. An
open node counts its children in every group they belong to, and each is counted
once, when it is met: whether it is processed, skipped or taken by a waiter. So
the tallies of the nodes that stay open are the counts of their levels, and on
top of these levels come those of skipped content and of the element on offer.
-/

namespace StreamTransform

/-- What a step through a document does to the children of the open nodes. -/
def Mark.into (levels : List (List Content)) : Mark → List (List Content)
  | .node c =>
    match levels with
    | l :: ls => (if c.isElement then [[]] else []) ++ (c :: l) :: ls
    | [] => []
  | .close => levels.tail

/-- The children so far of every open node, those of the innermost one first, each list with the
nearest child at the head. -/
def openLevels (ms : List Mark) : List (List Content) := ms.foldl Mark.into [[]]

/-- The siblings before a node that follows on these steps, the nearest one first. -/
def precedingSiblings (ms : List Mark) : List Content := (openLevels ms).headD []

example (n : QName) : precedingSiblings [.node (.element n []), .node (.text "a"), .close,
    .node (.comment "b")] = [.comment "b", .element n []] := rfl

theorem openLevels_append (ms new : List Mark) :
    openLevels (ms ++ new) = new.foldl Mark.into (openLevels ms) := List.foldl_append

/-! ## Counting one child -/

namespace Content

/-- A child is counted once in each of its groups. -/
theorem groups_nodup (c : Content) : c.groups.Nodup := by
  cases c <;> simp [groups]

end Content

/-- How many of these children belong to a group. -/
def membersOf (l : List Content) (g : SiblingGroup) : Nat := l.countP fun c => c.groups.contains g

theorem membersOf_cons (c : Content) (l : List Content) (g : SiblingGroup) :
    membersOf (c :: l) g = membersOf l g + if g ∈ c.groups then 1 else 0 := by
  simp [membersOf, List.countP_cons]

theorem count_foldl_bump (gs : List SiblingGroup) (t : Tally) (g : SiblingGroup) :
    (gs.foldl Tally.bump t).count g = t.count g + gs.count g := by
  induction gs generalizing t with
  | nil => rfl
  | cons h gs ih =>
    rw [List.foldl_cons, ih, Tally.count_bump, List.count_cons]
    by_cases hg : g = h
    · subst hg
      simp only [if_true, beq_self_eq_true]
      omega
    · have hne : (h == g) = false := beq_false_of_ne (Ne.symm hg)
      simp only [if_neg hg, hne, Bool.false_eq_true, if_false]
      omega

/-- A tally that counts these children counts one more when it is met. -/
theorem count_register {t : Tally} {l : List Content} (h : t.count = membersOf l) (serial : Nat)
    (c : Content) : (Event.register t (.met serial c)).1.count = membersOf (c :: l) := by
  funext g
  change (c.groups.foldl Tally.bump t).count g = _
  rw [count_foldl_bump, membersOf_cons, h, c.groups_nodup.count]

theorem lookup_of_mem {gs : List SiblingGroup} {g : SiblingGroup} (h : g ∈ gs)
    (f : SiblingGroup → Nat) : (gs.map fun k => (k, f k)).lookup g = some (f g) := by
  induction gs with
  | nil => cases h
  | cons k gs ih =>
    rw [List.map_cons, List.lookup_cons]
    by_cases hk : g = k
    · subst hk
      simp
    · have hne : (g == k) = false := beq_false_of_ne hk
      rw [hne]
      exact ih ((List.mem_cons.mp h).resolve_left hk)

/-- The child gets its place among those of each of its groups. -/
theorem positionOf_register {t : Tally} {l : List Content} (h : t.count = membersOf l)
    (serial : Nat) {c : Content} {g : SiblingGroup} (hg : g ∈ c.groups) :
    (Event.register t (.met serial c)).2.positionOf g = 1 + membersOf l g := by
  have hcount : (Event.register t (.met serial c)).1.count g = 1 + membersOf l g := by
    rw [count_register h, membersOf_cons, if_pos hg, Nat.add_comm]
  have hlookup : (Event.register t (.met serial c)).2.positions.lookup g =
      some (1 + membersOf l g) := by
    rw [← hcount]
    exact lookup_of_mem hg _
  unfold Event.positionOf
  rw [hlookup]
  cases c with
  | attr a place => cases hg
  | _ => rfl

/-! ## The levels of the open nodes -/

/-- The level of an element on offer, which has neither a node nor children yet. -/
def Task.offeredLevel : Task → List (List Content)
  | .offer e _ => if e.content.isElement then [[]] else []
  | _ => []

def offeredLevels (ts : List Task) : List (List Content) := ts.flatMap Task.offeredLevel

/-- The tallies of the nodes that stay open, as counts. -/
def State.countsBelow (x : State) (k : Nat) : List (SiblingGroup → Nat) :=
  (x.nodes.map fun n => n.tally.count).drop k

/-- The levels of a document match what is counted: `skipped` are those of skipped content, and
`lower` those of the nodes that stay open when the agenda is worked off. -/
structure Tallied (ts : List Task) (x : State) (levels skipped lower : List (List Content)) :
    Prop where
  levels : levels = offeredLevels ts ++ skipped ++ lower
  skips : skipped.length = x.skipDepth
  counts : x.countsBelow (closings ts) = lower.map membersOf

/-- The levels of a document match what is counted in some way. -/
def IsTallied (ts : List Task) (x : State) (levels : List (List Content)) : Prop :=
  ∃ skipped lower, Tallied ts x levels skipped lower

@[simp] theorem offeredLevels_cons (t : Task) (ts : List Task) :
    offeredLevels (t :: ts) = t.offeredLevel ++ offeredLevels ts := by
  simp [offeredLevels]

theorem offeredLevels_of_outer {ts : List Task} (h : Outer ts) : offeredLevels ts = [] := by
  induction h with
  | flush closing _ ih => simpa [Task.offeredLevel] using ih
  | meet c hasChildren _ ih => simpa [Task.offeredLevel] using ih
  | _ => rfl

theorem offeredLevels_enterGroups (gs : List GroupId) (ts : List Task) :
    offeredLevels (gs.map Task.enterGroup ++ ts) = offeredLevels ts := by
  induction gs with
  | nil => rfl
  | cons g gs ih => simpa [Task.offeredLevel] using ih

theorem map_tally_handOn (n : OpenNode) (ns : List OpenNode) :
    (handOn n ns).map OpenNode.tally = ns.map OpenNode.tally := by
  cases ns with
  | nil => rfl
  | cons p r =>
    rw [handOn_cons]
    split <;> rfl

section
variable {env : Environment} {t : Task} {ts ts' rest : List Task} {x x' : State}
  {levels : List (List Content)}

/-- Nothing changes of what is counted. -/
theorem IsTallied.same (h : IsTallied ts x levels)
    (hcounts : x'.countsBelow (closings ts') = x.countsBelow (closings ts))
    (hskip : x'.skipDepth = x.skipDepth) (hoffered : offeredLevels ts' = offeredLevels ts) :
    IsTallied ts' x' levels := by
  obtain ⟨skipped, lower, hlevels, hskips, hlower⟩ := h
  exact ⟨skipped, lower, hoffered ▸ hlevels, hskips.trans hskip.symm, hcounts.trans hlower⟩

theorem isTallied_inputSide : IsTallied ts x.inputSide levels ↔ IsTallied ts x levels :=
  ⟨fun ⟨s, l, h₁, h₂, h₃⟩ => ⟨s, l, h₁, h₂, h₃⟩, fun ⟨s, l, h₁, h₂, h₃⟩ => ⟨s, l, h₁, h₂, h₃⟩⟩

/-- While nothing is skipped, all levels below the element on offer are counted. -/
theorem IsTallied.unskipped (h : IsTallied ts x levels) (hs : x.skipDepth = 0) :
    ∃ lower, levels = offeredLevels ts ++ lower ∧
      x.countsBelow (closings ts) = lower.map membersOf := by
  obtain ⟨skipped, lower, hlevels, hskips, hlower⟩ := h
  obtain rfl : skipped = [] := List.eq_nil_of_length_eq_zero (hskips.trans hs)
  exact ⟨lower, by rw [hlevels, List.append_nil], hlower⟩

theorem IsTallied.of_lower (lower : List (List Content)) (hs : x.skipDepth = 0)
    (hlevels : levels = offeredLevels ts ++ lower)
    (hlower : x.countsBelow (closings ts) = lower.map membersOf) : IsTallied ts x levels :=
  ⟨[], lower, by rw [hlevels, List.append_nil], hs.symm, hlower⟩

/-- Inside skipped content there is a level to skip. -/
theorem IsTallied.skipped (h : IsTallied ts x levels) (hs : 0 < x.skipDepth) :
    ∃ l skipped lower, levels = offeredLevels ts ++ l :: skipped ++ lower ∧
      skipped.length + 1 = x.skipDepth ∧ x.countsBelow (closings ts) = lower.map membersOf := by
  obtain ⟨skipped, lower, hlevels, hskips, hlower⟩ := h
  cases skipped with
  | nil =>
    rw [← hskips] at hs
    cases hs
  | cons l skipped => exact ⟨l, skipped, lower, hlevels, hskips, hlower⟩

/-- The node that is to get a child has counted the children of its level. -/
theorem IsTallied.of_meet {c : Content} {hasChildren : Bool} {n : OpenNode} {ns : List OpenNode}
    (h : IsTallied (.meet c hasChildren :: rest) x levels) (hr : Outer rest)
    (hs : x.skipDepth = 0) (hn : x.nodes = n :: ns) :
    ∃ l lower, levels = l :: lower ∧ n.tally.count = membersOf l ∧
      (ns.map fun n => n.tally.count) = lower.map membersOf := by
  obtain ⟨lower, hlevels, hlower⟩ := h.unskipped hs
  rw [closings_level rfl, closings_of_outer hr, State.countsBelow, hn] at hlower
  rw [offeredLevels_cons, offeredLevels_of_outer hr] at hlevels
  cases lower with
  | nil => cases hlower
  | cons l lower =>
    obtain ⟨htop, hlower⟩ := List.cons.inj hlower
    exact ⟨l, lower, hlevels, htop, hlower⟩

/-- One step keeps the levels matched, up to the end of the root. -/
theorem Turn.tallied (h : Turn env t x ts x') (ho : Orderly true (t :: rest) x.nodes)
    (hs : IsTallied (t :: rest) x levels) (hbegin : t ≠ .begin) (hend : t ≠ .endOutput)
    (hskip : ∀ e hasChildren, t = .offer e hasChildren → x.skipDepth = 0) :
    IsTallied (ts ++ rest) x' (t.meets.foldl Mark.into levels) ∨ ts ++ rest = [.endOutput] := by
  cases h with
  | begin => exact absurd rfl hbegin
  | endOutput => exact absurd rfl hend
  | conclude hopen =>
    cases ho.of_input rfl
    exact .inl (hs.same rfl rfl rfl)
  | flush closing =>
    left
    refine hs.same ?_ rfl ?_
    · rcases x.pendingStart with - | p <;> rcases x.heldText env with - | u <;> rfl
    · rcases x.pendingStart with - | p <;> rcases x.heldText env with - | u <;> rfl
  | checkEnd hopen hsame =>
    cases ho.of_input rfl
    exact .inl (hs.same rfl rfl rfl)
  | leaveSkipped hpos =>
    cases ho.of_input rfl
    obtain ⟨l, skipped, lower, rfl, hskips, hlower⟩ := hs.skipped hpos
    refine .inl ⟨skipped, lower, rfl, ?_, hlower⟩
    rw [← hskips]
    rfl
  | leave hzero =>
    cases ho.of_input rfl
    obtain ⟨lower, hlevels, hlower⟩ := hs.unskipped hzero
    refine .inl (.of_lower lower.tail hzero (congrArg List.tail hlevels) ?_)
    change (x.nodes.map fun n => n.tally.count) = lower.map membersOf at hlower
    change (x.nodes.map fun n => n.tally.count).drop 1 = _
    rw [hlower, List.drop_one, List.map_tail]
  | @meetSkipped _ c hasChildren hpos =>
    left
    obtain ⟨l, skipped, lower, rfl, hskips, hlower⟩ := hs.skipped hpos
    have hr : offeredLevels rest = [] := by
      cases ho.of_input rfl with
      | meet _ _ hr => exact offeredLevels_of_outer hr
    refine ⟨(if c.isElement then [[]] else []) ++ (c :: l) :: skipped, lower, ?_, ?_, hlower⟩
    · simp [hr, Task.offeredLevel, Task.meets, Mark.into]
    · rw [← hskips]
      cases c.isElement <;> simp
  | @meet _ c hasChildren n ns hzero hn =>
    left
    have hr : Outer rest := by
      cases ho.of_input rfl with
      | meet _ _ hr => exact hr
    obtain ⟨l, lower, rfl, htop, hlower⟩ := hs.of_meet hr hzero hn
    refine .of_lower ((c :: l) :: lower) hzero ?_ ?_
    · simp [offeredLevels_of_outer hr, Task.offeredLevel, Task.meets, Mark.into, Event.register,
        Event.met]
    · rw [List.singleton_append, closings_level rfl, closings_of_outer hr, State.countsBelow]
      simp only [List.map_cons, List.drop_zero]
      rw [count_register htop, hlower]
  | @offerOpened _ e hasChildren n ns g hn =>
    left
    have hr := closings_of_outer ho.of_offer
    have hoffered := offeredLevels_of_outer ho.of_offer
    have hzero := hskip e hasChildren rfl
    obtain ⟨lower, hlevels, hlower⟩ := hs.unskipped hzero
    rw [closings_level rfl, hr] at hlower
    by_cases he : e.content.isElement
    · refine .of_lower ([] :: lower) hzero ?_ ?_
      · simpa [he, hoffered, Task.offeredLevel, Task.meets] using hlevels
      · simp only [he, if_true, List.cons_append, List.nil_append, closings_level, hr,
          State.countsBelow, List.map_cons, List.drop_zero]
        rw [State.countsBelow, List.drop_zero, hn] at hlower
        rw [List.map_cons] at hlower
        rw [hlower]
        rfl
    · refine .of_lower lower hzero ?_ ?_
      · simpa [he, hoffered, Task.offeredLevel, Task.meets] using hlevels
      · rw [← hlower]
        simp [he, hr, hn, State.countsBelow]
  | offerDeclined hn hw =>
    exact .inl (hs.same (by simp [State.countsBelow, hn, closings_of_outer ho.of_offer]) rfl rfl)
  | @offerSkipped _ e hasChildren n ns hn hw hchildren =>
    left
    have hoffered := offeredLevels_of_outer ho.of_offer
    have hzero := hskip e hasChildren rfl
    obtain ⟨lower, hlevels, hlower⟩ := hs.unskipped hzero
    by_cases he : e.content.isElement
    · refine ⟨[[]], lower, ?_, by simp [he], hlower⟩
      simpa [he, hoffered, Task.offeredLevel, Task.meets] using hlevels
    · refine ⟨[], lower, ?_, by simp [he, hzero], hlower⟩
      simpa [he, hoffered, Task.offeredLevel, Task.meets] using hlevels
  | @dispatchTemplate _ _ _ _ _ t position ht =>
    left
    cases t.entered? with
    | none => exact hs.same rfl rfl rfl
    | some g => exact hs.same rfl rfl rfl
  | dispatchBuiltIn copied hn | runChildren fs g hn hi | runSiblings fs r hn hi
  | runSelf fs g exclude hn hi | selfResumed hn ha | closeWaits hn hw
  | unwindResumed hn ha hout hrole | unwindBuiltIn hn ha hout hrole =>
    exact .inl (hs.same (by simp [State.countsBelow, hn]) rfl rfl)
  | attributes =>
    refine .inl (hs.same ?_ rfl rfl)
    simp [State.countsBelow, closings_close]
  | @unwindPopped _ mode n ns hn hout =>
    by_cases hlast : rest = [.endOutput]
    · exact .inr hlast
    · refine .inl (hs.same ?_ rfl rfl)
      have hkept := congrArg (List.map Tally.count) (map_tally_handOn n ns)
      rw [List.map_map, List.map_map] at hkept
      rw [closings_unwind, closings_close hlast, State.countsBelow, State.countsBelow, hn,
        List.map_cons, List.drop_succ_cons]
      exact congrArg (List.drop (closings rest)) hkept
  | _ => exact .inl (hs.same rfl rfl rfl)

/-- The start of the document opens the root, which has no children yet. -/
theorem Turn.tallied_of_begin (h : Turn env .begin x ts x') (hx : x.Unstarted) :
    IsTallied ts x' [[]] := by
  cases h with
  | begin =>
    refine ⟨[], [[]], ?_, hx.skipDepth.symm, ?_⟩
    · rw [offeredLevels_enterGroups]
      rfl
    · rw [closings_enterGroups, State.countsBelow]
      simp only [hx.nodes]
      rfl

end

/-! ## Runs -/

section
variable {env : Environment} {is : List Input} {met : List Mark} {m : Moment}

theorem IsTallied.take {levels : List (List Content)} (h : IsTallied [] m.state levels)
    (i : Input) :
    IsTallied (Moment.take i m.settled).agenda (Moment.take i m.settled).state levels := by
  refine h.same ?_ (by cases i <;> rfl) (offeredLevels_of_outer i.outer_tasks)
  simp only [Moment.take, State.countsBelow, i.apply_nodes, closings_of_outer i.outer_tasks]
  rfl

/-- While the document is in process, the levels of what was met match what is counted. -/
theorem tallied_of_fed (h : Fed env is met m) :
    m.IsAhead ∨ m.IsOver ∨ IsTallied m.agenda m.state (openLevels met) := by
  refine in_process (P := fun met m => IsTallied m.agenda m.state (openLevels met)) ?_ ?_ ?_ h
  · intro i ts s s' hx hturn
    exact isTallied_inputSide.mp (hturn.tallied_of_begin hx)
  · intro met i t rest ts s s' hsound hturn hbegin hend hs
    rw [openLevels_append]
    exact (hturn.tallied hsound.orderly (isTallied_inputSide.mpr hs) hbegin hend
      (fun e hasChildren he => hsound.unskipped e hasChildren (by simp [he]))).imp_left
        isTallied_inputSide.mp
  · intro met i m hd hs
    rw [hd] at hs
    exact hs.take i

end

end StreamTransform
