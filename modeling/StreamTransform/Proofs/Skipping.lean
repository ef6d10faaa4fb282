import StreamTransform.Proofs.Copy
import StreamTransform.Proofs.Indifference
import StreamTransform.Proofs.Waiters

/-!
# Content that is skipped

An element that no waiter takes and that its parent did not ask for is passed
over with all its content. Its start tag is held back until the next event, so
it is met at different times, but what is met is the same and nobody sees the
rest: below it only the names of the open elements and how many of them there
are is kept, and its end tag undoes that. So the run after the end tag cannot
tell what was inside.
-/

namespace StreamTransform

/-! ## Waiters leave the input alone -/

/-- What the input has moved: the status, the open elements and what is held back. -/
def State.intake (s : State) :
    Status × List QName × Nat × Option (QName × List Attribute) × String :=
  (s.status, s.inputOpen, s.skipDepth, s.pendingStart, s.pendingText)

section
variable {env : Environment} {t : Task} {ts rest : List Task} {x x' s s' : State} {n : OpenNode}
  {ns ms below : List OpenNode} {w : SiblingWait} {ws remaining : List SiblingWait}
  {asked : SiblingWait → State → State → Prop}

theorem Turn.intake_eq (h : Turn env t x ts x') (hw : Within (t :: rest) ms) :
    x'.intake = x.intake := by
  cases h with
  | begin | conclude | flush | hold | checkEnd | leaveSkipped | leave | meetSkipped | meet
  | offerOpened | offerDeclined | offerSkipped | endOutput =>
    cases hw with
    | nodal ht _ => cases ht
  | _ => rfl

theorem WorksOff.intake_eq (h : WorksOff env ts s s') (hw : Within ts ms)
    (hn : s.nodes = ms ++ below) : s'.intake = s.intake := by
  induction h generalizing ms with
  | nil s => rfl
  | cons hy _ ih =>
    have hturn := Turn.of_yields hy
    obtain ⟨ms', hw', hn'⟩ := hturn.within hw hn
    exact (ih hw' hn').trans (hturn.intake_eq hw)

/-- Work does not change the status. -/
theorem WorksOff.status_eq (h : WorksOff env ts s s') : s'.status = s.status := by
  induction h with
  | nil s => rfl
  | cons hy _ ih =>
    have hturn : _ = _ := (Turn.of_yields hy).status_eq
    exact ih.trans hturn

theorem Resumed.intake_eq (h : Resumed env w s s') : s'.intake = s.intake := by
  obtain ⟨n, ns, ws, -, -, h, -⟩ := h
  have hwithin : Within [.close .restored] [.ofWait w] := .close (by decide) .nil
  exact h.intake_eq hwithin rfl

theorem InTurn.intake_eq (hasked : ∀ w s s', asked w s s' → s'.inputSide = s.inputSide)
    (h : InTurn env asked ws s s') : s'.intake = s.intake := by
  induction h with
  | nil s => rfl
  | cons ha hr _ ih =>
    have hside := congrArg State.intake (hasked _ _ _ ha)
    exact ih.trans (hr.intake_eq.trans hside)

theorem inputSide_of_judges {taken : Bool} {e : Event} (h : Judges env taken e w s s') :
    s'.inputSide = s.inputSide := by
  obtain ⟨r, -, ht⟩ := h
  exact Operation.inputSide_eq (fun s₀ => (Operation.outward_inputSide env s₀).takes w r e) ht

end

/-! ## Elements that nobody takes -/

/-- The element that is met next is passed over: the waiters of its parent are asked in turn, decline
and are resumed, and the parent has not asked for children; or it stands in such an element. -/
inductive Skips (env : Environment) (name : QName) (as : List Attribute) : State → State → Prop
  | unrequested {s s' : State} {p : OpenNode} {ps : List OpenNode} : s.skipDepth = 0 →
      s.nodes = p :: ps → p.children = none →
      InTurn env (Judges env false (p.child s.serial (.element name as))) p.waits
        { s with
          serial := s.serial + 1
          nodes := p.counting s.serial (.element name as) :: ps } s' →
      Skips env name as s { s' with skipDepth := 1 }
  | inside {s : State} : 0 < s.skipDepth →
      Skips env name as s { s with skipDepth := s.skipDepth + 1 }

namespace Operation

variable {env : Environment} {s s₁ : State} {e : Event} {hasChildren : Bool} {n : OpenNode}
  {ns : List OpenNode} {w : SiblingWait} {ws : List SiblingWait}

theorem yields_offer_declined (hn : s.nodes = n :: ns) (hw : n.waits = w :: ws)
    (h : Judges env false e w s s₁) :
    (offer env e hasChildren).Yields s [.close .restored, .offer e hasChildren]
      { s₁ with nodes := .ofWait w :: { n with waits := ws } :: ns } := by
  obtain ⟨r, hr, ht⟩ := h
  have hn₁ : s₁.nodes = n :: ns := (nodes_of_takes ht).trans hn
  simp only [offer, yields_bind, yields_current]
  refine ⟨n, s, ⟨⟨ns, hn⟩, rfl⟩, ?_⟩
  simp only [hw, hr, yields_bind]
  refine ⟨false, s₁, ht, ?_⟩
  simp only [Bool.false_eq_true, if_false, yields_bind, yields_releaseWait]
  exact ⟨⟨⟩, _, ⟨n, ns, hn₁, rfl⟩, yields_pure.mpr ⟨rfl, rfl⟩⟩

theorem yields_offer_skipped (hn : s.nodes = n :: ns) (hw : n.waits = [])
    (hc : n.children = none) (he : e.content.isElement) :
    (offer env e hasChildren).Yields s [] { s with skipDepth := 1 } := by
  simp only [offer, yields_bind, yields_current]
  refine ⟨n, s, ⟨⟨ns, hn⟩, rfl⟩, ?_⟩
  simp only [hw, hc, skip, he, if_true, yields_bind, yields_modify]
  exact ⟨⟨⟩, _, rfl, yields_pure.mpr ⟨rfl, rfl⟩⟩

theorem yields_meet_met {c : Content} (hs : s.skipDepth = 0) (hn : s.nodes = n :: ns) :
    (meet env c hasChildren).Yields s [.offer (n.child s.serial c) hasChildren]
      { s with serial := s.serial + 1, nodes := n.counting s.serial c :: ns } := by
  rw [meet, yields_get_bind]
  rw [if_neg (Nat.not_lt_of_le (Nat.le_of_eq hs))]
  split
  · rename_i hnone
    cases hnone.symm.trans hn
  · rename_i m ms hm
    obtain ⟨rfl, rfl⟩ := List.cons.inj (hn.symm.trans hm)
    simp only [yields_bind, yields_newEvent, yields_modifyCurrent]
    exact ⟨_, _, ⟨rfl, rfl⟩, ⟨⟩, _, ⟨n, ns, hn, rfl⟩, yields_pure.mpr ⟨rfl, rfl⟩⟩

theorem yields_meet_inside {c : Content} (hs : 0 < s.skipDepth) :
    (meet env c hasChildren).Yields s []
      { s with skipDepth := s.skipDepth + if c.isElement then 1 else 0 } := by
  rw [meet, yields_get_bind]
  simp only [hs, if_true]
  by_cases hc : c.isElement
  · simp only [hc, if_true, yields_bind, yields_modify]
    exact ⟨⟨⟩, _, rfl, yields_pure.mpr ⟨rfl, rfl⟩⟩
  · simp only [hc, Bool.false_eq_true, if_false]
    exact yields_pure.mpr ⟨rfl, rfl⟩

/-- What is held back is given out: a start tag first, then a text. -/
theorem yields_flush {closing : Bool} {start : Option (QName × List Attribute)}
    {text : Option String} (hstart : s.pendingStart = start) (htext : s.heldText env = text) :
    (flush env closing).Yields s
      ((start.map fun p => Task.meet (.element p.1 p.2) (text.isSome || !closing)).toList
        ++ (text.map fun t => Task.meet (.text t) false).toList)
      { s with pendingStart := none, pendingText := "" } := by
  simp only [flush, yields_bind, yields_takeText]
  refine ⟨_, _, ⟨rfl, rfl⟩, ?_⟩
  simp only [yields_get, yields_modify]
  refine ⟨_, _, ⟨rfl, rfl⟩, ⟨⟩, _, rfl, yields_pure.mpr ⟨?_, rfl⟩⟩
  rw [htext, hstart]
  cases start <;> cases text <;> rfl

theorem yields_hold {name : QName} {as : List Attribute} {u : Unit} :
    (hold name as).Yields s u s₁ ↔
      s₁ = { s with inputOpen := name :: s.inputOpen, pendingStart := some (name, as) } :=
  yields_modify

theorem yields_checkEnd {m o : QName} {os : List QName} (ho : s.inputOpen = o :: os)
    (hsame : o.same m) : (checkEnd env m).Yields s () { s with inputOpen := os } := by
  rw [checkEnd, yields_get_bind]
  simp only [ho, yields_modify_bind, hsame, if_true]
  exact yields_pure.mpr ⟨rfl, rfl⟩

theorem yields_leave_inside (hs : 0 < s.skipDepth) :
    leave.Yields s [] { s with skipDepth := s.skipDepth - 1 } := by
  rw [leave, yields_get_bind, if_pos hs]
  simp only [yields_bind, yields_set]
  exact ⟨⟨⟩, _, rfl, yields_pure.mpr ⟨rfl, rfl⟩⟩

end Operation

section
variable {env : Environment} {name : QName} {as : List Attribute} {s s' : State} {n : OpenNode}
  {ns : List OpenNode} {e : Event} {hasChildren : Bool}

/-- If all waiters decline and the parent has not asked for children, an offer comes to nothing. -/
theorem worksOff_offer_skipped (hn : s.nodes = n :: ns) (hc : n.children = none)
    (he : e.content.isElement) (h : InTurn env (Judges env false e) n.waits s s') :
    WorksOff env [.offer e hasChildren] s { s' with skipDepth := 1 } := by
  generalize hwaits : n.waits = ws at h
  induction h generalizing n with
  | nil s =>
    have hy : (Operation.offer env e hasChildren).Yields s [] { s with skipDepth := 1 } :=
      Operation.yields_offer_skipped hn hwaits hc he
    exact .cons hy (.nil _)
  | @cons w ws s s₁ s₂ s' hjudged hresumed _ ih =>
    have hy : (Operation.offer env e hasChildren).Yields s [.close .restored, .offer e hasChildren]
        { s₁ with nodes := .ofWait w :: { n with waits := ws } :: ns } :=
      Operation.yields_offer_declined hn hwaits hjudged
    have hn₁ := (State.nodes_eq (inputSide_of_judges hjudged)).trans hn
    have hn₂ := hresumed.nodes_eq hn₁ hwaits
    obtain ⟨m, ms, us, hm, hu, hclose, -⟩ := hresumed
    obtain ⟨rfl, rfl⟩ := List.cons.inj (hn₁.symm.trans hm)
    obtain ⟨-, rfl⟩ := List.cons.inj (hwaits.symm.trans hu)
    exact .cons hy (worksOff_first.mpr ⟨s₂, hclose, ih hn₂ hc rfl⟩)

/-- It does not matter whether the element turned out to have children. -/
theorem Skips.worksOff (h : Skips env name as s s') (hasChildren : Bool) :
    WorksOff env [.meet (.element name as) hasChildren] s s' := by
  cases h with
  | @unrequested s₁ p ps hs hn hc hturn =>
    have hy : (Operation.meet env (.element name as) hasChildren).Yields s _ _ :=
      Operation.yields_meet_met hs hn
    exact .cons hy (worksOff_offer_skipped rfl hc rfl hturn)
  | inside hs =>
    have hy : (Operation.meet env (.element name as) hasChildren).Yields s _ _ :=
      Operation.yields_meet_inside hs
    exact .cons hy (.nil _)

theorem Skips.intake_eq (h : Skips env name as s s') :
    s'.intake = { s with skipDepth := s.skipDepth + 1 }.intake := by
  cases h with
  | @unrequested s₁ p ps hs hn hc hturn =>
    have hkept := hturn.intake_eq fun w s s' h => inputSide_of_judges h
    simp only [State.intake, Prod.mk.injEq] at hkept ⊢
    exact ⟨hkept.1, hkept.2.1, by rw [hs], hkept.2.2.2⟩
  | inside hs => rfl

end

/-! ## Below the element -/

/-- Content is skipped, and nothing is held back. -/
structure Passing (t : State) : Prop where
  running : t.status = .running
  inside : 0 < t.skipDepth
  start : t.pendingStart = none
  text : t.pendingText = ""

/-- So many elements deeper in what is skipped, below these open elements. -/
def State.deeper (k : Nat) (os : List QName) (t : State) : State :=
  { t with skipDepth := t.skipDepth + k, inputOpen := os }

/-- Below an element that is passed over in a state, further elements are open, and as soon as what
is held back is given out nothing but their names and their number is left of them. -/
structure Below (env : Environment) (t : State) (names : List QName) (x : State) : Prop where
  running : x.status = .running
  opened : x.inputOpen = names ++ t.inputOpen
  flushed : ∀ (text : String) (os : List QName) (closing : Bool),
    WorksOff env [.flush closing] { x with pendingText := text, inputOpen := os }
      (t.deeper names.length os)

section
variable {env : Environment} {t x y : State} {name : QName} {as : List Attribute}
  {names os : List QName}

theorem Passing.deeper (h : Passing t) (k : Nat) (os : List QName) : Passing (t.deeper k os) where
  running := h.running
  inside := Nat.lt_of_lt_of_le h.inside (Nat.le_add_right _ _)
  start := h.start
  text := h.text

/-- A leaf of skipped content leaves no trace. -/
theorem Passing.worksOff_leaf (h : Passing t) {c : Content} (hc : c.isElement = false)
    (hasChildren : Bool) : WorksOff env [.meet c hasChildren] t t := by
  have hy : (Operation.meet env c hasChildren).Yields t [] _ :=
    Operation.yields_meet_inside h.inside
  rw [hc] at hy
  exact .cons hy (.nil t)

theorem Passing.worksOff_text (h : Passing t) (o : Option String) :
    WorksOff env (o.map fun s => Task.meet (.text s) false).toList t t := by
  cases o with
  | none => exact .nil t
  | some s => exact h.worksOff_leaf rfl false

/-- Text alone that is held back is dropped. -/
theorem Passing.worksOff_flush (h : Passing t) (text : String) (closing : Bool) :
    WorksOff env [.flush closing] { t with pendingText := text } t := by
  have hy : ((Task.flush closing).perform env).Yields { t with pendingText := text } _ _ :=
    Operation.yields_flush h.start rfl
  have hleft : { t with pendingStart := none, pendingText := "" } = t := by
    rw [← h.start, ← h.text]
  refine (worksOff_singleton hy).mpr ?_
  rw [hleft]
  exact h.worksOff_text _

/-- A start tag that is held back is met, and nobody cares for the text after it. -/
theorem Skips.worksOff_flush
    (h : Skips env name as { x with pendingStart := none, pendingText := "" } t)
    (hx : x.pendingStart = some (name, as)) (ht : Passing t) (text : String) (os : List QName)
    (closing : Bool) :
    WorksOff env [.flush closing] { x with pendingText := text, inputOpen := os }
      (t.withOpen os) := by
  have hy : ((Task.flush closing).perform env).Yields
      { x with pendingText := text, inputOpen := os } _ _ := Operation.yields_flush hx rfl
  refine (worksOff_singleton hy).mpr (worksOff_first.mpr ⟨t.withOpen os, ?_, ?_⟩)
  · refine (h.worksOff _).withOpen (fun u hu => ?_) os
    rw [List.mem_singleton.mp hu]
    rfl
  · exact (ht.deeper 0 os).worksOff_text _

/-! ### One input -/

theorem below_of_skips (h : Skips env name as { x with pendingStart := none, pendingText := "" } t)
    (hx : x.pendingStart = some (name, as)) (ht : Passing t) : Below env t [] x where
  running := by
    have hstatus : t.status = x.status := congrArg (·.1) h.intake_eq
    rw [← hstatus, ht.running]
  opened := by
    have hopen : t.inputOpen = x.inputOpen := congrArg (·.2.1) h.intake_eq
    rw [hopen, List.nil_append]
  flushed text os closing := h.worksOff_flush hx ht text os closing

theorem Passing.below (ht : Passing t) (names : List QName) :
    Below env t names (t.deeper names.length (names ++ t.inputOpen)) where
  running := ht.running
  opened := rfl
  flushed text os closing := (ht.deeper names.length os).worksOff_flush text closing

theorem Below.text (h : Below env t names x) (text : String) :
    Below env t names { x with pendingText := text } where
  running := h.running
  opened := h.opened
  flushed := h.flushed

theorem Below.worksOff_flush (h : Below env t names x) (closing : Bool) :
    WorksOff env [.flush closing] x (t.deeper names.length x.inputOpen) :=
  h.flushed x.pendingText x.inputOpen closing

/-- A comment or an instruction. -/
theorem Below.worksOff_leaf (h : Below env t names x) (ht : Passing t) {c : Content}
    (hc : c.isElement = false) :
    WorksOff env [.flush false, .meet c false] x (t.deeper names.length x.inputOpen) :=
  worksOff_first.mpr ⟨_, h.worksOff_flush false, (ht.deeper _ _).worksOff_leaf hc false⟩

theorem Below.worksOff_opening (h : Below env t names x) (ht : Passing t) (name : QName)
    (as : List Attribute) : ∃ y, WorksOff env [.flush false, .hold name as] x y ∧
      Below env t (name :: names) y := by
  generalize hz : t.deeper names.length (name :: x.inputOpen) = z
  have hpassing : Passing z := hz ▸ ht.deeper _ _
  refine ⟨{ z with pendingStart := some (name, as) }, ?_, ?_⟩
  · have hy : ((Task.hold name as).perform env).Yields (t.deeper names.length x.inputOpen) []
        { z with pendingStart := some (name, as) } := by
      refine Operation.yields_bind.mpr ⟨⟨⟩, _, Operation.yields_hold.mpr rfl, ?_⟩
      exact Operation.yields_pure.mpr ⟨rfl, hz ▸ rfl⟩
    exact worksOff_first.mpr ⟨_, h.worksOff_flush false, .cons hy (.nil _)⟩
  · have hleft : { z with pendingStart := none, pendingText := "" } = z := by
      rw [← hpassing.start, ← hpassing.text]
    have hskips : Skips env name as { z with pendingStart := none, pendingText := "" }
        (t.deeper (name :: names).length (name :: x.inputOpen)) := by
      rw [hleft, ← hz]
      exact .inside (ht.deeper _ _).inside
    constructor
    · exact hpassing.running
    · rw [List.cons_append, ← h.opened, ← hz]
      rfl
    · intro text os closing
      exact Skips.worksOff_flush (x := { z with pendingStart := some (name, as) }) hskips rfl
        (ht.deeper _ _) text os closing

/-- The end tag of the innermost open element. -/
theorem Below.worksOff_closing (h : Below env t names x) (ht : Passing t) {o m : QName}
    (ho : x.inputOpen = o :: os) (hsame : o.same m) :
    WorksOff env [.checkEnd m, .flush true, .leave] x
      { t.deeper names.length os with skipDepth := t.skipDepth + names.length - 1 } := by
  have hcheck : ((Task.checkEnd m).perform env).Yields x [] { x with inputOpen := os } :=
    Operation.yields_bind.mpr ⟨⟨⟩, _, Operation.yields_checkEnd ho hsame,
      Operation.yields_pure.mpr ⟨rfl, rfl⟩⟩
  have hleave : (Task.leave.perform env).Yields (t.deeper names.length os) [] _ :=
    Operation.yields_leave_inside (ht.deeper names.length os).inside
  have hflush := h.flushed x.pendingText os true
  exact .cons hcheck (worksOff_first.mpr ⟨_, hflush, .cons hleave (.nil _)⟩)

/-! ### Content as a whole -/

/-- Balanced content comes to its end, and then nothing more is open than before. -/
theorem Below.takesIn (h : Below env t names x) (ht : Passing t) {inner : List Input}
    (hb : Input.Balanced names inner) : ∃ y, TakesIn env inner x y ∧ Below env t [] y := by
  induction inner generalizing names x with
  | nil =>
    rw [Input.Balanced] at hb
    exact ⟨x, .nil x, hb ▸ h⟩
  | cons i is ih =>
    have accepted : ∀ j : Input, j.refusal? .notStarted = some .notStarted →
        j.refusal? x.status = none := by
      intro j hj
      rw [h.running]
      cases j <;> first | rfl | cases hj
    have settled : Below env t names (t.deeper names.length x.inputOpen) :=
      h.opened ▸ ht.below names
    cases i with
    | startDocument | endDocument | parameter => exact hb.elim
    | characters text =>
      obtain ⟨y, hy, hbelow⟩ := ih (h.text (x.pendingText ++ text)) hb
      exact ⟨y, .cons (accepted _ rfl) (.nil _) hy, hbelow⟩
    | comment text | instruction target data =>
      obtain ⟨y, hy, hbelow⟩ := ih settled hb
      exact ⟨y, .cons (accepted _ rfl) (h.worksOff_leaf ht rfl) hy, hbelow⟩
    | opening name as =>
      obtain ⟨x₁, hw, h₁⟩ := h.worksOff_opening ht name as
      obtain ⟨y, hy, hbelow⟩ := ih h₁ hb
      exact ⟨y, .cons (accepted _ rfl) hw hy, hbelow⟩
    | closing m =>
      obtain ⟨o, rest, rfl, hsame, hb⟩ := hb
      have hw := h.worksOff_closing ht h.opened hsame
      obtain ⟨y, hy, hbelow⟩ := ih (ht.below rest) hb
      exact ⟨y, .cons (accepted _ rfl) hw hy, hbelow⟩

/-- The end tag of the element itself takes the last trace away. -/
theorem Below.takesIn_closing (h : Below env t [] x) (ht : Passing t) {o m : QName}
    (ho : t.inputOpen = o :: os) (hsame : o.same m) :
    TakesIn env [.closing m] x { t with skipDepth := t.skipDepth - 1, inputOpen := os } := by
  have hopen : x.inputOpen = o :: os := h.opened.trans ho
  have haccepted : Input.refusal? x.status (.closing m) = none := by
    rw [h.running]
    rfl
  exact .cons haccepted (h.worksOff_closing ht hopen hsame) (.nil _)

end

/-! ## What the run can tell -/

section
variable {env : Environment} {name m : QName} {as : List Attribute} {s s' t : State}
  {pre inner is : List Input}

/-- After a start tag it is held back. -/
theorem holds_of_takesIn (h : TakesIn env (pre ++ [.opening name as]) s s') :
    s'.status = .running ∧ s'.pendingStart = some (name, as) := by
  obtain ⟨s₁, -, h⟩ := takesIn_append.mp h
  cases h with
  | @cons _ _ _ s₃ _ ha hw h =>
    cases h
    have hrunning : s₁.status = .running := Input.running_of_accepted rfl ha
    obtain ⟨s₂, hflush, hhold⟩ := worksOff_first.mp hw
    obtain ⟨new, s₄, hy, hrest⟩ := worksOff_cons.mp hhold
    obtain ⟨_, _, hh, hp⟩ := Operation.yields_bind.mp hy
    obtain ⟨rfl, rfl⟩ := Operation.yields_pure.mp hp
    obtain rfl := Operation.yields_hold.mp hh
    obtain rfl := worksOff_nil.mp hrest
    exact ⟨hflush.status_eq.trans hrunning, rfl⟩

/-- An end tag that is accepted fits the innermost open element. -/
theorem same_of_takesIn (h : TakesIn env (.closing m :: is) s s') :
    ∃ o os, s.inputOpen = o :: os ∧ o.same m := by
  cases h with
  | cons _ hw _ =>
    obtain ⟨new, s₁, hy, -⟩ := worksOff_cons.mp hw
    have hturn : Turn env (.checkEnd m) s.inputSide new s₁.inputSide := Turn.of_yields hy
    generalize hx : s.inputSide = x, s₁.inputSide = x₁ at hturn
    cases hturn with
    | checkEnd ho hsame =>
      rw [← hx] at ho
      exact ⟨_, _, ho, hsame⟩

/-- An element that is passed over is passed over with any balanced content. -/
theorem Skips.takesIn
    (h : Skips env name as { s with pendingStart := none, pendingText := "" } t)
    (hs : s.status = .running ∧ s.pendingStart = some (name, as))
    (hb : Input.Balanced [] inner) :
    Passing t ∧ ∃ y, TakesIn env inner s y ∧ Below env t [] y := by
  have hintake := h.intake_eq
  simp only [State.intake, Prod.mk.injEq] at hintake
  obtain ⟨hstatus, -, hdepth, hstart, htext⟩ := hintake
  have ht : Passing t := ⟨hstatus.trans hs.1, by omega, hstart, htext⟩
  exact ⟨ht, (below_of_skips h hs.2 ht).takesIn ht hb⟩

end

/-- Two documents that differ only in the content of an element that is passed over lead to the same
state after its end tag. If the one is processed to its end so is the other, with the same record and
in the same state. -/
theorem skipped_content_is_invisible (env : Environment) {pre inner inner' post : List Input}
    {name m : QName} {as : List Attribute} {fuel : Nat} {s s' t : State}
    (hpre : (State.initial env.program).receiveAll env fuel (pre ++ [.opening name as]) =
      (.completed, s))
    (hskip : Skips env name as { s with pendingStart := none, pendingText := "" } t)
    (hb : Input.Balanced [] inner) (hb' : Input.Balanced [] inner')
    (hrun : (State.initial env.program).receiveAll env fuel
      (pre ++ [.opening name as] ++ inner ++ [.closing m] ++ post) = (.completed, s')) :
    ∃ x least, ∀ fuel', least ≤ fuel' →
      (State.initial env.program).receiveAll env fuel'
          (pre ++ [.opening name as] ++ inner ++ [.closing m]) = (.completed, x) ∧
        (State.initial env.program).receiveAll env fuel'
          (pre ++ [.opening name as] ++ inner' ++ [.closing m]) = (.completed, x) ∧
        (State.initial env.program).receiveAll env fuel'
          (pre ++ [.opening name as] ++ inner' ++ [.closing m] ++ post) = (.completed, s') := by
  have hopening := takesIn_of_receiveAll hpre
  have hs := holds_of_takesIn hopening
  obtain ⟨ht, y, hinner, hbelow⟩ := hskip.takesIn hs hb
  obtain ⟨-, y', hinner', hbelow'⟩ := hskip.takesIn hs hb'
  -- what the first run shows of the end tag and of what follows
  obtain ⟨x, hx, hpost⟩ := takesIn_append.mp (takesIn_of_receiveAll hrun)
  obtain ⟨y₁, hbefore, hend⟩ := takesIn_append.mp hx
  obtain rfl := (takesIn_append.mpr ⟨s, hopening, hinner⟩).deterministic hbefore
  obtain ⟨o, os, hopen, hsame⟩ := same_of_takesIn hend
  have hopen' : t.inputOpen = o :: os := by
    rw [← hopen, hbelow.opened, List.nil_append]
  obtain rfl := (hbelow.takesIn_closing ht hopen' hsame).deterministic hend
  -- the second run comes to the same
  have hx' := takesIn_append.mpr ⟨y', takesIn_append.mpr ⟨s, hopening, hinner'⟩,
    hbelow'.takesIn_closing ht hopen' hsame⟩
  obtain ⟨least₁, hleast₁⟩ := hx.receiveAll
  obtain ⟨least₂, hleast₂⟩ := hx'.receiveAll
  obtain ⟨least₃, hleast₃⟩ := (takesIn_append.mpr ⟨_, hx', hpost⟩).receiveAll
  refine ⟨{ t with skipDepth := t.skipDepth - 1, inputOpen := os }, least₁ + least₂ + least₃,
    fun fuel' hfuel => ?_⟩
  exact ⟨hleast₁ fuel' (by omega), hleast₂ fuel' (by omega), hleast₃ fuel' (by omega)⟩

/-- One template, for the root, that asks for nothing. -/
def silentProgram : Program where
  code := #[⟨.body, ⟨1, 1⟩, some 1⟩, ⟨.closing 0, ⟨1, 1⟩, none⟩]
  templates := #[⟨⟨true, []⟩, "/", 0, .group, false, 0, ⟨1, 1⟩, 0⟩]
  procedures := #[]
  groups := #[{ (default : Group) with
    templates := [0], candidates := [0], ancestry := [Program.rootGroup] }]
  globals := []

def silent : Environment := ⟨silentProgram, {}, .plain fun _ => none⟩

/-- An empty element that is passed over might as well have content. -/
theorem skipped_content_is_invisible_nested : ∃ x s' least, ∀ fuel, least ≤ fuel →
    (State.initial silentProgram).receiveAll silent fuel
        [.startDocument, .opening (.simple "a") [], .closing (.simple "a")] = (.completed, x) ∧
      (State.initial silentProgram).receiveAll silent fuel
        [.startDocument, .opening (.simple "a") [], .characters "x", .opening (.simple "b") [],
          .closing (.simple "b"), .closing (.simple "a")] = (.completed, x) ∧
      (State.initial silentProgram).receiveAll silent fuel
        [.startDocument, .opening (.simple "a") [], .characters "x", .opening (.simple "b") [],
          .closing (.simple "b"), .closing (.simple "a"), .endDocument] = (.completed, s') := by
  have hpre : (State.initial silentProgram).receiveAll silent 20
      ([.startDocument] ++ [.opening (.simple "a") []]) = (.completed, _) := rfl
  have hrun : (State.initial silentProgram).receiveAll silent 20
      ([.startDocument] ++ [.opening (.simple "a") []] ++ [] ++ [.closing (.simple "a")] ++
        [.endDocument]) = (.completed, _) := rfl
  have hempty : Input.Balanced [] [] := rfl
  have hb : Input.Balanced [] [.characters "x", .opening (.simple "b") [],
      .closing (.simple "b")] := ⟨_, _, rfl, rfl, rfl⟩
  obtain ⟨x, least, h⟩ := skipped_content_is_invisible silent hpre
    (.unrequested rfl rfl rfl (by exact .nil _)) hempty hb hrun
  exact ⟨x, _, least, h⟩

end StreamTransform
