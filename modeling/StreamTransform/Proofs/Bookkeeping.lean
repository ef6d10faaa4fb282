import StreamTransform.Proofs.Continuation
import StreamTransform.Proofs.Run

/-!
# Open nodes and open elements

An element of the input that was met is a node on the stack or belongs to
content that is skipped; one that was not met yet is the start tag held back.
So the nodes exceed the open elements by the root alone, up to what the agenda
is about to open or to close. `Sound` collects this with the shape of the agenda
and holds at every moment of a run.
-/

namespace StreamTransform

/-- By how much a task changes the number of nodes beyond the open elements of the input. -/
def Task.balance : Task → Int
  | .begin | .checkEnd _ => 1
  | .conclude | .leave | .close _ | .unwind _ => -1
  | .meet c _ => if c.isElement then 1 else 0
  | .offer e _ => if e.content.isElement then 1 else 0
  | .endOutput | .flush _ | .hold .. | .dispatch .. | .enterGroup _ | .run _ | .attributes ..
  | .selfDone _ => 0

def agendaBalance : List Task → Int
  | [] => 0
  | t :: ts => t.balance + agendaBalance ts

@[simp] theorem agendaBalance_nil : agendaBalance [] = 0 := rfl

@[simp] theorem agendaBalance_cons (t : Task) (ts : List Task) :
    agendaBalance (t :: ts) = t.balance + agendaBalance ts := rfl

@[simp] theorem agendaBalance_append (ts us : List Task) :
    agendaBalance (ts ++ us) = agendaBalance ts + agendaBalance us := by
  induction ts with
  | nil => simp
  | cons t ts ih => simp [ih, Int.add_assoc]

theorem agendaBalance_map_enterGroup (gs : List GroupId) :
    agendaBalance (gs.map Task.enterGroup) = 0 := by
  induction gs with
  | nil => rfl
  | cons g gs ih => simpa [Task.balance] using ih

/-- The nodes, open or to come, beyond the open elements of the input. -/
def State.excess (s : State) : Int :=
  s.nodes.length + s.skipDepth + (if s.pendingStart.isSome then 1 else 0) - s.inputOpen.length

/-- The number of nodes only ever changes by what the agenda accounts for. -/
theorem Turn.balanced {env : Environment} {t : Task} {ts : List Task} {x x' : State}
    (h : Turn env t x ts x') (hoffer : ∀ e c, t = .offer e c → x.skipDepth = 0)
    (hhold : ∀ n as, t = .hold n as → x.pendingStart = none) :
    x'.excess + agendaBalance ts = x.excess + t.balance := by
  cases h with
  | begin =>
    simp only [State.excess, agendaBalance_append, agendaBalance_map_enterGroup, agendaBalance_cons,
      agendaBalance_nil, Task.balance, List.length_cons]
    omega
  | flush closing =>
    rcases hp : x.pendingStart with - | ⟨n, as⟩ <;> rcases x.heldText env with - | t <;>
      simp [State.excess, Task.balance, hp, Content.isElement] <;> omega
  | hold n as =>
    have hnone := hhold n as rfl
    simp only [State.excess, Task.balance, agendaBalance_nil, hnone, Option.isSome_some,
      Option.isSome_none, if_true, Bool.false_eq_true, if_false, List.length_cons]
    omega
  | checkEnd ho =>
    simp only [State.excess, ho, List.length_cons, agendaBalance_nil, Task.balance]
    omega
  | leaveSkipped hs => simp only [State.excess, agendaBalance_nil, Task.balance]; omega
  | meetSkipped hs =>
    simp only [State.excess, agendaBalance_nil, Task.balance]
    split <;> omega
  | meet hs hn => simp [State.excess, Task.balance, hn, Event.register, Event.met]
  | @offerOpened _ e hasChildren n ns g hn =>
    by_cases he : e.content.isElement <;> simp [State.excess, Task.balance, hn, he] <;> omega
  | offerDeclined hn hw =>
    simp only [State.excess, hn, Task.balance, agendaBalance_cons, agendaBalance_nil,
      List.length_cons]
    omega
  | @offerSkipped _ e hasChildren n ns hn hw hchildren =>
    have hs := hoffer e hasChildren rfl
    simp only [State.excess, agendaBalance_nil, Task.balance, hs]
    split <;> omega
  | @dispatchTemplate _ _ _ _ _ t position ht =>
    cases t.entered? <;> simp [State.excess, Task.balance]
  | attributes =>
    simp only [State.excess, Task.balance, agendaBalance_cons, agendaBalance_nil, List.length_cons]
    omega
  | closeWaits hn hw =>
    simp only [State.excess, hn, Task.balance, agendaBalance_cons, agendaBalance_nil,
      List.length_cons]
    omega
  | unwindPopped hn hout =>
    simp only [State.excess, hn, Task.balance, agendaBalance_nil, length_handOn, List.length_cons]
    omega
  | dispatchBuiltIn copied hn => simp [State.excess, hn, Task.balance]
  | runChildren fs g hn ha => simp [State.excess, hn, Task.balance]
  | runSiblings fs r hn ha => simp [State.excess, hn, Task.balance]
  | runSelf fs g exclude hn ha => simp [State.excess, hn, Task.balance]
  | selfResumed hn ha => simp [State.excess, hn, Task.balance]
  | unwindResumed hn ha hout hrole => simp [State.excess, hn, Task.balance]
  | unwindBuiltIn hn ha hout hrole => simp [State.excess, hn, Task.balance]
  | _ => simp [Task.balance]

/-! ## The shape of the agenda -/

theorem orderly_enterGroups {gs : List GroupId} {ts : List Task} {ns : List OpenNode}
    (hc : Clear ns) (h : Orderly true ts ns) :
    Orderly true (gs.map Task.enterGroup ++ ts) ns := by
  induction gs with
  | nil => exact h
  | cons g gs ih => exact .enterGroup g hc ih

/-- One step keeps the shape of the agenda; an element may only be closed above the root. -/
theorem Turn.orderly {env : Environment} {t : Task} {ts rest : List Task} {x x' : State}
    (h : Turn env t x ts x') (ho : Orderly true (t :: rest) x.nodes)
    (hleave : t = .leave → x.skipDepth = 0 → 2 ≤ x.nodes.length) :
    Orderly true (ts ++ rest) x'.nodes := by
  cases h with
  | begin =>
    cases ho.of_input rfl
    rw [List.append_nil]
    exact orderly_enterGroups (clear_cons.mpr rfl)
      (.dispatch _ _ _ (clear_cons.mpr rfl) (.outer .nil))
  | conclude _ =>
    cases ho.of_input rfl
    exact .outer (.flush false .final)
  | endOutput =>
    cases ho.of_input rfl
    exact .outer .nil
  | flush closing =>
    cases ho.of_input rfl with
    | flush closing hr => exact .outer (hr.flushed x closing)
  | hold n as =>
    cases ho.of_input rfl
    exact .outer .nil
  | checkEnd _ _ =>
    cases ho.of_input rfl
    exact .outer (.flush true .leave)
  | leaveSkipped _ =>
    cases ho.of_input rfl
    exact .outer .nil
  | leave hs =>
    cases ho.of_input rfl
    exact .close .sibling (fun _ => ⟨hleave rfl hs, .nil⟩) (.outer .nil)
  | meetSkipped _ =>
    cases ho.of_input rfl with
    | meet c hasChildren hr => exact .outer hr
  | meet _ _ =>
    cases ho.of_input rfl with
    | meet c hasChildren hr => exact .offer _ _ hr
  | @offerOpened _ e hasChildren n ns g hn =>
    have hr := ho.of_offer
    refine .dispatch _ _ _ (clear_cons.mpr rfl) ?_
    split
    · exact .outer hr
    · exact .close .sibling (fun _ => ⟨by simp, hr⟩) (.outer hr)
  | offerDeclined hn hw =>
    exact .close .restored (by simp) (.offer _ _ ho.of_offer)
  | offerSkipped hn hw hchildren => exact .outer ho.of_offer
  | @dispatchTemplate _ _ _ _ _ t position ht =>
    obtain ⟨hc, hr⟩ := ho.of_dispatch
    cases t.entered? with
    | none => exact .run _ hc hr
    | some g => exact .enterGroup g hc (.run _ hc hr)
  | dispatchNothing => exact ho.of_dispatch.2.weaken
  | dispatchBuiltIn copied hn =>
    rw [hn] at ho
    exact ho.of_dispatch.2.weaken.congr rfl
  | enterGroupAlone => exact ho.of_enterGroup.2
  | enterGroup passed hb =>
    obtain ⟨hc, hr⟩ := ho.of_enterGroup
    exact .run _ hc hr
  | runEnded ha => exact ho.of_run.2.toRunning
  | runOn fs =>
    obtain ⟨hc, hr⟩ := ho.of_run
    exact .run _ hc hr
  | runAttributes fs g hn =>
    obtain ⟨hc, hr⟩ := ho.of_run
    exact .attributes _ _ hc (.run _ hc hr)
  | @runChildren _ a n ns fs _ hn ha | @runSiblings _ a n ns fs _ hn ha =>
    rw [hn] at ho
    obtain ⟨hc, hr⟩ := ho.of_run
    exact (ha ▸ hr).weaken.congr rfl
  | runSelf fs g exclude hn ha =>
    rw [hn] at ho
    obtain ⟨hc, hr⟩ := ho.of_run
    have hw := clear_cons.mp hc
    have hr' : Orderly false rest _ := ha ▸ hr
    exact .dispatch _ _ _ (clear_cons.mpr hw) (.selfDone _ (clear_cons.mpr hw) (hr'.congr rfl))
  | attributesDone => exact ho.of_attributes.2
  | attributes =>
    obtain ⟨hc, hr⟩ := ho.of_attributes
    exact .dispatch _ _ _ (clear_cons.mpr rfl)
      (.close .final (by simp) (.attributes _ _ hc hr))
  | selfResumed hn ha =>
    rw [hn] at ho
    obtain ⟨hc, hr⟩ := ho.of_selfDone
    have hw := clear_cons.mp hc
    exact .run _ (clear_cons.mpr hw) (hr.weaken.congr rfl)
  | selfWaits => exact ho.of_selfDone.2.weaken
  | closeWaits hn hw =>
    rw [hn] at ho
    obtain ⟨hm, hr⟩ := ho.of_close
    exact .close .restored (by simp) (.close _ (by simpa using hm) hr)
  | closeClear hc =>
    obtain ⟨hm, hr⟩ := ho.of_close
    exact .unwind _ hc hm hr
  | @unwindPopped _ mode n ns hn hout =>
    rw [hn] at ho
    obtain ⟨hc, hm, hr⟩ := ho.of_unwind
    cases ha : n.activations with
    | nil => simpa [handOn_of_nil ha] using hr
    | cons a r =>
      have hsibling : mode = .sibling := by
        have := hout a r ha
        simp [Operation.outlives] at this
        exact this.1
      exact .outer (hm hsibling).2
  | unwindResumed hn ha hout hrole =>
    rw [hn] at ho
    obtain ⟨hc, hm, hr⟩ := ho.of_unwind
    have hw := clear_cons.mp hc
    exact .run _ (clear_cons.mpr hw) (.unwind _ (clear_cons.mpr hw) (by simpa using hm) hr)
  | unwindBuiltIn hn ha hout hrole =>
    rw [hn] at ho
    obtain ⟨hc, hm, hr⟩ := ho.of_unwind
    have hw := clear_cons.mp hc
    exact .unwind _ (clear_cons.mpr hw) (by simpa using hm) hr

/-! ## Sound moments -/

/-- Tasks that only an input itself gives rise to. -/
def Task.isInput : Task → Bool
  | .begin | .conclude | .hold .. | .checkEnd _ | .leave => true
  | .endOutput | .flush _ | .meet .. | .offer .. | .dispatch .. | .enterGroup _ | .run _
  | .attributes .. | .selfDone _ | .close _ | .unwind _ => false

/-- Tasks before which a start tag may be held back. -/
def Task.releases : Task → Bool
  | .flush _ | .checkEnd _ | .conclude => true
  | .begin | .endOutput | .hold .. | .leave | .meet .. | .offer .. | .dispatch .. | .enterGroup _
  | .run _ | .attributes .. | .selfDone _ | .close _ | .unwind _ => false

/-- A state that has seen nothing of a document. -/
structure State.Unstarted (s : State) : Prop where
  nodes : s.nodes = []
  inputOpen : s.inputOpen = []
  skipDepth : s.skipDepth = 0
  pendingStart : s.pendingStart = none

structure Sound (m : Moment) : Prop where
  orderly : Orderly true m.agenda m.state.nodes
  balanced : m.state.excess + agendaBalance m.agenda =
    if m.settled.status = .running then 1 else 0
  unskipped : ∀ e hasChildren, Task.offer e hasChildren ∈ m.agenda → m.state.skipDepth = 0
  released : m.state.pendingStart.isSome → ∀ t ∈ m.agenda.head?, t.releases
  origin : ∀ t ∈ m.agenda, t.isInput → t ∈ m.input.tasks
  alone : .begin ∈ m.agenda → m.agenda = [.begin]
  started : m.agenda ≠ [] → m.state.status = .running
  ended : m.input = .endDocument → .conclude ∈ m.agenda ∨ m.state.inputOpen = []
  unstarted : m.state.status = .notStarted ∨ .begin ∈ m.agenda → m.state.Unstarted

section
variable {env : Environment} {t : Task} {ts rest : List Task} {x x' : State}

theorem Turn.status_eq (h : Turn env t x ts x') : x'.status = x.status := by
  cases h <;> rfl

theorem Turn.not_isInput (h : Turn env t x ts x') : ∀ u ∈ ts, u.isInput = false := by
  cases h with
  | begin =>
    intro u hu
    simp only [List.mem_append, List.mem_map, List.mem_singleton] at hu
    rcases hu with ⟨g, -, rfl⟩ | rfl <;> rfl
  | flush closing =>
    rcases x.pendingStart with - | p <;> rcases x.heldText env with - | u <;> simp [Task.isInput]
  | @dispatchTemplate _ _ _ _ _ t => cases t.entered? <;> simp [Task.isInput]
  | @offerOpened _ e => cases he : e.content.isElement <;> simp [Task.isInput]
  | _ => simp [Task.isInput]

theorem Outer.not_offer (h : Outer ts) (e : Event) (hasChildren : Bool) :
    Task.offer e hasChildren ∉ ts := by
  induction h with
  | flush closing _ ih => simpa using ih
  | meet c hasChildren _ ih => simpa using ih
  | _ => simp

/-- An offer is new only if nothing is being skipped. -/
theorem Turn.offer_mem (h : Turn env t x ts x') {e : Event} {hasChildren : Bool}
    (hm : Task.offer e hasChildren ∈ ts) : x.skipDepth = 0 ∨ t = .offer e hasChildren := by
  cases h with
  | begin => simp at hm
  | flush closing =>
    rcases hp : x.pendingStart with - | p <;> rcases ht : x.heldText env with - | u <;>
      simp [hp, ht] at hm
  | meet hs hn => exact .inl hs
  | offerDeclined hn hw =>
    right
    simpa [eq_comm] using hm
  | @offerOpened _ e => cases he : e.content.isElement <;> simp [he] at hm
  | @dispatchTemplate _ _ _ _ _ t => cases ht : t.entered? <;> simp [ht] at hm
  | _ => simp at hm

/-- What is skipped changes only when no offer is left. -/
theorem Turn.skipDepth_eq (h : Turn env t x ts x') (ho : Orderly true (t :: rest) x.nodes) :
    x'.skipDepth = x.skipDepth ∨ ∀ e hasChildren, Task.offer e hasChildren ∉ ts ++ rest := by
  cases h with
  | leaveSkipped hs =>
    cases ho.of_input rfl
    exact .inr (by simp)
  | meetSkipped hs =>
    cases ho.of_input rfl with
    | meet c hasChildren hr => exact .inr hr.not_offer
  | offerSkipped hn hw hchildren => exact .inr ho.of_offer.not_offer
  | _ => exact .inl rfl

theorem Turn.unskipped (h : Turn env t x ts x') (ho : Orderly true (t :: rest) x.nodes)
    (hs : ∀ e hasChildren, Task.offer e hasChildren ∈ t :: rest → x.skipDepth = 0) :
    ∀ e hasChildren, Task.offer e hasChildren ∈ ts ++ rest → x'.skipDepth = 0 := by
  intro e hasChildren hm
  rcases h.skipDepth_eq ho with heq | hnone
  · rw [heq]
    rcases List.mem_append.mp hm with hm | hm
    · rcases h.offer_mem hm with h₀ | rfl
      · exact h₀
      · exact hs e hasChildren List.mem_cons_self
    · exact hs e hasChildren (List.mem_cons_of_mem _ hm)
  · exact absurd hm (hnone e hasChildren)

/-- A start tag is held back only until the next task that concerns it. -/
theorem Turn.released (h : Turn env t x ts x') (ho : Orderly true (t :: rest) x.nodes)
    (hr : x.pendingStart.isSome → t.releases) :
    x'.pendingStart.isSome → ∀ u ∈ (ts ++ rest).head?, u.releases := by
  intro hp u hu
  cases h with
  | hold n as =>
    cases ho.of_input rfl
    simp at hu
  | flush closing => simp at hp
  | checkEnd _ _ =>
    cases ho.of_input rfl
    obtain rfl : Task.flush true = u := by simpa using hu
    rfl
  | conclude _ =>
    obtain rfl : Task.flush false = u := by simpa using hu
    rfl
  | _ => simp [hp, Task.releases] at hr

theorem Turn.inputOpen_eq_nil (h : Turn env t x ts x') (hx : x.inputOpen = [])
    (ht : ∀ n as, t ≠ .hold n as) : x'.inputOpen = [] := by
  cases h with
  | hold n as => exact absurd rfl (ht n as)
  | checkEnd ho hs => simp [hx] at ho
  | _ => exact hx

theorem Turn.inputOpen_of_conclude (h : Turn env .conclude x ts x') : x'.inputOpen = [] := by
  cases h with
  | conclude ho => exact ho

end

/-! ### Along a run -/

section
variable {env : Environment} {i : Input} {m m' : Moment}

theorem Input.outer_tasks (i : Input) : Outer i.tasks := by
  cases i with
  | startDocument => exact .begin
  | endDocument => exact .conclude
  | opening n as => exact .flush false (.hold n as)
  | closing n => exact .checkEnd n
  | comment s => exact .flush false (.meet _ _ .nil)
  | instruction t d => exact .flush false (.meet _ _ .nil)
  | characters s => exact .nil
  | parameter n v => exact .nil

@[simp] theorem Input.apply_nodes (i : Input) (s : State) : (i.apply s).nodes = s.nodes := by
  cases i <;> rfl

/-- The status between calls depends on the status and the input alone. -/
theorem Moment.settled_status_congr {ts ts' : List Task} {s s' : State} (h : s'.status = s.status) :
    (⟨i, ts', s'⟩ : Moment).settled.status = (⟨i, ts, s⟩ : Moment).settled.status := by
  cases i <;> first | rfl | exact h

theorem Sound.pendingStart_eq_none {t : Task} {rest : List Task} {s : State}
    (hm : Sound ⟨i, t :: rest, s⟩) (ht : t.releases = false) : s.pendingStart = none := by
  rw [← Option.not_isSome_iff_eq_none]
  intro hp
  have := hm.released hp t (by simp)
  simp [ht] at this

/-- An element that ends and was met has a node of its own above the root. -/
theorem Sound.two_le_of_leave {rest : List Task} {s : State} (hm : Sound ⟨i, .leave :: rest, s⟩)
    (hs : s.skipDepth = 0) : 2 ≤ s.nodes.length := by
  have hnone := hm.pendingStart_eq_none rfl
  have hrunning : s.status = .running := hm.started (by simp)
  have hrest : rest = [] := by
    cases hm.orderly.of_input rfl
    rfl
  have hi : Task.leave ∈ i.tasks := hm.origin _ (by simp) rfl
  have hb := hm.balanced
  cases i with
  | closing n =>
    have hsettled : (⟨.closing n, .leave :: rest, s⟩ : Moment).settled.status = .running := hrunning
    rw [if_pos hsettled] at hb
    simp only [State.excess, hrest, hs, hnone, agendaBalance_cons, agendaBalance_nil,
      Task.balance] at hb
    simp at hb
    omega
  | _ => simp [Input.tasks] at hi

/-- The start of the document is over once it is performed. -/
theorem Sound.begin_notMem {t : Task} {ts rest : List Task} {s : State} {x x' : State}
    (hm : Sound ⟨i, t :: rest, s⟩) (h : Turn env t x ts x') : Task.begin ∉ ts ++ rest := by
  intro hb
  rcases List.mem_append.mp hb with hb | hb
  · simpa [Task.isInput] using h.not_isInput _ hb
  · have halone := hm.alone (List.mem_cons_of_mem _ hb)
    simp only [List.cons.injEq] at halone
    simp [halone.2] at hb

theorem Sound.turn {t : Task} {ts rest : List Task} {s s' : State} (hm : Sound ⟨i, t :: rest, s⟩)
    (h : Turn env t s.inputSide ts s'.inputSide) : Sound ⟨i, ts ++ rest, s'⟩ := by
  have hrunning : s.status = .running := hm.started (by simp)
  have hstatus : s'.status = .running := h.status_eq.trans hrunning
  have hbegin := hm.begin_notMem h
  have horigin : ∀ u ∈ ts ++ rest, u.isInput → u ∈ i.tasks := by
    intro u hu hui
    rcases List.mem_append.mp hu with hu | hu
    · simp [h.not_isInput u hu] at hui
    · exact hm.origin u (List.mem_cons_of_mem _ hu) hui
  have hbalanced := h.balanced
    (fun e c he => hm.unskipped e c (by simp [he]))
    (fun n as hh => hm.pendingStart_eq_none (by simp [hh, Task.releases]))
  refine ⟨h.orderly hm.orderly fun ht hs => ?_, ?_, h.unskipped hm.orderly hm.unskipped,
    h.released hm.orderly fun hp => hm.released hp t (by simp), horigin,
    fun hb => absurd hb hbegin, fun _ => hstatus, fun hi => ?_, ?_⟩
  · subst ht
    exact hm.two_le_of_leave hs
  · have hb := hm.balanced
    have hsettled : (⟨i, ts ++ rest, s'⟩ : Moment).settled.status =
        (⟨i, t :: rest, s⟩ : Moment).settled.status :=
      Moment.settled_status_congr (hstatus.trans hrunning.symm)
    rw [hsettled, ← hb]
    simp only [agendaBalance_append, agendaBalance_cons]
    have hside : ∀ s : State, s.inputSide.excess = s.excess := fun _ => rfl
    rw [hside, hside] at hbalanced
    omega
  · simp only at hi
    subst hi
    rcases hm.ended rfl with hc | hnil
    · rcases List.mem_cons.mp hc with rfl | hc
      · exact .inr h.inputOpen_of_conclude
      · exact .inl (List.mem_append_right _ hc)
    · right
      refine h.inputOpen_eq_nil hnil fun n as hh => ?_
      have := hm.origin t (by simp) (by simp [hh, Task.isInput])
      simp [hh, Input.tasks] at this
  · rintro (hn | hb)
    · simp [hstatus] at hn
    · exact absurd hb hbegin

@[simp] theorem Input.excess_apply (i : Input) (s : State) : (i.apply s).excess = s.excess := by
  cases i <;> rfl

theorem State.Unstarted.apply {s : State} (h : s.Unstarted) (i : Input) :
    (i.apply s).Unstarted := by
  cases i <;> exact ⟨h.nodes, h.inputOpen, h.skipDepth, h.pendingStart⟩

/-- What holds between two calls is enough for the next one. -/
theorem sound_take {s : State} (ha : i.refusal? s.status = none)
    (hb : s.excess = if s.status = .running then 1 else 0)
    (hu : s.status = .notStarted → s.Unstarted) : Sound (.take i s) where
  orderly := .outer i.outer_tasks
  balanced := by
    change (i.apply s).excess + agendaBalance i.tasks = _
    rw [i.excess_apply, hb]
    cases i with
    | startDocument =>
      cases hs : s.status <;> simp [hs, Input.refusal?] at ha
      simp [Moment.take, Moment.settled, Input.statusAfter, Input.apply, Input.tasks, Task.balance]
    | parameter n v => exact Int.add_zero _
    | _ =>
      cases hs : s.status <;> simp [hs, Input.refusal?] at ha
      simp [hs, Moment.take, Moment.settled, Input.statusAfter, Input.apply, Input.tasks,
        Task.balance, Content.isElement]
  unskipped e hasChildren hm := absurd hm (i.outer_tasks.not_offer e hasChildren)
  released hp u hu' := by
    cases i with
    | startDocument =>
      cases hs : s.status <;> simp [hs, Input.refusal?] at ha
      have hnone := ((hu hs).apply .startDocument).pendingStart
      change (Input.startDocument.apply s).pendingStart.isSome at hp
      simp [hnone] at hp
    | _ =>
      simp [Moment.take, Input.tasks] at hu'
      try subst hu'; rfl
  origin u hm _ := hm
  alone hm := by cases i <;> simp_all [Moment.take, Input.tasks]
  started hne := by
    cases i with
    | startDocument => rfl
    | parameter n v => simp [Moment.take, Input.tasks] at hne
    | _ =>
      cases hs : s.status <;> simp [hs, Input.refusal?] at ha
      exact hs
  ended hi := by
    obtain rfl : i = .endDocument := hi
    exact .inl (by simp [Moment.take, Input.tasks])
  unstarted h := by
    refine State.Unstarted.apply (hu ?_) i
    cases i with
    | startDocument => cases hs : s.status <;> simp_all [Input.refusal?]
    | parameter n v => simpa [Moment.take, Input.tasks, Input.apply] using h
    | _ => cases hs : s.status <;> simp_all [Input.refusal?, Moment.take, Input.tasks, Input.apply]

theorem Sound.call (hm : Sound m) (hd : m.agenda = []) (ha : i.refusal? m.settled.status = none) :
    Sound (.take i m.settled) := by
  have hb := hm.balanced
  rw [hd, agendaBalance_nil, Int.add_zero] at hb
  refine sound_take ha hb fun hn => ?_
  obtain ⟨j, agenda, s⟩ := m
  have hs : s.status = .notStarted := by
    cases j <;> first | exact hn | simp [Moment.settled, Input.statusAfter] at hn
  obtain ⟨h₁, h₂, h₃, h₄⟩ := hm.unstarted (.inl hs)
  exact ⟨h₁, h₂, h₃, h₄⟩

/-- Every moment of a run is sound. -/
theorem sound_of_reached (h : Reached env m) : Sound m := by
  induction h with
  | first i ha =>
    exact sound_take ha rfl fun _ => ⟨rfl, rfl, rfl, rfl⟩
  | next _ hn ih =>
    cases hn with
    | task hy => exact ih.turn (.of_yields hy)
    | call i hd ha => exact ih.call hd ha

end

end StreamTransform
