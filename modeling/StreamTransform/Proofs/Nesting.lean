import StreamTransform.Proofs.Elements

/-!
# Tags nest whatever sinks refuse

Writes may come in any order, fitting or not, and a sink may refuse any call. An
element is open in its scope from the write of its start tag, but the sink is
called with the tag only when it is let go, and perhaps in vain. `Tracked` ties
the two together: what the calls on a sink leave open are the open elements of
its scope without the one held back. So no call ever closes what was not opened,
and a document ends only when nothing is open or held back.
-/

namespace StreamTransform

namespace Output

/-! ## Calls that nest -/

def Event.isTag : Event → Bool
  | .opening .. | .closing _ => true
  | .startDocument | .endDocument | .characters _ | .comment _ | .instruction .. | .startCdata
  | .endCdata => false

/-- Every end tag has the namespace and the local name of the start tag that it belongs to. What is
no tag may stand anywhere. -/
inductive Paired : List Event → Prop
  | nil : Paired []
  | other {e : Event} {es : List Event} : e.isTag = false → Paired es → Paired (e :: es)
  | element (attributes : List Attribute) {name last : QName} {content es : List Event} :
      name.same last → Paired content → Paired es →
      Paired (.opening name attributes :: content ++ .closing last :: es)

/-- Calls that leave elements open, the innermost first. -/
inductive Leaving : List Event → List QName → Prop
  | none {es : List Event} : Paired es → Leaving es []
  | element (attributes : List Attribute) (name : QName) {es content : List Event}
      {names : List QName} : Leaving es names → Paired content →
      Leaving (es ++ .opening name attributes :: content) (name :: names)

section
variable {es content : List Event} {names : List QName} {name last : QName} {e : Event}

theorem Paired.append (h : Paired es) (h' : Paired content) : Paired (es ++ content) := by
  induction h with
  | nil => exact h'
  | other he _ ih => exact .other he ih
  | element attributes hn hc _ _ ih =>
    rw [List.append_assoc]
    exact .element attributes hn hc ih

theorem Leaving.append (h : Leaving es names) (h' : Paired content) :
    Leaving (es ++ content) names := by
  cases h with
  | none h => exact .none (h.append h')
  | element attributes name h hc =>
    rw [List.append_assoc]
    exact .element attributes name h (hc.append h')

theorem Leaving.other (h : Leaving es names) (he : e.isTag = false) : Leaving (es ++ [e]) names :=
  h.append (.other he .nil)

theorem Leaving.opening (h : Leaving es names) (name : QName) (attributes : List Attribute) :
    Leaving (es ++ [.opening name attributes]) (name :: names) :=
  .element attributes name h .nil

theorem Leaving.closing (h : Leaving es (name :: names)) (hn : name.same last) :
    Leaving (es ++ [.closing last]) names := by
  cases h with
  | element attributes _ h hc =>
    rw [List.append_assoc]
    exact h.append (.element attributes hn hc .nil)

theorem Leaving.paired (h : Leaving es []) : Paired es := by
  cases h with
  | none h => exact h

/-- The end tags of what is open complete the calls. -/
theorem Leaving.completed (h : Leaving es names) : Paired (es ++ names.map .closing) := by
  induction names generalizing es with
  | nil => simpa using h.paired
  | cons name names ih =>
    have hsame : name.same name := by simp [QName.same]
    simpa using ih (h.closing hsame)

end

end Output

open Output

/-- All calls made on a sink, in order, whether it refused them or not. -/
def Record.calls (r : Record) (d : Destination) : List Output.Event :=
  r.reverse.filterMap fun
    | .sent receiver e _ => if receiver = d then some e else none
    | _ => none

namespace Record

variable {r : Record} {d d' : Destination} {e : Output.Event} {refusal : Option Fault}

theorem calls_cons (h : Happening) (r : Record) (d : Destination) :
    calls (h :: r) d = calls r d ++ calls [h] d := by
  simp [calls, List.filterMap_append]

theorem calls_sent (r : Record) (d : Destination) (e : Output.Event) (refusal : Option Fault) :
    calls (.sent d e refusal :: r) d = calls r d ++ [e] := by
  rw [calls_cons]
  simp [calls]

theorem calls_sent_of_ne (hd : d ≠ d') : calls (.sent d e refusal :: r) d' = calls r d' := by
  rw [calls_cons]
  simp [calls, hd]

theorem calls_resolved (href : String) (refusal : Option Fault) (r : Record) (d : Destination) :
    calls (.resolved href refusal :: r) d = calls r d := by
  rw [calls_cons]
  simp [calls]

theorem calls_noted (n : Note) (r : Record) (d : Destination) :
    calls (.noted n :: r) d = calls r d := by
  rw [calls_cons]
  simp [calls]

theorem calls_reported (diagnostic : Diagnostic) (answer : Option Fault) (r : Record)
    (d : Destination) : calls (.reported diagnostic answer :: r) d = calls r d := by
  rw [calls_cons]
  simp [calls]

end Record

namespace Output

/-! ## What scopes know of the calls -/

/-- What the calls on every sink leave open, its scope knows. -/
structure Tracked (o : Outlet) : Prop where
  leaving : ∀ d, ∃ names, Leaving (o.record.calls d) names
  known : ∀ t ∈ o.scopes, ∀ d, t.destination? = some d → Leaving (o.record.calls d) t.delivered
  /-- What is held back is the start tag of the innermost element. -/
  held : ∀ t ∈ o.scopes, ∀ tag, t.pending = some tag → t.opened.head? = some tag.1
  distinct : (o.scopes.filterMap Scope.destination?).Nodup
  opened : ∀ t ∈ o.scopes, ∀ i, t.destination? = some (.document i) →
    i < o.record.documents.length
  uncalled : ∀ i, o.record.documents.length ≤ i → o.record.calls (.document i) = []
  ended : ∀ d before after, o.record.calls d = before ++ .endDocument :: after → Paired before

/-- The innermost scope writes to this sink, and has nothing open and nothing held back. -/
def Outlet.Idle (o : Outlet) (d : Destination) : Prop :=
  ∃ t r, o.scopes = t :: r ∧ t.destination? = some d ∧ t.opened = [] ∧ t.pending = none

/-- Calls were added, the end of a document only to a sink that was idle. -/
def Outlet.Continued (o o' : Outlet) : Prop :=
  ∀ d, ∃ new, o'.record.calls d = o.record.calls d ++ new ∧ (.endDocument ∈ new → o.Idle d)

section
variable {o o₁ o₂ : Outlet} {t t' : Scope} {r : List Scope} {d : Destination} {e : Event}
  {names : List QName} {refusal : Option Fault}

theorem tracked_initial : Tracked .initial := by
  constructor
  case held =>
    intro t ht tag htag
    obtain rfl := List.mem_singleton.mp ht
    cases htag
  case known =>
    intro t ht d _
    obtain rfl := List.mem_singleton.mp ht
    exact .none .nil
  case opened =>
    intro t ht i hi
    obtain rfl := List.mem_singleton.mp ht
    cases hi
  case leaving => exact fun d => ⟨[], .none .nil⟩
  case distinct => exact List.nodup_cons.mpr ⟨List.not_mem_nil, List.nodup_nil⟩
  case uncalled => exact fun _ _ => rfl
  case ended => exact fun d before after h => by simp [Outlet.initial, Record.calls] at h

theorem Outlet.Continued.refl (o : Outlet) : o.Continued o := fun _ => ⟨[], by simp, by simp⟩

theorem Outlet.Continued.trans (h : o.Continued o₁) (h' : o₁.Continued o₂)
    (hidle : ∀ d, o₁.Idle d → o.Idle d) : o.Continued o₂ := by
  intro d
  obtain ⟨new, hnew, hend⟩ := h d
  obtain ⟨more, hmore, hend'⟩ := h' d
  refine ⟨new ++ more, by rw [hmore, hnew, List.append_assoc], fun hmem => ?_⟩
  rcases List.mem_append.mp hmem with hmem | hmem
  · exact hend hmem
  · exact hidle d (hend' hmem)

theorem Outlet.continued_of_calls (h : ∀ d, o₁.record.calls d = o.record.calls d) :
    o.Continued o₁ := fun d => ⟨[], by simp [h d], by simp⟩

/-- One call was made. -/
theorem Outlet.continued_sent {scopes : List Scope} (hend : e = .endDocument → o.Idle d) :
    o.Continued ⟨scopes, .sent d e refusal :: o.record⟩ := by
  intro d'
  by_cases hd : d = d'
  · subst hd
    refine ⟨[e], Record.calls_sent _ _ _ _, fun hmem => hend ?_⟩
    exact (List.mem_singleton.mp hmem).symm
  · exact ⟨[], by rw [List.append_nil, Record.calls_sent_of_ne hd], by simp⟩

/-- A call on one sink leaves what the other sinks were called with. -/
theorem Tracked.ended_sent (h : Tracked o) (hend : e = .endDocument → Paired (o.record.calls d))
    (d' : Destination) (before after : List Event)
    (heq : Record.calls (.sent d e refusal :: o.record) d' = before ++ .endDocument :: after) :
    Paired before := by
  by_cases hd : d = d'
  · subst hd
    rw [Record.calls_sent] at heq
    rcases List.eq_nil_or_concat after with rfl | ⟨after, last, rfl⟩
    · obtain ⟨rfl, he⟩ := List.append_inj' heq rfl
      exact hend (List.singleton_inj.mp he)
    · rw [List.concat_eq_append, ← List.cons_append, ← List.append_assoc] at heq
      exact h.ended d before after (List.append_inj' heq rfl).1
  · rw [Record.calls_sent_of_ne hd] at heq
    exact h.ended d' before after heq

/-- A scope apart from the innermost one writes to another sink. -/
theorem Tracked.ne_of_mem (h : Tracked o) (ht : o.scopes = t :: r) (hd : t.destination? = some d)
    {u : Scope} (hu : u ∈ r) : u.destination? ≠ some d := by
  intro hd'
  have hdistinct := h.distinct
  rw [ht, List.filterMap_cons, hd] at hdistinct
  exact (List.nodup_cons.mp hdistinct).1 (List.mem_filterMap.mpr ⟨u, hu, hd'⟩)

/-- The innermost scope changes, and nothing is called. -/
theorem Tracked.changed (h : Tracked o) (ht : o.scopes = t :: r)
    (hdest : t'.destination? = t.destination?)
    (hdelivered : t.destination?.isSome → t'.delivered = t.delivered)
    (hheld : ∀ tag, t'.pending = some tag → t'.opened.head? = some tag.1) :
    Tracked { o with scopes := t' :: r } := by
  have hmem : t ∈ o.scopes := by simp [ht]
  have hrest : ∀ u ∈ r, u ∈ o.scopes := fun u hu => by simp [ht, hu]
  refine
    { leaving := h.leaving, known := ?known, held := ?held, distinct := ?distinct,
      opened := ?opened, uncalled := h.uncalled, ended := h.ended }
  case known =>
    refine List.forall_mem_cons.mpr ⟨fun d hd => ?_, fun u hu => h.known u (hrest u hu)⟩
    rw [hdest] at hd
    rw [hdelivered (by simp [hd])]
    exact h.known t hmem d hd
  case held => exact List.forall_mem_cons.mpr ⟨hheld, fun u hu => h.held u (hrest u hu)⟩
  case distinct =>
    have hdistinct := h.distinct
    rw [ht, List.filterMap_cons, ← hdest, ← List.filterMap_cons] at hdistinct
    exact hdistinct
  case opened =>
    refine List.forall_mem_cons.mpr ⟨fun i hi => ?_, fun u hu => h.opened u (hrest u hu)⟩
    exact h.opened t hmem i (hdest ▸ hi)

/-- The sink of the innermost scope is called. -/
theorem Tracked.sent (h : Tracked o) (ht : o.scopes = t :: r) (hd : t.destination? = some d)
    (hdest : t'.destination? = some d) (refusal : Option Fault)
    (hl : Leaving (o.record.calls d ++ [e]) t'.delivered)
    (hheld : ∀ tag, t'.pending = some tag → t'.opened.head? = some tag.1)
    (hend : e = .endDocument → Paired (o.record.calls d)) :
    Tracked ⟨t' :: r, .sent d e refusal :: o.record⟩ := by
  have hmem : t ∈ o.scopes := by simp [ht]
  have hrest : ∀ u ∈ r, u ∈ o.scopes := fun u hu => by simp [ht, hu]
  have hdocuments : Record.documents (.sent d e refusal :: o.record) = o.record.documents :=
    Record.documents_cons (by simp) _
  refine
    { leaving := ?leaving, known := ?known, held := ?held, distinct := ?distinct,
      opened := ?opened, uncalled := ?uncalled, ended := h.ended_sent hend }
  case leaving =>
    intro d'
    by_cases hne : d = d'
    · subst hne
      exact ⟨_, (Record.calls_sent _ _ _ _).symm ▸ hl⟩
    · rw [Record.calls_sent_of_ne hne]
      exact h.leaving d'
  case known =>
    refine List.forall_mem_cons.mpr ⟨fun d' hd' => ?_, fun u hu d' hd' => ?_⟩
    · obtain rfl := Option.some.inj (hdest.symm.trans hd')
      rw [Record.calls_sent]
      exact hl
    · have hne : d ≠ d' := by
        rintro rfl
        exact h.ne_of_mem ht hd hu hd'
      rw [Record.calls_sent_of_ne hne]
      exact h.known u (hrest u hu) d' hd'
  case held => exact List.forall_mem_cons.mpr ⟨hheld, fun u hu => h.held u (hrest u hu)⟩
  case distinct =>
    have hdistinct := h.distinct
    rw [ht, List.filterMap_cons, hd.trans hdest.symm, ← List.filterMap_cons] at hdistinct
    exact hdistinct
  case opened =>
    rw [hdocuments]
    refine List.forall_mem_cons.mpr ⟨fun i hi => ?_, fun u hu => h.opened u (hrest u hu)⟩
    exact h.opened t hmem i (hd.trans (hdest.symm.trans hi))
  case uncalled =>
    intro i hi
    rw [hdocuments] at hi
    have hne : d ≠ .document i := by
      rintro rfl
      exact absurd (h.opened t hmem i hd) (by omega)
    rw [Record.calls_sent_of_ne hne]
    exact h.uncalled i hi

/-- A sink is called that no scope writes to. -/
theorem Tracked.sentApart (h : Tracked o) (hd : ∀ t ∈ o.scopes, t.destination? ≠ some d)
    (hopened : ∀ i, d = .document i → i < o.record.documents.length) (refusal : Option Fault)
    (hl : Leaving (o.record.calls d ++ [e]) names)
    (hend : e = .endDocument → Paired (o.record.calls d)) :
    Tracked (o.after (.sent d e refusal)) := by
  have hdocuments : Record.documents (.sent d e refusal :: o.record) = o.record.documents :=
    Record.documents_cons (by simp) _
  refine
    { leaving := ?leaving, known := ?known, held := h.held, distinct := h.distinct,
      opened := ?opened, uncalled := ?uncalled, ended := h.ended_sent hend }
  case leaving =>
    intro d'
    by_cases hne : d = d'
    · subst hne
      exact ⟨_, (Record.calls_sent _ _ _ _).symm ▸ hl⟩
    · rw [Outlet.record_after, Record.calls_sent_of_ne hne]
      exact h.leaving d'
  case known =>
    intro t ht d' hd'
    have hne : d ≠ d' := by
      rintro rfl
      exact hd t ht hd'
    rw [Outlet.record_after, Record.calls_sent_of_ne hne]
    exact h.known t ht d' hd'
  case opened =>
    rw [Outlet.record_after, hdocuments]
    exact h.opened
  case uncalled =>
    rw [Outlet.record_after, hdocuments]
    intro i hi
    have hne : d ≠ .document i := by
      rintro rfl
      exact absurd (hopened i rfl) (by omega)
    rw [Record.calls_sent_of_ne hne]
    exact h.uncalled i hi

theorem Tracked.resolved (h : Tracked o) (href : String) (refusal : Option Fault) :
    Tracked (o.after (.resolved href refusal)) := by
  have hle := Record.length_documents_le (.resolved href refusal) o.record
  refine
    { leaving := ?leaving, known := ?known, held := h.held, distinct := h.distinct,
      opened := ?opened, uncalled := ?uncalled, ended := ?ended }
  case leaving => exact fun d => (Record.calls_resolved href refusal _ d).symm ▸ h.leaving d
  case known =>
    exact fun t ht d hd => (Record.calls_resolved href refusal _ d).symm ▸ h.known t ht d hd
  case opened => exact fun t ht i hi => Nat.lt_of_lt_of_le (h.opened t ht i hi) hle
  case uncalled =>
    intro i hi
    exact (Record.calls_resolved href refusal _ _).trans (h.uncalled i (Nat.le_trans hle hi))
  case ended =>
    intro d before after heq
    rw [Outlet.record_after, Record.calls_resolved] at heq
    exact h.ended d before after heq

/-- A scope that was not written to is opened, on no sink or on one that no scope writes to. -/
theorem Tracked.pushed (h : Tracked o) {target : Target} {owner : Nat}
    (hd : ∀ d, (Scope.fresh target (some owner)).destination? = some d →
      Leaving (o.record.calls d) [] ∧ (∀ t ∈ o.scopes, t.destination? ≠ some d) ∧
        ∀ i, d = .document i → i < o.record.documents.length) :
    Tracked { o with scopes := .fresh target (some owner) :: o.scopes } := by
  refine
    { leaving := h.leaving, known := ?known, held := ?held, distinct := ?distinct,
      opened := ?opened, uncalled := h.uncalled, ended := h.ended }
  case known => exact List.forall_mem_cons.mpr ⟨fun d hdest => (hd d hdest).1, h.known⟩
  case held => exact List.forall_mem_cons.mpr ⟨fun _ htag => (by cases htag), h.held⟩
  case distinct =>
    rw [List.filterMap_cons]
    split
    · exact h.distinct
    · rename_i d hdest
      refine List.nodup_cons.mpr ⟨fun hmem => ?_, h.distinct⟩
      obtain ⟨t, ht, htd⟩ := List.mem_filterMap.mp hmem
      exact (hd d hdest).2.1 t ht htd
  case opened =>
    exact List.forall_mem_cons.mpr ⟨fun i hdest => (hd _ hdest).2.2 i rfl, h.opened⟩

theorem Tracked.popped (h : Tracked o) (ht : o.scopes = t :: r) :
    Tracked { o with scopes := r } := by
  have hrest : ∀ u ∈ r, u ∈ o.scopes := fun u hu => by simp [ht, hu]
  refine
    { leaving := h.leaving, known := ?known, held := ?held, distinct := ?distinct,
      opened := ?opened, uncalled := h.uncalled, ended := h.ended }
  case known => exact fun u hu => h.known u (hrest u hu)
  case held => exact fun u hu => h.held u (hrest u hu)
  case distinct =>
    have hdistinct := h.distinct
    rw [ht] at hdistinct
    exact hdistinct.sublist ((List.sublist_cons_self t r).filterMap _)
  case opened => exact fun u hu => h.opened u (hrest u hu)

end

/-! ## Writes -/

namespace Writing

variable {α : Type} {s : Surroundings} {o o₁ : Outlet} {t t' : Scope} {r : List Scope}
  {d : Destination} {e : Event} {P : Outlet → Prop}

/-- A property of the outlet afterwards, whether a write succeeds or fails. -/
def Comes (w : Writing α) (o : Outlet) (P : Outlet → Prop) : Prop :=
  w.Ensures o (fun _ => P) fun _ => P

theorem comes_send (h : ∀ refusal, P (o.after (.sent d e refusal))) : (send s d e).Comes o P := by
  unfold Comes
  rw [ensures_send]
  split <;> exact h _

theorem comes_deliver_sink (ht : o.scopes = t :: r) (hd : t.target = .sink d)
    (h : ∀ refusal, P (o.after (.sent d e refusal))) : (deliver s e).Comes o P := by
  unfold Comes deliver
  rw [ensures_bind, ensures_top, ht]
  simp only [hd]
  exact comes_send h

/-- What a capture gets no sink is called with. -/
theorem comes_deliver_capture {c : TextSink} (ht : o.scopes = t :: r) (hc : t.target = .capture c)
    (h : P o) (htaken : ∀ c', P { o with scopes := { t with target := .capture c' } :: r }) :
    (deliver s e).Comes o P := by
  unfold Comes deliver
  rw [ensures_bind, ensures_top, ht]
  simp only [hc]
  split
  · exact h
  · rw [ensures_setTop, ht]
    exact htaken _

theorem comes_checkClosed (h : P o) : (checkClosed t).Comes o P := by
  unfold Comes
  rw [ensures_checkClosed]
  split <;> exact h

/-- What a write from an outlet may come to. -/
def Reaches (o o' : Outlet) : Prop := Tracked o' ∧ o.Continued o'

theorem reaches_refl (h : Tracked o) : Reaches o o := ⟨h, .refl o⟩

/-- The innermost scope changes, and its sink is not called. -/
theorem reaches_changed (h : Tracked o) (ht : o.scopes = t :: r)
    (hdest : t'.destination? = t.destination?)
    (hdelivered : t.destination?.isSome → t'.delivered = t.delivered)
    (hheld : ∀ tag, t'.pending = some tag → t'.opened.head? = some tag.1) :
    Reaches o { o with scopes := t' :: r } :=
  ⟨h.changed ht hdest hdelivered hheld, Outlet.continued_of_calls fun _ => rfl⟩

theorem reaches_captured (h : Tracked o) (ht : o.scopes = t :: r)
    (hd : t.destination? = none) (c' : TextSink) :
    Reaches o { o with scopes := { t with target := .capture c' } :: r } :=
  reaches_changed h ht hd.symm (fun hsome => by simp [hd] at hsome)
    fun tag htag => h.held t (by simp [ht]) tag htag

/-- A start tag that is held back belongs to an open element. -/
theorem opened_ne_nil (h : Tracked o) (ht : o.scopes = t :: r) {tag : QName × List Attribute}
    (htag : t.pending = some tag) : ∃ names, t.opened = tag.1 :: names := by
  have hhead := h.held t (by simp [ht]) tag htag
  cases hn : t.opened with
  | nil => simp [hn] at hhead
  | cons n names =>
    rw [hn, List.head?_cons] at hhead
    exact ⟨names, by rw [Option.some.inj hhead]⟩

/-- What the outlet is like once the start tag that was held back has left. -/
structure Flushed (o o₁ : Outlet) : Prop where
  tracked : Tracked o₁
  continued : o.Continued o₁
  idle : ∀ d, o₁.Idle d → o.Idle d
  none : ∀ t r, o₁.scopes = t :: r → t.pending = none

theorem comes_flush (h : Tracked o) : (flush s).Comes o (Flushed o) := by
  have empty : o.scopes = [] → Flushed o o := fun hn =>
    ⟨h, .refl o, fun _ => id, fun t r ht => by simp [hn] at ht⟩
  unfold Comes flush
  rw [ensures_bind, ensures_top]
  cases ht : o.scopes with
  | nil => exact empty ht
  | cons t r =>
    simp only
    cases hp : t.pending with
    | none =>
      refine ⟨h, .refl o, fun _ => id, fun t' r' ht' => ?_⟩
      obtain ⟨rfl, rfl⟩ := List.cons.inj (ht.symm.trans ht')
      exact hp
    | some tag =>
      obtain ⟨names, hnames⟩ := opened_ne_nil h ht hp
      have cleared : ∀ {scopes : List Scope} {t' : Scope}, scopes = t' :: r →
          t'.pending = none → ∀ t r, scopes = t :: r → t.pending = none := by
        intro scopes t' hs hn t r ht
        obtain ⟨rfl, -⟩ := List.cons.inj (hs.symm.trans ht)
        exact hn
      -- With an element open nothing is idle.
      have busy : ∀ {o₁ : Outlet} {t' : Scope}, o₁.scopes = t' :: r → t'.opened = t.opened →
          ∀ d, o₁.Idle d → o.Idle d := by
        rintro o₁ t' hs ho d ⟨u, us, hu, -, hnone, -⟩
        obtain ⟨rfl, -⟩ := List.cons.inj (hs.symm.trans hu)
        simp [ho, hnames] at hnone
      simp only [ensures_bind, ensures_setTop, ht, List.tail_cons]
      cases hd : t.target with
      | sink d =>
        have hdest : t.destination? = some d := Scope.destination?_eq.mpr hd
        have hknown := h.known t (by simp [ht]) d hdest
        rw [Scope.delivered, hp, hnames] at hknown
        refine comes_deliver_sink rfl rfl fun refusal => ⟨?_, ?_, busy rfl rfl, cleared rfl rfl⟩
        · refine h.sent ht hdest rfl refusal ?_ (by simp) (by simp)
          rw [Scope.delivered, hnames]
          exact hknown.opening _ _
        · exact Outlet.continued_sent (by simp)
      | capture c =>
        have hdest : t.destination? = none := by simp [Scope.destination?, hd]
        have changed : ∀ target, (∀ d, target ≠ .sink d) →
            Flushed o { o with scopes := { t with target := target, pending := none } :: r } := by
          intro target htarget
          have hnone :
              ({ t with target := target, pending := none } : Scope).destination? = none := by
            cases target with
            | sink d => exact absurd rfl (htarget d)
            | capture c => rfl
          obtain ⟨htracked, hcontinued⟩ := reaches_changed h ht (hnone.trans hdest.symm)
            (fun hsome => by simp [hdest] at hsome) (by simp)
          exact ⟨htracked, hcontinued, busy rfl rfl, cleared rfl rfl⟩
        exact comes_deliver_capture rfl rfl (changed (.capture c) (by simp)) fun c' =>
          changed (.capture c') (by simp)

/-- A write that goes on after the start tag has left. -/
theorem comes_after_flush {w : Writing α} (h : Tracked o)
    (hw : ∀ o₁, Flushed o o₁ → w.Comes o₁ (Reaches o₁)) :
    (do flush s; w : Writing α).Comes o (Reaches o) := by
  refine ensures_bind.mpr ((comes_flush h).mono (fun _ o₁ hf => ?_) fun _ o₁ hf =>
    ⟨hf.tracked, hf.continued⟩)
  have join : ∀ o₂, Reaches o₁ o₂ → Reaches o o₂ := fun o₂ h₂ =>
    ⟨h₂.1, hf.continued.trans h₂.2 hf.idle⟩
  exact (hw o₁ hf).mono (fun _ => join) fun _ => join

theorem comes_emit (h : Tracked o) (e : Event) : (emit s e).Comes o (Reaches o) := by
  refine comes_after_flush h fun o₁ hf => ?_
  have h₁ := hf.tracked
  have hrefl := reaches_refl h₁
  unfold Comes
  rw [ensures_bind, ensures_top]
  cases ht : o₁.scopes with
  | nil => exact hrefl
  | cons t r =>
    have hpending := hf.none t r ht
    simp only
    cases hd : t.target with
    | capture c =>
      have hdest : t.destination? = none := by simp [Scope.destination?, hd]
      have delivered : (deliver s e).Comes o₁ (Reaches o₁) :=
        comes_deliver_capture ht hd hrefl (reaches_captured h₁ ht hdest)
      cases e with
      | endDocument =>
        refine ensures_bind.mpr ((comes_checkClosed (t := t) rfl).mono ?_ ?_)
        · rintro _ _ rfl
          exact delivered
        · rintro _ _ rfl
          exact hrefl
      | _ => exact delivered
    | sink d =>
      have hdest : t.destination? = some d := Scope.destination?_eq.mpr hd
      have hknown := h₁.known t (by simp [ht]) d hdest
      have hopened : t.delivered = t.opened := by simp [Scope.delivered, hpending]
      have other : e.isTag = false → e ≠ .endDocument →
          (deliver s e).Comes o₁ (Reaches o₁) := by
        intro htag hend
        refine comes_deliver_sink ht hd fun refusal =>
          ⟨?_, Outlet.continued_sent fun h => absurd h hend⟩
        have hsent := h₁.sent ht hdest hdest refusal (hknown.other htag)
          (h₁.held t (by simp [ht])) fun h => absurd h hend
        rw [← ht] at hsent
        exact hsent
      cases e with
      | opening n as =>
        rw [ensures_setTop, ht]
        exact reaches_changed h₁ ht hdest.symm (fun _ => hopened.symm) (by simp)
      | closing n =>
        simp only
        split
        · rename_i n₀ names hnames
          split
          · rename_i hsame
            rw [hopened, hnames] at hknown
            simp only [ensures_bind, ensures_setTop, ht, List.tail_cons]
            refine comes_deliver_sink rfl rfl fun refusal => ⟨?_, Outlet.continued_sent (by simp)⟩
            refine h₁.sent ht hdest rfl refusal ?_ ?_ (by simp)
            · rw [Scope.delivered, hpending]
              exact hknown.closing hsame
            · simp [hpending]
          · exact hrefl
        · exact hrefl
      | endDocument =>
        rw [ensures_bind, ensures_checkClosed]
        split
        · exact hrefl
        · rename_i hnone
          rw [hopened, hnone] at hknown
          refine comes_deliver_sink ht hd fun refusal =>
            ⟨?_, Outlet.continued_sent fun _ => ⟨t, r, ht, hdest, hnone, hpending⟩⟩
          have hsent := h₁.sent ht hdest hdest refusal (e := .endDocument) ?_
            (h₁.held t (by simp [ht])) fun _ => hknown.paired
          · rw [← ht] at hsent
            exact hsent
          · rw [hopened, hnone]
            exact hknown.other rfl
      | _ => exact other rfl (by simp)

theorem comes_addAttribute (h : Tracked o) (a : Attribute) :
    (addAttribute a).Comes o (Reaches o) := by
  have hrefl := reaches_refl h
  unfold Comes addAttribute
  rw [ensures_bind, ensures_top]
  cases ht : o.scopes with
  | nil => exact hrefl
  | cons t r =>
    simp only
    cases hp : t.pending with
    | none => exact hrefl
    | some tag =>
      rw [ensures_setTop, ht]
      refine reaches_changed h ht rfl (fun _ => by simp [Scope.delivered, hp]) ?_
      intro tag' htag
      obtain rfl := Option.some.inj htag
      exact h.held t (by simp [ht]) tag hp

theorem comes_openCapture (h : Tracked o) (owner : Nat) (context : String) :
    (openCapture owner context).Comes o (Reaches o) := by
  unfold Comes openCapture
  rw [ensures_bind, ensures_get]
  split
  · exact reaches_refl h
  · rw [ensures_push]
    exact ⟨h.pushed fun d hd => (by cases hd), Outlet.continued_of_calls fun _ => rfl⟩

theorem comes_openDocument (h : Tracked o) (owner : Nat) (href : String) :
    (openDocument s owner href).Comes o (Reaches o) := by
  have asked : ∀ refusal, Reaches o (o.after (.resolved href refusal)) := fun refusal =>
    ⟨h.resolved href refusal, Outlet.continued_of_calls fun d => Record.calls_resolved _ _ _ d⟩
  unfold Comes openDocument
  rw [ensures_bind, ensures_resolve]
  cases s.resolver with
  | none => exact reaches_refl h
  | some ask =>
    simp only
    cases hask : ask o.record href with
    | some f => exact asked _
    | none =>
      simp only
      -- The sink is new: it was not called yet, and no scope writes to it.
      have hnew : ∀ t ∈ o.scopes, t.destination? ≠ some (.document o.record.documents.length) :=
        fun t ht hd => Nat.lt_irrefl _ (h.opened t ht _ hd)
      have hcount : ∀ i, Destination.document o.record.documents.length = .document i →
          i < (o.after (.resolved href none)).record.documents.length := by
        intro i hi
        obtain rfl := Destination.document.inj hi
        simp [Record.documents]
      have hcalls : (o.after (.resolved href none)).record.calls
          (.document o.record.documents.length) = [] :=
        (Record.calls_resolved _ _ _ _).trans (h.uncalled _ (Nat.le_refl _))
      have hstarted : Leaving ((o.after (.resolved href none)).record.calls
          (.document o.record.documents.length) ++ [.startDocument]) [] := by
        rw [hcalls]
        exact .none (.other rfl .nil)
      have sent : ∀ refusal, Reaches o ((o.after (.resolved href none)).after
          (.sent (.document o.record.documents.length) .startDocument refusal)) := by
        intro refusal
        refine ⟨(asked none).1.sentApart hnew hcount refusal hstarted (by simp), ?_⟩
        exact (asked none).2.trans (Outlet.continued_sent (by simp)) fun d hd => hd
      simp only [ensures_bind, ensures_get]
      split
      · exact asked none
      · rw [ensures_bind, ensures_send]
        split
        · exact sent _
        · rw [ensures_push]
          obtain ⟨htracked, hcontinued⟩ := sent none
          refine ⟨htracked.pushed fun d hd => ?_, hcontinued⟩
          obtain rfl := Option.some.inj hd
          refine ⟨?_, hnew, hcount⟩
          rw [Outlet.record_after, Record.calls_sent]
          exact hstarted

/-- The innermost scope is taken away, or nothing happens. -/
theorem ensures_popOwned_cases {owner : Nat} {ok : Scope → Outlet → Prop}
    {failed : Fault → Outlet → Prop}
    (hok : ∀ t r, o.scopes = t :: r → ok t { o with scopes := r })
    (hfailed : ∀ f, failed f o) : (popOwned owner).Ensures o ok failed := by
  unfold popOwned
  rw [ensures_bind, ensures_get]
  cases ht : o.scopes with
  | nil => exact hfailed _
  | cons t r =>
    simp only
    split
    · exact hok t r ht
    · exact hfailed _

theorem reaches_popped (h : Tracked o) (ht : o.scopes = t :: r) :
    Reaches o { o with scopes := r } :=
  ⟨h.popped ht, Outlet.continued_of_calls fun _ => rfl⟩

theorem comes_closeCapture (h : Tracked o) (owner : Nat) :
    (closeCapture owner).Comes o (Reaches o) := by
  refine ensures_bind.mpr (ensures_popOwned_cases (fun t r ht => ?_) fun _ => reaches_refl h)
  have hpopped := reaches_popped h ht
  cases hd : t.target with
  | capture c => simpa [hd] using hpopped
  | sink d => simpa [hd] using hpopped

theorem comes_closeDocument (h : Tracked o) (owner : Nat) :
    (closeDocument s owner).Comes o (Reaches o) := by
  refine ensures_bind.mpr (ensures_popOwned_cases (fun t r ht => ?_) fun _ => reaches_refl h)
  have hpopped := reaches_popped h ht
  cases hd : t.target with
  | capture c =>
    simp only
    exact comes_checkClosed hpopped
  | sink d =>
    have hmem : t ∈ o.scopes := by simp [ht]
    have hdest : t.destination? = some d := Scope.destination?_eq.mpr hd
    have hapart : ∀ u ∈ r, u.destination? ≠ some d := fun u hu => h.ne_of_mem ht hdest hu
    have hcount : ∀ i, d = .document i → i < o.record.documents.length := by
      rintro i rfl
      exact h.opened t hmem i hdest
    have hknown := h.known t hmem d hdest
    simp only
    cases hp : t.pending with
    | some tag =>
      obtain ⟨names, hnames⟩ := opened_ne_nil h ht hp
      rw [Scope.delivered, hp, hnames] at hknown
      have sent : ∀ refusal, Reaches o
          (({ o with scopes := r } : Outlet).after (.sent d (.opening tag.1 tag.2) refusal)) := by
        intro refusal
        refine ⟨hpopped.1.sentApart hapart hcount refusal (hknown.opening _ _) (by simp), ?_⟩
        exact Outlet.continued_sent (by simp)
      rw [ensures_bind, ensures_send]
      split
      · exact sent _
      · rw [ensures_bind, ensures_checkClosed, hnames]
        exact sent none
    | none =>
      simp only [ensures_bind, ensures_checkClosed]
      split
      · exact hpopped
      · rename_i hnone
        have hknown : Leaving (o.record.calls d) [] := by
          simpa [Scope.delivered, hp, hnone] using hknown
        refine comes_send fun refusal => ⟨?_, ?_⟩
        · exact hpopped.1.sentApart hapart hcount refusal (hknown.other rfl) fun _ => hknown.paired
        · exact Outlet.continued_sent fun _ => ⟨t, r, ht, hdest, hnone, hp⟩

end Writing

/-! ## Writes in any order -/

/-- A write to the scopes, as it may be called at any time. -/
inductive Write where
  | emit (event : Event)
  | addAttribute (added : Attribute)
  | openCapture (owner : Nat) (context : String)
  | closeCapture (owner : Nat)
  | openDocument (owner : Nat) (href : String)
  | closeDocument (owner : Nat)

/-- The outlet after a write, whatever becomes of it. -/
def Write.after (s : Surroundings) (o : Outlet) : Write → Outlet
  | emit e => ((Writing.emit s e).run.run o).2
  | addAttribute a => ((Writing.addAttribute a).run.run o).2
  | openCapture owner context => ((Writing.openCapture owner context).run.run o).2
  | closeCapture owner => ((Writing.closeCapture owner).run.run o).2
  | openDocument owner href => ((Writing.openDocument s owner href).run.run o).2
  | closeDocument owner => ((Writing.closeDocument s owner).run.run o).2

/-- The outlet after writes that are made one after the other from the start. -/
def Outlet.afterWrites (s : Surroundings) (ws : List Write) : Outlet :=
  ws.foldl (Write.after s) .initial

theorem Writing.Comes.after {α : Type} {w : Writing α} {o : Outlet} {P : Outlet → Prop}
    (h : w.Comes o P) : P (w.run.run o).2 := by
  unfold Comes Ensures at h
  split at h
  all_goals
    rename_i hw
    rw [hw]
    exact h

theorem Write.reaches {o : Outlet} (h : Tracked o) (s : Surroundings) (w : Write) :
    Writing.Reaches o (w.after s o) := by
  cases w with
  | emit e => exact (Writing.comes_emit h e).after
  | addAttribute a => exact (Writing.comes_addAttribute h a).after
  | openCapture owner context => exact (Writing.comes_openCapture h owner context).after
  | closeCapture owner => exact (Writing.comes_closeCapture h owner).after
  | openDocument owner href => exact (Writing.comes_openDocument h owner href).after
  | closeDocument owner => exact (Writing.comes_closeDocument h owner).after

theorem tracked_afterWrites (s : Surroundings) (ws : List Write) :
    Tracked (Outlet.afterWrites s ws) := by
  suffices hs : ∀ o, Tracked o → Tracked (ws.foldl (Write.after s) o) from hs _ tracked_initial
  induction ws with
  | nil => exact fun _ h => h
  | cons w ws ih => exact fun o h => ih _ (w.reaches h s).1

/-- What sinks see of any writes, whatever they refuse. -/
structure SeesNesting (s : Surroundings) : Prop where
  /-- The calls on a sink are the beginning of calls that nest. -/
  nests : ∀ ws d, ∃ rest, Paired ((Outlet.afterWrites s ws).record.calls d ++ rest)
  /-- Before a document ends every element was closed. -/
  ended : ∀ ws d before after,
    (Outlet.afterWrites s ws).record.calls d = before ++ .endDocument :: after → Paired before
  /-- The write that ends a document finds neither an open element nor a start tag held back. -/
  idle : ∀ ws w d, ∃ new, (Outlet.afterWrites s (ws ++ [w])).record.calls d =
    (Outlet.afterWrites s ws).record.calls d ++ new ∧
      (.endDocument ∈ new → (Outlet.afterWrites s ws).Idle d)
  /-- No two scopes write to one sink. -/
  apart : ∀ ws, ((Outlet.afterWrites s ws).scopes.filterMap Scope.destination?).Nodup

end Output

/-- No sink ever sees tags that do not nest. -/
theorem calls_always_nest (s : Surroundings) : SeesNesting s where
  nests ws d := by
    obtain ⟨names, h⟩ := (tracked_afterWrites s ws).leaving d
    exact ⟨_, h.completed⟩
  ended ws d before after h := (tracked_afterWrites s ws).ended d before after h
  idle ws w d := by
    have h := (w.reaches (tracked_afterWrites s ws) s).2 d
    rw [Outlet.afterWrites, List.foldl_append]
    exact h
  apart ws := (tracked_afterWrites s ws).distinct

end StreamTransform
