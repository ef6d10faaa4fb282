import StreamTransform.Proofs.Nesting

/-!
# Lost events

A sink is called with an event only after the start tag that was held back has gone to it. So
one write can fail on behalf of the event before: when the sink refuses the tag, the event that made
it leave is never offered. The account of a sequence of writes gives every event its fate, and the
calls on the sink, its refusals and the reports are read off the fates.
-/

namespace StreamTransform

namespace Output

/-! ## Fates -/

def Event.isOpening : Event → Bool
  | .opening .. => true
  | _ => false

/-- The fault of an event that does not fit the open elements, innermost first. -/
def Event.misfit? (names : List QName) : Event → Option Fault
  | .closing n =>
    match names with
    | o :: _ => if o.same n then none else some (.outputMismatch n o)
    | [] => some (.outputUnopened n)
  | .endDocument => names.head?.map .outputUnclosed
  | _ => none

/-- What becomes of an event that is written to a sink. -/
inductive Fate where
  /-- The sink is called with it, a start tag once the next event comes. -/
  | passed (refusal : Option Fault)
  /-- The sink refuses the start tag before it, and is not called with it. -/
  | dropped (tag : Event) (refusal : Fault)
  /-- It does not fit the open elements, and the sink is not called with it. -/
  | unfit (fault : Fault)

def Fate.fault? : Fate → Option Fault
  | passed refusal => refusal
  | dropped _ f | unfit f => some f

/-- An event that was written, for a node, and its fate. -/
structure Emission where
  event : Event
  node : Option NodeId
  fate : Fate

namespace Emission

/-- What was asked for. -/
def request (x : Emission) : Event × Option NodeId := (x.event, x.node)

/-- The call that the event brings to the sink. -/
def call? (x : Emission) : Option Event :=
  match x.fate with
  | .passed _ => some x.event
  | _ => none

/-- The event that the sink refused while this one was written, and its fault. -/
def refused? (x : Emission) : Option (Event × Fault) :=
  match x.fate with
  | .passed refusal => refusal.map (x.event, ·)
  | .dropped tag f => some (tag, f)
  | .unfit _ => none

/-- The refused start tag with which the event was dropped. -/
def dropped? (x : Emission) : Option (Event × Fault) :=
  match x.fate with
  | .dropped tag f => some (tag, f)
  | _ => none

def report? (env : Environment) (x : Emission) : Option Diagnostic :=
  x.fate.fault?.map fun f => Operation.diagnosticAt env .error f x.node

end Emission

/-- The start tag that a scope holds back. -/
def Scope.held (t : Scope) : List Event := t.pending.toList.map fun tag => .opening tag.1 tag.2

/-- A scope that holds nothing back. -/
def Scope.cleared (t : Scope) : Scope := { t with pending := none }

/-- A scope after an event with its fate. -/
def Scope.following (t : Scope) (x : Emission) : Scope :=
  match x.fate, x.event with
  | .passed _, .opening n as => { t with opened := n :: t.opened, pending := some (n, as) }
  | .passed _, .closing _ => { t.cleared with opened := t.opened.tail }
  | _, _ => t.cleared

/-- The fate is one that an event can have in a scope. -/
def Emission.Due (t : Scope) (x : Emission) : Prop :=
  match x.fate with
  | .passed refusal => x.event.misfit? t.opened = none ∧ (x.event.isOpening → refusal = none)
  | .dropped tag _ => t.held = [tag]
  | .unfit f => x.event.misfit? t.opened = some f

/-- The fates of successive events, from one scope to another. -/
inductive Fated : Scope → List Emission → Scope → Prop
  | nil (t : Scope) : Fated t [] t
  | cons {t t' : Scope} {x : Emission} {xs : List Emission} (due : x.Due t)
      (rest : Fated (t.following x) xs t') : Fated t (x :: xs) t'

section
variable {t t' : Scope} {x : Emission} {xs : List Emission}

theorem Scope.isOpening_of_held {tag : Event} (h : t.held = [tag]) : tag.isOpening = true := by
  have hmem : tag ∈ t.held := h ▸ List.mem_singleton_self tag
  obtain ⟨_, -, rfl⟩ := List.mem_map.mp hmem
  rfl

theorem Scope.target_following (t : Scope) (x : Emission) : (t.following x).target = t.target := by
  unfold Scope.following
  split <;> rfl

/-- A start tag is refused when the next event is written, and then this event is dropped. -/
theorem Emission.Due.dropped?_eq (h : x.Due t) :
    x.dropped? = x.refused?.filter fun p => p.1.isOpening := by
  obtain ⟨e, node, fate⟩ := x
  cases fate with
  | passed refusal =>
    cases refusal with
    | none => rfl
    | some f =>
      have he : ¬ e.isOpening := fun he => nomatch h.2 he
      simp [dropped?, refused?, Option.filter, he]
  | dropped tag f =>
    simp [dropped?, refused?, Option.filter, Scope.isOpening_of_held h]
  | unfit f => rfl

/-- One event is dropped for each start tag that is refused, and no other event is. -/
theorem Fated.filterMap_dropped? (h : Fated t xs t') :
    xs.filterMap Emission.dropped? =
      (xs.filterMap Emission.refused?).filter fun p => p.1.isOpening := by
  induction h with
  | nil => rfl
  | @cons t t' x xs due _ ih =>
    rw [List.filterMap_cons, List.filterMap_cons, due.dropped?_eq, ih]
    rcases x.refused? with - | p
    · rfl
    · cases hp : p.1.isOpening <;> simp [Option.filter, hp]

/-- No event is dropped when no start tag is refused. -/
theorem Fated.dropped?_eq_none (h : Fated t xs t')
    (hnone : ∀ p ∈ xs.filterMap Emission.refused?, p.1.isOpening = false) :
    ∀ x ∈ xs, x.dropped? = none := by
  have hempty : xs.filterMap Emission.dropped? = [] := by
    rw [h.filterMap_dropped?, List.filter_eq_nil_iff]
    intro p hp
    simp [hnone p hp]
  exact List.filterMap_eq_nil_iff.mp hempty

end

end Output

open Output

/-! ## The account -/

/-- The calls that a sink refused, in order, with its faults. -/
def Record.refusals (r : Record) (d : Destination) : List (Output.Event × Fault) :=
  r.reverse.filterMap fun
    | .sent receiver e (some f) => if receiver = d then some (e, f) else none
    | _ => none

/-- What a sequence of writes to a sink adds to the record: the calls, but for the start tag held
back, the refusals and the reports. -/
structure Record.Accounts (d : Destination) (held held' : List Output.Event) (xs : List Emission)
    (ds : List Diagnostic) (r r' : Record) : Prop where
  calls : r'.calls d ++ held' = r.calls d ++ held ++ xs.filterMap Emission.call?
  refusals : r'.refusals d = r.refusals d ++ xs.filterMap Emission.refused?
  reports : r'.diagnostics = r.diagnostics ++ ds
  apart : ∀ d', d' ≠ d → r'.calls d' = r.calls d'

namespace Record

variable {r r₁ r₂ : Record} {d : Destination} {held held₁ held₂ : List Output.Event}
  {xs ys : List Emission} {x : Emission} {ds ds' : List Diagnostic} {e : Output.Event}

theorem refusals_cons (h : Happening) (r : Record) (d : Destination) :
    refusals (h :: r) d = refusals r d ++ refusals [h] d := by
  simp [refusals, List.filterMap_append]

theorem refusals_sent (r : Record) (d : Destination) (e : Output.Event) (refusal : Option Fault) :
    refusals (.sent d e refusal :: r) d = refusals r d ++ (refusal.map (e, ·)).toList := by
  rw [refusals_cons]
  cases refusal <;> simp [refusals]

theorem refusals_noted (n : Note) (r : Record) (d : Destination) :
    refusals (.noted n :: r) d = refusals r d := by
  rw [refusals_cons]
  exact List.append_nil _

theorem refusals_reported (diagnostic : Diagnostic) (answer : Option Fault) (r : Record)
    (d : Destination) : refusals (.reported diagnostic answer :: r) d = refusals r d := by
  rw [refusals_cons]
  exact List.append_nil _

theorem diagnostics_sent (r : Record) (d : Destination) (e : Output.Event)
    (refusal : Option Fault) : diagnostics (.sent d e refusal :: r) = diagnostics r := by
  simp [diagnostics]

theorem diagnostics_noted (n : Note) (r : Record) : diagnostics (.noted n :: r) = diagnostics r := by
  simp [diagnostics]

theorem diagnostics_reported (diagnostic : Diagnostic) (answer : Option Fault) (r : Record) :
    diagnostics (.reported diagnostic answer :: r) = diagnostics r ++ [diagnostic] := by
  simp [diagnostics]

theorem Accounts.refl (d : Destination) (held : List Output.Event) (r : Record) :
    Accounts d held held [] [] r r :=
  ⟨(List.append_nil _).symm, (List.append_nil _).symm, (List.append_nil _).symm, fun _ _ => rfl⟩

theorem Accounts.trans (h : Accounts d held held₁ xs ds r r₁)
    (h' : Accounts d held₁ held₂ ys ds' r₁ r₂) :
    Accounts d held held₂ (xs ++ ys) (ds ++ ds') r r₂ where
  calls := by rw [h'.calls, h.calls, List.filterMap_append, List.append_assoc]
  refusals := by rw [h'.refusals, h.refusals, List.filterMap_append, List.append_assoc]
  reports := by rw [h'.reports, h.reports, List.append_assoc]
  apart := fun d' hd => (h'.apart d' hd).trans (h.apart d' hd)

theorem Accounts.noted (h : Accounts d held held₁ xs ds r r₁) (n : Note) :
    Accounts d held held₁ xs ds r (.noted n :: r₁) where
  calls := by rw [calls_noted, h.calls]
  refusals := by rw [refusals_noted, h.refusals]
  reports := by rw [diagnostics_noted, h.reports]
  apart := fun d' hd => by rw [calls_noted, h.apart d' hd]

theorem Accounts.reported (h : Accounts d held held₁ xs ds r r₁) (diagnostic : Diagnostic)
    (answer : Option Fault) :
    Accounts d held held₁ xs (ds ++ [diagnostic]) r (.reported diagnostic answer :: r₁) where
  calls := by rw [calls_reported, h.calls]
  refusals := by rw [refusals_reported, h.refusals]
  reports := by rw [diagnostics_reported, h.reports, List.append_assoc]
  apart := fun d' hd => by rw [calls_reported, h.apart d' hd]

/-- The sink is called with the event that is written. -/
theorem Accounts.called (e : Output.Event) (node : Option NodeId) (refusal : Option Fault)
    (r : Record) :
    Accounts d [] [] [⟨e, node, .passed refusal⟩] [] r (.sent d e refusal :: r) where
  calls := by simp [calls_sent, Emission.call?]
  refusals := by cases refusal <;> simp [refusals_sent, Emission.refused?]
  reports := by simp [diagnostics_sent]
  apart := fun d' hd => calls_sent_of_ne hd.symm

/-- The sink is called with the start tag held back, and takes it. -/
theorem Accounts.released (d : Destination) (tag : Output.Event) (r : Record) :
    Accounts d [tag] [] [] [] r (.sent d tag none :: r) where
  calls := by simp [calls_sent]
  refusals := by simp [refusals_sent]
  reports := by simp [diagnostics_sent]
  apart := fun d' hd => calls_sent_of_ne hd.symm

/-- The sink refuses the start tag held back. -/
theorem Accounts.dropped (d : Destination) (tag : Output.Event) (f : Fault) (e : Output.Event)
    (node : Option NodeId) (r : Record) :
    Accounts d [tag] [] [⟨e, node, .dropped tag f⟩] [] r (.sent d tag (some f) :: r) where
  calls := by simp [calls_sent, Emission.call?]
  refusals := by simp [refusals_sent, Emission.refused?]
  reports := by simp [diagnostics_sent]
  apart := fun d' hd => calls_sent_of_ne hd.symm

/-- A start tag is held back. -/
theorem Accounts.heldBack (d : Destination) (e : Output.Event) (node : Option NodeId) (r : Record) :
    Accounts d [] [e] [⟨e, node, .passed none⟩] [] r r where
  calls := by simp [Emission.call?]
  refusals := by simp [Emission.refused?]
  reports := (List.append_nil _).symm
  apart := fun _ _ => rfl

/-- An event that does not fit leaves no trace. -/
theorem Accounts.unfit (d : Destination) (e : Output.Event) (node : Option NodeId) (f : Fault)
    (r : Record) : Accounts d [] [] [⟨e, node, .unfit f⟩] [] r r where
  calls := by simp [Emission.call?]
  refusals := by simp [Emission.refused?]
  reports := (List.append_nil _).symm
  apart := fun _ _ => rfl

end Record

/-! ## One write -/

namespace Output

theorem TextSink.take_of_refusal (c : TextSink) {e : Event} {f : Fault}
    (h : refusal? c.context e = some f) : c.take e = c := by
  cases e <;> first | rfl | cases h

@[simp] theorem TextSink.context_take (c : TextSink) (e : Event) :
    (c.take e).context = c.context := by
  cases e <;> rfl

variable {s : Surroundings} {o : Outlet} {t t' : Scope} {rest : List Scope} {d : Destination}
  {e tag : Event} {node : Option NodeId} {f : Fault} {refusal : Option Fault} {r r₁ : Record}

/-- An event was written, with its fate, in a scope that is another one then. -/
def Written (d : Destination) (t : Scope) (e : Event) (node : Option NodeId) (r : Record)
    (fault? : Option Fault) (t' : Scope) (r' : Record) : Prop :=
  ∃ x : Emission, x.request = (e, node) ∧ x.fate.fault? = fault? ∧ x.Due t ∧
    t' = t.following x ∧ r.Accounts d t.held t'.held [x] [] r'

theorem written_dropped (htag : t.held = [tag]) :
    Written d t e node r (some f) t.cleared (.sent d tag (some f) :: r) := by
  refine ⟨⟨e, node, .dropped tag f⟩, rfl, rfl, htag, rfl, ?_⟩
  rw [htag]
  exact .dropped d tag f e node r

section
variable (hr : r.Accounts d t.held [] [] [] r₁)

include hr

theorem written_called (hfit : e.misfit? t.opened = none) (he : ¬ e.isOpening)
    (ht' : t' = t.following ⟨e, node, .passed refusal⟩) (hheld : t'.held = []) :
    Written d t e node r refusal t' (.sent d e refusal :: r₁) := by
  refine ⟨⟨e, node, .passed refusal⟩, rfl, rfl, ⟨hfit, fun h => absurd h he⟩, ht', ?_⟩
  rw [hheld]
  exact hr.trans (.called e node refusal r₁)

theorem written_unfit (hfit : e.misfit? t.opened = some f) :
    Written d t e node r (some f) t.cleared r₁ :=
  ⟨⟨e, node, .unfit f⟩, rfl, rfl, hfit, rfl, hr.trans (.unfit d e node f r₁)⟩

theorem written_heldBack (n : QName) (as : List Attribute) :
    Written d t (.opening n as) node r none
      { t with opened := n :: t.opened, pending := some (n, as) } r₁ :=
  ⟨⟨.opening n as, node, .passed none⟩, rfl, rfl, ⟨rfl, fun _ => rfl⟩, rfl,
    hr.trans (.heldBack d (.opening n as) node r₁)⟩

end

namespace Writing

/-- A write ends so, with a fault or with none. -/
def Ends (w : Writing Unit) (o : Outlet) (P : Option Fault → Outlet → Prop) : Prop :=
  w.Ensures o (fun _ => P none) fun f => P (some f)

variable {P : Option Fault → Outlet → Prop}

theorem ends_send (h : ∀ refusal, P refusal (o.after (.sent d e refusal))) :
    (send s d e).Ends o P := by
  rw [Ends, ensures_send]
  split <;> exact h _

theorem ends_top_bind {k : Scope → Writing Unit} (ht : o.scopes = t :: rest)
    (hk : (k t).Ends o P) : (top >>= k).Ends o P := by
  rw [Ends, ensures_bind, ensures_top, ht]
  exact hk

theorem ends_setTop_bind {k : Unit → Writing Unit}
    (hk : (k ()).Ends ⟨t :: o.scopes.tail, o.record⟩ P) : (setTop t >>= k).Ends o P := by
  rw [Ends, ensures_bind, ensures_setTop]
  exact hk

theorem ends_deliver (ht : o.scopes = t :: rest) (hd : t.target = .sink d)
    (h : ∀ refusal, P refusal (o.after (.sent d e refusal))) : (deliver s e).Ends o P := by
  refine ends_top_bind ht ?_
  rw [hd]
  exact ends_send h

/-- What is written when nothing is held back any more comes after the start tag. -/
theorem ends_flush_bind {k : Unit → Writing Unit} (ht : o.scopes = t :: rest)
    (hd : t.target = .sink d)
    (hrefused : ∀ tag f, t.held = [tag] →
      P (some f) ⟨t.cleared :: rest, .sent d tag (some f) :: o.record⟩)
    (hk : ∀ r₁, o.record.Accounts d t.held [] [] [] r₁ → (k ()).Ends ⟨t.cleared :: rest, r₁⟩ P) :
    (flush s >>= k).Ends o P := by
  rw [Ends, ensures_bind, flush, ensures_bind, ensures_top, ht]
  cases hp : t.pending with
  | none =>
    have hclear : t.cleared = t := by rw [Scope.cleared, ← hp]
    have hheld : t.held = [] := by rw [Scope.held, hp]; rfl
    have hk := hk o.record (hheld ▸ .refl d [] o.record)
    rw [hclear, ← ht] at hk
    simpa only [hp, ensures_pure, Ends] using hk
  | some tag =>
    have hheld : t.held = [.opening tag.1 tag.2] := by rw [Scope.held, hp]; rfl
    simp only [hp, ensures_bind, ensures_setTop, ht, List.tail_cons]
    refine ends_deliver (P := fun refusal o' =>
      refusal.elim ((k ()).Ends o' P) fun f => P (some f) o') rfl hd fun refusal => ?_
    cases refusal with
    | none => exact hk _ (hheld ▸ .released d _ o.record)
    | some f => exact hrefused _ f hheld

/-- The end of a document is called for if no element is open. -/
theorem ends_document {w : Writing Unit} (hr : r.Accounts d t.held [] [] [] o.record)
    (ht' : t'.opened = t.opened)
    (hw : (∀ refusal, P refusal (o.after (.sent d .endDocument refusal))) → w.Ends o P)
    (hP : ∀ fault? r', Written d t .endDocument node r fault? t.cleared r' →
      P fault? { o with record := r' }) :
    (checkClosed t' >>= fun _ => w).Ends o P := by
  rw [Ends, ensures_bind, ensures_checkClosed, ht']
  cases hopened : t.opened with
  | nil =>
    refine hw fun refusal => hP refusal _ ?_
    exact written_called hr (by rw [hopened]; rfl) Bool.false_ne_true rfl rfl
  | cons n names => exact hP _ _ (written_unfit hr (by rw [hopened]; rfl))

/-- Every write to a sink gives the event its fate. -/
theorem ends_emit (ht : o.scopes = t :: rest) (hd : t.target = .sink d) (e : Event)
    (node : Option NodeId) :
    (emit s e).Ends o fun fault? o' =>
      ∃ t', o'.scopes = t' :: rest ∧ Written d t e node o.record fault? t' o'.record := by
  unfold emit
  refine ends_flush_bind ht hd (fun tag f htag => ⟨_, rfl, written_dropped htag⟩) fun r₁ hr => ?_
  have hcalled (hfit : e.misfit? t.opened = none) (he : ¬ e.isOpening)
      (hsame : ∀ refusal, t.following ⟨e, node, .passed refusal⟩ = t.cleared) :
      (deliver s e).Ends ⟨t.cleared :: rest, r₁⟩ fun fault? o' =>
        ∃ t', o'.scopes = t' :: rest ∧ Written d t e node o.record fault? t' o'.record :=
    ends_deliver rfl hd fun refusal =>
      ⟨_, rfl, written_called hr hfit he (hsame refusal).symm rfl⟩
  refine ends_top_bind rfl ?_
  obtain ⟨target, owner, pending, opened⟩ := t
  obtain rfl : target = .sink d := hd
  cases e with
  | opening n as => exact ⟨_, rfl, written_heldBack hr n as⟩
  | closing n =>
    cases opened with
    | nil => exact ⟨_, rfl, written_unfit hr rfl⟩
    | cons name names =>
      show Ends (if name.same n then _ else _) _ _
      split
      next hsame =>
        refine ends_setTop_bind (ends_deliver rfl rfl fun refusal => ⟨_, rfl, ?_⟩)
        exact written_called hr (if_pos hsame) Bool.false_ne_true rfl rfl
      next hother => exact ⟨_, rfl, written_unfit hr (if_neg hother)⟩
  | endDocument =>
    exact ends_document hr rfl (fun hsent => ends_deliver rfl rfl hsent)
      fun _ _ hr' => ⟨_, rfl, hr'⟩
  | startDocument | characters | comment | instruction | startCdata | endCdata =>
    exact hcalled rfl Bool.false_ne_true fun _ => rfl

/-- The end of a redirection is the end of a document that is written to its scope. -/
theorem ends_closeDocument {owner : Nat} (ht : o.scopes = t :: rest) (hd : t.target = .sink d)
    (howner : t.owner = some owner) (node : Option NodeId) :
    (closeDocument s owner).Ends o fun fault? o' => o'.scopes = rest ∧
      Written d t .endDocument node o.record fault? t.cleared o'.record := by
  rw [Ends, closeDocument, ensures_bind, ensures_popOwned ht howner]
  simp only [hd]
  have hclosed (r₁ : Record) (hr : o.record.Accounts d t.held [] [] [] r₁) :
      (checkClosed t >>= fun _ => send s d .endDocument).Ends ⟨rest, r₁⟩ fun fault? o' =>
        o'.scopes = rest ∧ Written d t .endDocument node o.record fault? t.cleared o'.record :=
    ends_document hr rfl (fun hsent => ends_send hsent) fun _ _ hr' => ⟨rfl, hr'⟩
  cases hp : t.pending with
  | none =>
    have hheld : t.held = [] := by rw [Scope.held, hp]; rfl
    exact hclosed o.record (hheld ▸ .refl d [] o.record)
  | some tag =>
    have hheld : t.held = [.opening tag.1 tag.2] := by rw [Scope.held, hp]; rfl
    rw [ensures_bind, ensures_send]
    split
    next f hf => exact ⟨rfl, written_dropped hheld⟩
    next hf => exact hclosed _ (hheld ▸ .released d _ o.record)

/-- A capture takes every event but those that its text refuses, and these leave it as it is. -/
theorem ends_emit_capture {c : TextSink} {owner : Option Nat}
    (ht : o.scopes = ⟨.capture c, owner, none, []⟩ :: rest) (e : Event) :
    (emit s e).Ends o fun fault? o' => fault? = TextSink.refusal? c.context e ∧
      o' = { o with scopes := ⟨.capture (c.take e), owner, none, []⟩ :: rest } := by
  have hflush {k : Unit → Writing Unit} {Q} (hk : (k ()).Ends o Q) :
      (flush s >>= k).Ends o Q := by
    rw [Ends, flush, ensures_bind, ensures_bind, ensures_top, ht]
    exact hk
  have hdeliver : (deliver s e).Ends o fun fault? o' =>
      fault? = TextSink.refusal? c.context e ∧
        o' = { o with scopes := ⟨.capture (c.take e), owner, none, []⟩ :: rest } := by
    refine ends_top_bind ht ?_
    cases hr : TextSink.refusal? c.context e with
    | none =>
      simp only [hr, Ends, ensures_setTop, ht, List.tail_cons]
      exact ⟨trivial, trivial⟩
    | some f =>
      simp only [hr, Ends, ensures_throw]
      refine ⟨trivial, ?_⟩
      rw [c.take_of_refusal hr, ← ht]
  refine hflush (ends_top_bind ht ?_)
  cases e <;> exact hdeliver

end Writing

end Output

/-! ## A sequence of writes -/

namespace Operation

/-- Writes events one after the other, each for a node. -/
def emitAll (env : Environment) : List (Output.Event × Option NodeId) → Operation Unit
  | [] => pure ()
  | e :: es => do
    emit env e.1 e.2
    emitAll env es

/-- What was written on a scope that writes to a sink, with the reports of it: on top there is the
same scope, as the fates leave it. -/
structure Accounted (env : Environment) (d : Destination) (t : Scope) (rest : List Scope)
    (xs : List Emission) (t' : Scope) (s s' : State) : Prop where
  fated : Fated t xs t'
  scopes : s'.outlet.scopes = t' :: rest
  accounts : s.record.Accounts d t.held t'.held xs (xs.filterMap (Emission.report? env)) s'.record

variable {env : Environment} {s s₁ s₂ : State} {t t₁ t₂ : Scope} {rest : List Scope}
  {d : Destination} {node : Option NodeId} {e : Output.Event} {xs ys : List Emission}

theorem Accounted.refl (ht : s.outlet.scopes = t :: rest) :
    Accounted env d t rest [] t s s :=
  ⟨.nil t, ht, .refl d t.held s.record⟩

theorem Accounted.cons {x : Emission} (h : Accounted env d t rest [x] t₁ s s₁)
    (h' : Accounted env d t₁ rest ys t₂ s₁ s₂) : Accounted env d t rest (x :: ys) t₂ s s₂ where
  fated := by
    obtain - | ⟨due, - | _⟩ := h.fated
    exact .cons due h'.fated
  scopes := h'.scopes
  accounts := by
    rw [← List.singleton_append, List.filterMap_append]
    exact h.accounts.trans h'.accounts

/-- A write that is attempted comes to what it comes to by itself, with the report of its fault. -/
theorem ensures_attempt_ends {w : Writing Unit} {P : Option Fault → Outlet → Prop}
    {Q : State → Prop} (hw : w.Ends s.outlet P) (hnone : ∀ o, P none o → Q { s with outlet := o })
    (hsome : ∀ f o, P (some f) o → Q (reported env .error f node { s with outlet := o })) :
    (attempt env node w).Ensures s (fun _ => Q) fun f s' => s'.record.Answered f ∧ Q s' := by
  rw [ensures_attempt]
  unfold Writing.Ends Writing.Ensures at hw
  split
  · rename_i a o hrun
    rw [hrun] at hw
    exact hnone o hw
  · rename_i f o hrun
    rw [hrun] at hw
    have hq : (report env .error f node).Ensures { s with outlet := o } (fun _ => Q) fun _ => Q := by
      rw [ensures_report]
      split <;> exact hsome f o hw
    exact (answered_report.both hq).mono (fun _ _ h => h.2) fun _ _ h => h

/-- An event was written for a node and met its fate, with the report of it. -/
def Met (env : Environment) (d : Destination) (t : Scope) (e : Output.Event) (node : Option NodeId)
    (r : Record) (t' : Scope) (r' : Record) : Prop :=
  ∃ x : Emission, x.request = (e, node) ∧ Fated t [x] t' ∧
    r.Accounts d t.held t'.held [x] ([x].filterMap (Emission.report? env)) r'

section
variable {r r' : Record} {t' : Scope} {f : Fault}

theorem met_of_written (h : Written d t e node r none t' r') : Met env d t e node r t' r' := by
  obtain ⟨x, hx, hnone, due, rfl, haccounts⟩ := h
  have hreport : [x].filterMap (Emission.report? env) = [] := by
    simp [Emission.report?, hnone]
  exact ⟨x, hx, .cons due (.nil _), hreport ▸ haccounts⟩

theorem met_of_reported (h : Written d t e node r (some f) t' r') (answer : Option Fault) :
    Met env d t e node r t' (.reported (diagnosticAt env .error f node) answer :: r') := by
  obtain ⟨x, hx, hsome, due, rfl, haccounts⟩ := h
  obtain ⟨-, rfl⟩ := Prod.mk.inj hx
  have hreport : [x].filterMap (Emission.report? env) = [diagnosticAt env .error f x.node] := by
    simp [Emission.report?, hsome]
  exact ⟨x, hx, .cons due (.nil _), hreport ▸ haccounts.reported _ answer⟩

theorem Met.of_noted {n : Note} (h : Met env d t e node (.noted n :: r) t' r') :
    Met env d t e node r t' r' := by
  obtain ⟨x, hx, hfated, haccounts⟩ := h
  exact ⟨x, hx, hfated, ((Record.Accounts.refl d t.held r).noted n).trans haccounts⟩

end

/-- An event that is emitted to a sink meets its fate. -/
theorem met_emit (ht : s.outlet.scopes = t :: rest) (hd : t.target = .sink d) (e : Output.Event)
    (node : Option NodeId) :
    (emit env e node).Ensures s
      (fun _ s' => ∃ x t', x.request = (e, node) ∧ Accounted env d t rest [x] t' s s')
      fun f s' => s'.record.Answered f ∧
        ∃ x t', x.request = (e, node) ∧ Accounted env d t rest [x] t' s s' := by
  have haccounted {s' : State} (h : ∃ t', s'.outlet.scopes = t' :: rest ∧
      Met env d t e node (.noted (.emit e) :: s.record) t' s'.record) :
      ∃ x t', x.request = (e, node) ∧ Accounted env d t rest [x] t' s s' := by
    obtain ⟨t', hscopes, hmet⟩ := h
    obtain ⟨x, hx, hfated, haccounts⟩ := hmet.of_noted
    exact ⟨x, t', hx, hfated, hscopes, haccounts⟩
  have hnoted : (s.after (.noted (.emit e))).outlet.scopes = t :: rest := ht
  unfold emit
  rw [ensures_bind, ensures_note, ensures_discard]
  refine ensures_attempt_ends (Writing.ends_emit hnoted hd e node) ?_ ?_
  · rintro o ⟨t', hscopes, hwritten⟩
    exact haccounted ⟨t', hscopes, met_of_written hwritten⟩
  · rintro f o ⟨t', hscopes, hwritten⟩
    exact haccounted ⟨t', hscopes, met_of_reported hwritten _⟩

theorem accounted_emitAll (hd : t.target = .sink d) (es : List (Output.Event × Option NodeId))
    (ht : s.outlet.scopes = t :: rest) :
    (emitAll env es).Ensures s
      (fun _ s' => ∃ xs t', xs.map Emission.request = es ∧ Accounted env d t rest xs t' s s')
      fun f s' => s'.record.Answered f ∧
        ∃ xs t', xs.map Emission.request <+: es ∧ Accounted env d t rest xs t' s s' := by
  induction es generalizing s t with
  | nil => exact ⟨[], t, rfl, .refl ht⟩
  | cons e es ih =>
    rw [emitAll, ensures_bind]
    refine (met_emit ht hd e.1 e.2).mono ?_ ?_
    · rintro _ s₁ ⟨x, t₁, hx, h₁⟩
      have hd₁ : t₁.target = .sink d := by
        obtain - | ⟨-, - | _⟩ := h₁.fated
        rw [t.target_following x, hd]
      refine (ih hd₁ h₁.scopes).mono ?_ ?_
      · rintro _ s₂ ⟨xs, t₂, hxs, h₂⟩
        exact ⟨x :: xs, t₂, by rw [List.map_cons, hx, hxs], h₁.cons h₂⟩
      · rintro f s₂ ⟨hf, xs, t₂, hxs, h₂⟩
        refine ⟨hf, x :: xs, t₂, ?_, h₁.cons h₂⟩
        rw [List.map_cons, hx]
        exact (List.prefix_cons_inj e).mpr hxs
    · rintro f s₁ ⟨hf, x, t₁, hx, h₁⟩
      refine ⟨hf, [x], t₁, ?_, h₁⟩
      rw [List.map_singleton, hx]
      exact (List.prefix_cons_inj e).mpr (List.nil_prefix)

/-- The end of a redirection is accounted for as the end of its document. -/
theorem met_closeDocument {owner : Nat} (ht : s.outlet.scopes = t :: rest)
    (hd : t.target = .sink d) (howner : t.owner = some owner) (node : Option NodeId) :
    (attempt env node (Writing.closeDocument env.surroundings owner)).Ensures s
      (fun _ s' => s'.outlet.scopes = rest ∧
        Met env d t .endDocument node s.record t.cleared s'.record)
      fun f s' => s'.record.Answered f ∧ s'.outlet.scopes = rest ∧
        Met env d t .endDocument node s.record t.cleared s'.record := by
  refine ensures_attempt_ends (Writing.ends_closeDocument ht hd howner node) ?_ ?_
  · exact fun o h => ⟨h.1, met_of_written h.2⟩
  · exact fun f o h => ⟨h.1, met_of_reported h.2 _⟩

/-! ## Captures -/

/-- What was written on a capture: it took every event but those that its text refuses, each of
which is reported. -/
structure Captured (env : Environment) (c : TextSink) (owner : Option Nat) (rest : List Scope)
    (es : List (Output.Event × Option NodeId)) (s s' : State) : Prop where
  scopes : s'.outlet.scopes =
    ⟨.capture ((es.map Prod.fst).foldl TextSink.take c), owner, none, []⟩ :: rest
  reports : s'.record.diagnostics = s.record.diagnostics ++ es.filterMap fun e =>
    (TextSink.refusal? c.context e.1).map fun f => diagnosticAt env .error f e.2

section
variable {c : TextSink} {owner : Option Nat}

theorem captured_emit (ht : s.outlet.scopes = ⟨.capture c, owner, none, []⟩ :: rest)
    (e : Output.Event) (node : Option NodeId) :
    (emit env e node).Ensures s (fun _ s' => Captured env c owner rest [(e, node)] s s')
      fun f s' => s'.record.Answered f ∧ Captured env c owner rest [(e, node)] s s' := by
  have hnoted : (s.after (.noted (.emit e))).outlet.scopes =
      ⟨.capture c, owner, none, []⟩ :: rest := ht
  unfold emit
  rw [ensures_bind, ensures_note, ensures_discard]
  refine ensures_attempt_ends (Writing.ends_emit_capture hnoted e) ?_ ?_
  · rintro o ⟨hnone, rfl⟩
    refine ⟨rfl, ?_⟩
    simp only [List.filterMap_cons, ← hnone, Option.map_none, List.filterMap_nil, List.append_nil]
    exact Record.diagnostics_noted (.emit e) s.record
  · rintro f o ⟨hsome, rfl⟩
    refine ⟨rfl, ?_⟩
    simp only [List.filterMap_cons, ← hsome, Option.map_some, List.filterMap_nil]
    exact (Record.diagnostics_reported _ _ _).trans
      (congrArg (· ++ _) (Record.diagnostics_noted (.emit e) s.record))

theorem captured_emitAll (ht : s.outlet.scopes = ⟨.capture c, owner, none, []⟩ :: rest)
    (es : List (Output.Event × Option NodeId)) :
    (emitAll env es).Ensures s (fun _ s' => Captured env c owner rest es s s')
      fun f s' => s'.record.Answered f ∧
        ∃ done, done <+: es ∧ Captured env c owner rest done s s' := by
  induction es generalizing s c with
  | nil => exact ⟨ht, (List.append_nil _).symm⟩
  | cons e es ih =>
    have hjoin {s₁ s₂ : State} {es : List (Output.Event × Option NodeId)}
        (h₁ : Captured env c owner rest [e] s s₁)
        (h₂ : Captured env (c.take e.1) owner rest es s₁ s₂) :
        Captured env c owner rest (e :: es) s s₂ := by
      refine ⟨h₂.scopes, ?_⟩
      rw [h₂.reports, h₁.reports, TextSink.context_take, List.append_assoc,
        ← List.filterMap_append, List.singleton_append]
    rw [emitAll, ensures_bind]
    refine (captured_emit ht e.1 e.2).mono ?_ ?_
    · intro _ s₁ h₁
      refine (ih h₁.scopes).mono (fun _ _ h₂ => hjoin h₁ h₂) ?_
      rintro f s₂ ⟨hf, done, hdone, h₂⟩
      exact ⟨hf, e :: done, (List.prefix_cons_inj e).mpr hdone, hjoin h₁ h₂⟩
    · rintro f s₁ ⟨hf, h₁⟩
      exact ⟨hf, [e], (List.prefix_cons_inj e).mpr List.nil_prefix, h₁⟩

end

end Operation

/-! ## What is lost -/

/-- Every event that is written is accounted for, whatever the sinks refuse. -/
structure AccountsForEvents (env : Environment) : Prop where
  /-- Where output goes to a sink, every event meets its fate: the sink is called, in order, with
  those that are passed on, the last of them perhaps held back as yet, and each refusal and each
  event that does not fit is reported, the refusal of a start tag for the node of the event that
  is dropped with it. Only the listener ends this early. -/
  emitted : ∀ (s : State) (t : Scope) (rest : List Scope) (d : Destination)
    (es : List (Output.Event × Option NodeId)), s.outlet.scopes = t :: rest → t.target = .sink d →
    (Operation.emitAll env es).Ensures s
      (fun _ s' => ∃ xs t', xs.map Emission.request = es ∧
        Operation.Accounted env d t rest xs t' s s')
      fun f s' => s'.record.Answered f ∧ ∃ xs t', xs.map Emission.request <+: es ∧
        Operation.Accounted env d t rest xs t' s s'
  /-- The end of a redirection is the end of its document: it too can be dropped. -/
  ended : ∀ (s : State) (t : Scope) (rest : List Scope) (d : Destination) (owner : Nat)
    (node : Option NodeId), s.outlet.scopes = t :: rest → t.target = .sink d →
    t.owner = some owner →
    (Operation.attempt env node (Writing.closeDocument env.surroundings owner)).Ensures s
      (fun _ s' => s'.outlet.scopes = rest ∧
        Operation.Met env d t .endDocument node s.record t.cleared s'.record)
      fun f s' => s'.record.Answered f ∧ s'.outlet.scopes = rest ∧
        Operation.Met env d t .endDocument node s.record t.cleared s'.record
  /-- A capture holds nothing back: what it does not take is reported, event by event. -/
  captured : ∀ (s : State) (c : TextSink) (owner : Option Nat) (rest : List Scope)
    (es : List (Output.Event × Option NodeId)),
    s.outlet.scopes = ⟨.capture c, owner, none, []⟩ :: rest →
    (Operation.emitAll env es).Ensures s
      (fun _ s' => Operation.Captured env c owner rest es s s')
      fun f s' => s'.record.Answered f ∧
        ∃ done, done <+: es ∧ Operation.Captured env c owner rest done s s'
  /-- For each start tag that a sink refuses, one event is dropped, and for nothing else. -/
  dropped : ∀ t xs t', Fated t xs t' → xs.filterMap Emission.dropped? =
    (xs.filterMap Emission.refused?).filter fun p => p.1.isOpening
  /-- So none is where every start tag is taken: then only those that do not fit stay behind. -/
  spared : ∀ t xs t', Fated t xs t' →
    (∀ p ∈ xs.filterMap Emission.refused?, p.1.isOpening = false) →
    ∀ x ∈ xs, x.call? = some x.event ∨ ∃ f, x.fate = .unfit f

/-- A sink that refuses a start tag is not called with the event after it, which has no report of
its own. Nothing else is lost: every other event is passed on, or is turned away with a report. -/
theorem accounts_for_events (env : Environment) : AccountsForEvents env where
  emitted := fun _ _ _ _ es ht hd => Operation.accounted_emitAll hd es ht
  ended := fun _ _ _ _ _ node ht hd howner => Operation.met_closeDocument ht hd howner node
  captured := fun _ _ _ _ es ht => Operation.captured_emitAll ht es
  dropped := fun _ _ _ h => h.filterMap_dropped?
  spared := by
    intro t xs t' h hnone x hx
    have hx := h.dropped?_eq_none hnone x hx
    obtain ⟨e, node, fate⟩ := x
    cases fate with
    | passed refusal => exact .inl rfl
    | dropped tag f => cases hx
    | unfit f => exact .inr ⟨f, rfl⟩

end StreamTransform
