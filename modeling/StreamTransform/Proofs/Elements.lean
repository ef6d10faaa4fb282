import StreamTransform.Proofs.Scopes

/-!
# Structured programs write complete documents

Without instructions for single tags every element of the output belongs to a
construct that is open. A scope that writes to a sink has open the elements of
the constructs within it, in their order, and its sink has got the start tags of
all of them but the one held back. So an end tag always finds its element, and
whatever was begun is complete when the document has ended.
-/

namespace StreamTransform

open Output

/-- An end tag that does not fit, or an element that is left open. -/
def Fault.OfElements : Fault → Prop
  | .outputUnclosed _ | .outputMismatch .. | .outputUnopened _ => True
  | _ => False

theorem Fault.ofElements_isStructural {f : Fault} (h : f.OfElements) : f.isStructural := by
  unfold OfElements at h
  split at h <;> first | rfl | exact h.elim

/-- Every sink takes whatever it is offered. -/
def Surroundings.Accepting (s : Surroundings) : Prop := ∀ d r e, s.sink d r e = none

/-- Where a scope writes to, if it does not capture. -/
def Output.Scope.destination? (t : Scope) : Option Destination :=
  match t.target with
  | .sink d => some d
  | .capture _ => none

theorem Output.Scope.destination?_eq {t : Scope} {d : Destination} :
    t.destination? = some d ↔ t.target = .sink d := by
  unfold destination?
  cases t.target <;> simp

theorem Output.Scope.destination?_eq_none {t : Scope} :
    t.destination? = none ↔ t.target.kind = .capture := by
  unfold destination?
  cases t.target <;> simp [Target.kind]

/-- The open elements whose start tags have left. -/
def Output.Scope.delivered (t : Scope) : List QName :=
  if t.pending.isSome then t.opened.tail else t.opened

/-- The scope that constructs write to and those around it, each with the elements that it has
open. What is captured has no elements. -/
def layers : List Construct → List ((Option NodeId × ScopeKind) × List QName)
  | [] => [((none, .document), [])]
  | .scope b k :: cs => ((some b, k), []) :: layers cs
  | .element n :: cs =>
    match layers cs with
    | ((b, .document), ns) :: ls => ((b, .document), n :: ns) :: ls
    | ls => ls

section
variable {cs : List Construct} {shape : Option NodeId × ScopeKind} {names : List QName}
  {ls : List ((Option NodeId × ScopeKind) × List QName)} {n : QName}

theorem layers_element (h : (shape, names) :: ls = layers cs) :
    layers (.element n :: cs) =
      (shape, match shape.2 with | .document => n :: names | .capture => names) :: ls := by
  obtain ⟨b, k⟩ := shape
  rw [layers, ← h]
  cases k <;> rfl

theorem layers_ne_nil (cs : List Construct) : layers cs ≠ [] := by
  induction cs with
  | nil => simp [layers]
  | cons c cs ih =>
    cases c with
    | scope b k => simp [layers]
    | element n =>
      rw [layers]
      split
      · simp
      · exact ih

/-- Taking the innermost element away. -/
theorem layers_of_element (h : (shape, names) :: ls = layers (.element n :: cs)) :
    match shape.2 with
    | .document => ∃ rest, names = n :: rest ∧ (shape, rest) :: ls = layers cs
    | .capture => (shape, names) :: ls = layers cs := by
  rw [layers] at h
  split at h
  · rename_i b ns ls' hcs
    obtain ⟨htop, rfl⟩ := List.cons.inj h
    obtain ⟨rfl, rfl⟩ := Prod.mk.inj htop
    exact ⟨ns, rfl, hcs.symm⟩
  · rename_i hne
    obtain ⟨b, k⟩ := shape
    cases k with
    | capture => exact h
    | document => exact absurd h.symm (hne b names ls)

end

namespace Stage

def layers : Stage → List ((Option NodeId × ScopeKind) × List QName)
  | .within cs => StreamTransform.layers cs
  | .before | .after => [((none, .document), [])]

/-- What a sink has got that is written to, when certain elements are delivered. -/
def Progress : Stage → List Output.Event → List QName → Prop
  | .before, es, _ => es = []
  | .within _, es, names => ∃ body, es = .startDocument :: body ∧ Unclosed body names
  | .after, es, _ => Complete es

end Stage

/-- The scopes have the elements of the constructs that are open, and what every sink has got fits
what is open. -/
structure FitsElements (st : Stage) (o : Outlet) : Prop where
  layered : o.scopes.map (fun t => (t.shape, t.opened)) = st.layers
  /-- What is held back is the start tag of the innermost element. -/
  held : ∀ t ∈ o.scopes, ∀ tag, t.pending = some tag →
    t.destination?.isSome ∧ t.opened.head? = some tag.1
  bottom : o.scopes.getLast?.bind Scope.destination? = some .main
  distinct : (o.scopes.filterMap Scope.destination?).Nodup
  known : ∀ t ∈ o.scopes, ∀ i, t.destination? = some (.document i) → i < o.record.documents.length
  underWay : ∀ t ∈ o.scopes, ∀ d, t.destination? = some d →
    st.Progress (o.record.taken d) t.delivered
  /-- What is not written to has got nothing or is complete. -/
  settled : ∀ d, (∀ t ∈ o.scopes, t.destination? ≠ some d) →
    o.record.taken d = [] ∨ Complete (o.record.taken d)
  fresh : ∀ i, o.record.documents.length ≤ i → o.record.taken (.document i) = []
  refused : o.record.OnlyRefused Fault.OfElements

namespace FitsElements

variable {st st' : Stage} {o : Outlet} {cs cs' : List Construct} {t : Scope} {r : List Scope}

/-- Something happens that no sink takes. -/
theorem recorded (hs : FitsElements st o) {r' : Record}
    (htaken : ∀ d, r'.taken d = o.record.taken d)
    (hdocuments : o.record.documents.length ≤ r'.documents.length)
    (hrefused : r'.OnlyRefused Fault.OfElements) : FitsElements st { o with record := r' } := by
  refine ⟨hs.layered, hs.held, hs.bottom, hs.distinct, ?_, ?_, ?_, ?_, hrefused⟩
  · exact fun t ht i hi => Nat.lt_of_lt_of_le (hs.known t ht i hi) hdocuments
  · exact fun t ht d hd => (htaken d).symm ▸ hs.underWay t ht d hd
  · exact fun d hd => (htaken d).symm ▸ hs.settled d hd
  · exact fun i hi => (htaken _).trans (hs.fresh i (Nat.le_trans hdocuments hi))

theorem noted (hs : FitsElements st o) (n : Note) : FitsElements st (o.after (.noted n)) :=
  hs.recorded (by simp) (Record.length_documents_le _ _) (hs.refused.cons (by simp))

theorem reported (hs : FitsElements st o) {d : Diagnostic} (answer : Option Fault)
    (hd : d.fault.OfElements → o.record.Refused d.fault) :
    FitsElements st (o.after (.reported d answer)) :=
  hs.recorded (by simp) (Record.length_documents_le _ _) (hs.refused.reported hd)

theorem resolved (hs : FitsElements st o) (href : String) (refusal : Option Fault) :
    FitsElements st (o.after (.resolved href refusal)) :=
  hs.recorded (by simp) (Record.length_documents_le _ _) (hs.refused.cons (by simp))

/-- The innermost scope is written to: its sink has got what makes progress, the others nothing. -/
theorem rewritten (hs : FitsElements st o) (t' : Scope) (ht : o.scopes = t :: r)
    (hdest : t'.destination? = t.destination?) {r' : Record}
    (hlayer : (t'.shape, t'.opened) :: r.map (fun t => (t.shape, t.opened)) = st'.layers)
    (hheld : ∀ tag, t'.pending = some tag →
      t'.destination?.isSome ∧ t'.opened.head? = some tag.1)
    (hprogress : ∀ d, t.destination? = some d → st'.Progress (r'.taken d) t'.delivered)
    (hrest : ∀ u ∈ r, ∀ es names, st.Progress es names → st'.Progress es names)
    (hothers : ∀ d, t.destination? ≠ some d → r'.taken d = o.record.taken d)
    (hdocuments : r'.documents = o.record.documents)
    (hrefused : r'.OnlyRefused Fault.OfElements) : FitsElements st' ⟨t' :: r, r'⟩ := by
  obtain ⟨-, hheld₀, hbottom, hdistinct, hknown, hunder, hsettled, hfresh, -⟩ := hs
  rw [ht] at hheld₀ hbottom hdistinct hknown hunder hsettled
  have hscopes : (t' :: r).filterMap Scope.destination? =
      (t :: r).filterMap Scope.destination? := by
    rw [List.filterMap_cons, List.filterMap_cons, hdest]
  refine ⟨hlayer, ?_, ?_, hscopes ▸ hdistinct, ?_, ?_, ?_, ?_, hrefused⟩
  · exact List.forall_mem_cons.mpr ⟨hheld, (List.forall_mem_cons.mp hheld₀).2⟩
  · cases r with
    | nil => simpa [hdest] using hbottom
    | cons u us => simpa using hbottom
  · rw [hdocuments]
    refine List.forall_mem_cons.mpr ⟨?_, (List.forall_mem_cons.mp hknown).2⟩
    rw [hdest]
    exact (List.forall_mem_cons.mp hknown).1
  · refine List.forall_mem_cons.mpr ⟨fun d hd => hprogress d (hdest ▸ hd), fun u hu d hd => ?_⟩
    -- Another scope writes to another sink.
    have hne : t.destination? ≠ some d := by
      intro hd'
      rw [List.filterMap_cons, hd'] at hdistinct
      exact (List.nodup_cons.mp hdistinct).1 (List.mem_filterMap.mpr ⟨u, hu, hd⟩)
    rw [hothers d hne]
    exact hrest u hu _ _ ((List.forall_mem_cons.mp hunder).2 u hu d hd)
  · intro d hd
    obtain ⟨htop, hd⟩ := List.forall_mem_cons.mp hd
    rw [hdest] at htop
    rw [hothers d htop]
    exact hsettled d (List.forall_mem_cons.mpr ⟨htop, hd⟩)
  · intro i hi
    rw [hdocuments] at hi
    have hne : t.destination? ≠ some (.document i) := fun hd =>
      absurd ((List.forall_mem_cons.mp hknown).1 i hd) (by omega)
    exact (hothers _ hne).trans (hfresh i hi)

/-- The innermost scope changes, and nothing is written. -/
theorem changed (hs : FitsElements (.within cs) o) (t' : Scope) (ht : o.scopes = t :: r)
    (hdest : t'.destination? = t.destination?) (hdelivered : t'.delivered = t.delivered)
    (hlayer : (t'.shape, t'.opened) :: r.map (fun t => (t.shape, t.opened)) = layers cs')
    (hheld : ∀ tag, t'.pending = some tag →
      t'.destination?.isSome ∧ t'.opened.head? = some tag.1) :
    FitsElements (.within cs') { o with scopes := t' :: r } := by
  refine hs.rewritten t' ht hdest hlayer hheld ?_ (fun _ _ _ _ h => h) (fun _ _ => rfl) rfl
    hs.refused
  intro d hd
  rw [hdelivered]
  exact hs.underWay t (by simp [ht]) d hd

/-- The sink of the innermost scope takes an event. -/
theorem sent (hs : FitsElements st o) (t' : Scope) (ht : o.scopes = t :: r) {d : Destination}
    (hd : t.destination? = some d) (hdest : t'.destination? = some d) (e : Output.Event)
    (hlayer : (t'.shape, t'.opened) :: r.map (fun t => (t.shape, t.opened)) = st'.layers)
    (hheld : ∀ tag, t'.pending = some tag → t'.opened.head? = some tag.1)
    (hprogress : st'.Progress (o.record.taken d ++ [e]) t'.delivered)
    (hrest : ∀ u ∈ r, ∀ es names, st.Progress es names → st'.Progress es names) :
    FitsElements st' ⟨t' :: r, .sent d e none :: o.record⟩ := by
  refine hs.rewritten t' ht (hdest.trans hd.symm) hlayer ?_ ?_ hrest ?_ ?_
    (hs.refused.cons (by simp))
  · exact fun tag htag => ⟨by simp [hdest], hheld tag htag⟩
  · intro d' hd'
    obtain rfl := Option.some.inj (hd.symm.trans hd')
    rw [Record.taken_sent]
    exact hprogress
  · exact fun d' hd' =>
      Record.taken_sent_of_ne (fun heq => hd' (hd.trans (congrArg some heq))) _ _ _
  · exact Record.documents_cons (by simp) _

/-! ## What is written -/

theorem exists_top (hs : FitsElements st o) : ∃ t r, o.scopes = t :: r := by
  have hbottom := hs.bottom
  cases ht : o.scopes with
  | nil =>
    rw [ht] at hbottom
    cases hbottom
  | cons t r => exact ⟨t, r, rfl⟩

theorem layer_of_top (hs : FitsElements st o) (ht : o.scopes = t :: r) :
    (t.shape, t.opened) :: r.map (fun t => (t.shape, t.opened)) = st.layers := by
  rw [← hs.layered, ht, List.map_cons]

/-- Where no element is open no start tag is held back. -/
theorem pending_of_nil (hs : FitsElements st o) (ht : t ∈ o.scopes) (hopened : t.opened = []) :
    t.pending = none := by
  cases hp : t.pending with
  | none => rfl
  | some tag =>
    have hhead := (hs.held t ht tag hp).2
    rw [hopened] at hhead
    cases hhead

variable {s : Surroundings} {d : Destination} {e : Output.Event}

/-- With nothing held back everything that is open is delivered. -/
theorem delivered_of_none (h : t.pending = none) : t.delivered = t.opened := by
  rw [Scope.delivered, h]
  rfl

/-- The start tag that is held back leaves. -/
theorem flushed (hs : FitsElements (.within cs) o) (ha : s.Accepting) :
    (Writing.flush s).Ensures o
      (fun _ o' => FitsElements (.within cs) o' ∧ ∀ t r, o'.scopes = t :: r → t.pending = none)
      fun _ _ => False := by
  obtain ⟨t, r, ht⟩ := hs.exists_top
  unfold Writing.flush
  rw [Writing.ensures_bind, Writing.ensures_top, ht]
  cases hp : t.pending with
  | none =>
    simp only [hp]
    refine ⟨hs, fun t' r' ht' => ?_⟩
    obtain ⟨rfl, -⟩ := List.cons.inj (ht.symm.trans ht')
    exact hp
  | some tag =>
    obtain ⟨hsome, hhead⟩ := hs.held t (by simp [ht]) tag hp
    obtain ⟨d, hd⟩ := Option.isSome_iff_exists.mp hsome
    simp only [hp, Writing.ensures_bind, Writing.ensures_setTop]
    rw [Writing.ensures_deliver_sink (ha d) (t := { t with pending := none }) rfl
      (Scope.destination?_eq.mp hd)]
    have hfits : FitsElements (.within cs)
        ⟨{ t with pending := none } :: r, .sent d (.opening tag.1 tag.2) none :: o.record⟩ := by
      have hlayer := hs.layer_of_top ht
      refine hs.sent { t with pending := none } ht hd hd _ hlayer (by simp) ?_ fun _ _ _ _ h => h
      obtain ⟨body, hbody, hopen⟩ := hs.underWay t (by simp [ht]) d hd
      obtain ⟨names, hnames⟩ := List.head?_eq_some_iff.mp hhead
      refine ⟨body ++ [.opening tag.1 tag.2], by rw [hbody]; rfl, ?_⟩
      rw [delivered_of_none rfl]
      simp only [Scope.delivered, hp, Option.isSome_some, if_true, hnames, List.tail_cons] at hopen ⊢
      exact hopen.opening tag.1 tag.2
    rw [ht]
    refine ⟨hfits, fun t' r' ht' => ?_⟩
    obtain ⟨rfl, -⟩ := List.cons.inj ht'
    rfl

theorem excused_of_not {f : Fault} (h : ¬ f.OfElements) : f.OfElements → o.record.Refused f :=
  fun hf => absurd hf h

/-- What is captured is text; elements are rejected. -/
theorem captured (hs : FitsElements (.within cs) o) (ht : o.scopes = t :: r)
    (hc : t.target.kind = .capture) (e : Output.Event) :
    (Writing.deliver s e).Leaves Fault.OfElements (FitsElements (.within cs)) o := by
  unfold Writing.Leaves Writing.deliver
  rw [Writing.ensures_bind, Writing.ensures_top, ht]
  simp only
  split
  · rename_i d hd
    rw [hd] at hc
    cases hc
  · rename_i c hcapture
    split
    · rename_i f hf
      obtain ⟨what, rfl⟩ := TextSink.rejected_of_refusal hf
      exact ⟨hs, excused_of_not id⟩
    · rw [Writing.ensures_setTop, ht]
      have hnone : t.destination? = none := Scope.destination?_eq_none.mpr hc
      have hlayer := hs.layer_of_top ht
      refine hs.changed _ ht hnone.symm rfl ?_ fun tag htag => ?_
      · rwa [Scope.shape, hc] at hlayer
      · have hsome := (hs.held t (by simp [ht]) tag htag).1
        rw [hnone] at hsome
        cases hsome

/-- The sink of the innermost scope takes an event with nothing held back. -/
theorem delivered (hs : FitsElements (.within cs) o) (ha : s.Accepting) (ht : o.scopes = t :: r)
    (hd : t.destination? = some d) (hp : t.pending = none) (e : Output.Event)
    (he : ∀ body, Unclosed body t.opened → Unclosed (body ++ [e]) t.opened) :
    (Writing.deliver s e).Leaves Fault.OfElements (FitsElements (.within cs)) o := by
  refine (Writing.ensures_deliver_sink (ha d) ht (Scope.destination?_eq.mp hd)).mpr ?_
  obtain ⟨body, hbody, hopen⟩ := hs.underWay t (by simp [ht]) d hd
  have hfits := hs.sent t ht hd hd e (hs.layer_of_top ht) (by simp [hp])
    ⟨body ++ [e], by rw [hbody]; rfl, by
      rw [delivered_of_none hp] at hopen ⊢
      exact he body hopen⟩ fun _ _ _ _ h => h
  rwa [← ht] at hfits

/-! ### Events -/

/-- Nothing else matters about the constructs than the layers that they make up. -/
theorem relayered (hs : FitsElements (.within cs) o) (h : layers cs' = layers cs) :
    FitsElements (.within cs') o :=
  ⟨hs.layered.trans h.symm, hs.held, hs.bottom, hs.distinct, hs.known, hs.underWay, hs.settled,
    hs.fresh, hs.refused⟩

/-- What is written after the start tag that was held back. -/
theorem after_flush (hs : FitsElements (.within cs) o) (ha : s.Accepting)
    {P : Outlet → Prop} {k : Scope → Writing Unit}
    (hk : ∀ {o' : Outlet} {t : Scope} {r : List Scope}, FitsElements (.within cs) o' →
      o'.scopes = t :: r → t.pending = none → (k t).Leaves Fault.OfElements P o') :
    (do Writing.flush s; k (← Writing.top)).Leaves Fault.OfElements P o := by
  refine Writing.ensures_bind.mpr ((hs.flushed ha).mono ?_ fun _ _ hfalse => hfalse.elim)
  rintro - o' ⟨hs', hflushed⟩
  obtain ⟨t, r, ht⟩ := hs'.exists_top
  rw [Writing.ensures_bind, Writing.ensures_top, ht]
  exact hk hs' ht (hflushed t r ht)

theorem leaves_plain (hs : FitsElements (.within cs) o) (ha : s.Accepting) (he : e.isPlain) :
    (Writing.emit s e).Leaves Fault.OfElements (FitsElements (.within cs)) o := by
  rw [Writing.emit_of_isPlain he]
  refine hs.after_flush ha fun {o' t r} hs' ht hp => ?_
  cases hd : t.destination? with
  | none => exact hs'.captured ht (Scope.destination?_eq_none.mp hd) e
  | some d => exact hs'.delivered ha ht hd hp e fun _ h => h.plain he

theorem leaves_opening (hs : FitsElements (.within cs) o) (ha : s.Accepting) (n : QName)
    (as : List Attribute) :
    (Writing.emit s (.opening n as)).Leaves Fault.OfElements
      (FitsElements (.within (.element n :: cs))) o := by
  unfold Writing.emit
  refine hs.after_flush ha fun {o' t r} hs' ht hp => ?_
  have hlayer := hs'.layer_of_top ht
  have hopened := layers_element (n := n) hlayer
  cases htarget : t.target with
  | capture c =>
    have hkind : t.target.kind = .capture := by rw [htarget]; rfl
    rw [Scope.shape, hkind] at hopened hlayer
    simp only
    exact (hs'.relayered (hopened.trans hlayer)).captured ht hkind _
  | sink d =>
    rw [Scope.shape, htarget] at hopened
    simp only
    refine Writing.ensures_setTop.mpr ?_
    rw [ht]
    refine hs'.changed _ ht (Scope.destination?_eq.mpr htarget).symm
      (by simp [Scope.delivered, hp]) hopened.symm fun tag htag => ?_
    obtain rfl := Option.some.inj htag
    exact ⟨rfl, rfl⟩

theorem leaves_closing {n : QName} (hs : FitsElements (.within (.element n :: cs)) o)
    (ha : s.Accepting) :
    (Writing.emit s (.closing n)).Leaves Fault.OfElements (FitsElements (.within cs)) o := by
  unfold Writing.emit
  refine hs.after_flush ha fun {o' t r} hs' ht hp => ?_
  have hlayer := hs'.layer_of_top ht
  have hopened := layers_of_element hlayer
  cases htarget : t.target with
  | capture c =>
    have hkind : t.target.kind = .capture := by rw [htarget]; rfl
    rw [Scope.shape, hkind] at hopened hlayer
    simp only
    exact (hs'.relayered (hopened.symm.trans hlayer)).captured ht hkind _
  | sink d =>
    rw [Scope.shape, htarget] at hopened
    obtain ⟨names, hnames, hrest⟩ := hopened
    have hd : t.destination? = some d := Scope.destination?_eq.mpr htarget
    simp only [hnames]
    rw [if_pos (by simp [QName.same]), Writing.Leaves, Writing.ensures_bind,
      Writing.ensures_setTop, Writing.ensures_deliver_sink (ha d) (r := o'.scopes.tail) rfl rfl]
    obtain ⟨body, hbody, hopen⟩ := hs'.underWay t (by simp [ht]) d hd
    rw [delivered_of_none hp, hnames] at hopen
    rw [ht]
    refine hs'.sent _ ht hd rfl _ hrest (by simp [hp]) ?_ fun _ _ _ _ h => h
    refine ⟨body ++ [.closing n], by rw [hbody]; rfl, ?_⟩
    simp only [Scope.delivered, hp]
    exact hopen.closing

theorem leaves_addAttribute (hs : FitsElements (.within cs) o) (a : Attribute) :
    (Writing.addAttribute a).Leaves Fault.OfElements (FitsElements (.within cs)) o := by
  obtain ⟨t, r, ht⟩ := hs.exists_top
  unfold Writing.Leaves Writing.addAttribute
  rw [Writing.ensures_bind, Writing.ensures_top, ht]
  cases hp : t.pending with
  | none =>
    simp only [hp]
    exact ⟨hs, excused_of_not id⟩
  | some tag =>
    simp only [hp]
    obtain ⟨hsome, hhead⟩ := hs.held t (by simp [ht]) tag hp
    have hlayer := hs.layer_of_top ht
    rw [Writing.ensures_setTop, ht]
    refine hs.changed _ ht rfl (by simp [Scope.delivered, hp]) hlayer fun tag' htag => ?_
    obtain rfl := Option.some.inj htag
    exact ⟨hsome, hhead⟩

/-- Outside of every construct there is the main output alone, with nothing open. -/
theorem alone (hs : FitsElements st o) (hst : st.layers = [((none, .document), [])]) :
    ∃ t, o.scopes = [t] ∧ t.opened = [] ∧ t.pending = none ∧ t.destination? = some .main := by
  have hlayers := hs.layered.trans hst
  obtain ⟨t, ht, hlayer⟩ := List.map_eq_singleton_iff.mp hlayers
  have hopened : t.opened = [] := (Prod.mk.inj hlayer).2
  have hbottom := hs.bottom
  rw [ht] at hbottom
  exact ⟨t, ht, hopened, hs.pending_of_nil (by simp [ht]) hopened, hbottom⟩

/-- The mark of the start, or of the end, goes to the main output. -/
theorem marked (hs : FitsElements st o) (ha : s.Accepting) (e : Output.Event)
    (he : e = .startDocument ∨ e = .endDocument) (hst : st.layers = [((none, .document), [])])
    (hst' : st'.layers = [((none, .document), [])])
    (hprogress : ∀ es, st.Progress es [] → st'.Progress (es ++ [e]) []) :
    (Writing.emit s e).Leaves Fault.OfElements (FitsElements st') o := by
  obtain ⟨t, ht, hopened, hp, hd⟩ := hs.alone hst
  have hlayer := hs.layer_of_top ht
  have hdelivered : t.delivered = [] := (delivered_of_none hp).trans hopened
  have hunder := hs.underWay t (by simp [ht]) .main hd
  rw [hdelivered] at hunder
  have hfits := hs.sent t ht hd hd e (hlayer.trans (hst.trans hst'.symm)) (by simp [hp])
    (hdelivered.symm ▸ hprogress _ hunder) (by simp)
  have htop : ∀ {ok : Scope → Outlet → Prop} {failed : Fault → Outlet → Prop},
      Writing.top.Ensures o ok failed ↔ ok t o := by
    intro ok failed
    rw [Writing.ensures_top, ht]
  rw [← ht] at hfits
  have hdeliver : (Writing.deliver s e).Leaves Fault.OfElements (FitsElements st') o :=
    (Writing.ensures_deliver_sink (ha _) ht (Scope.destination?_eq.mp hd)).mpr hfits
  unfold Writing.Leaves Writing.emit Writing.flush
  simp only [Writing.ensures_bind, htop, hp, Writing.ensures_pure]
  rcases he with rfl | rfl
  · exact hdeliver
  · rw [Writing.ensures_bind, Writing.ensures_checkClosed, hopened]
    exact hdeliver

/-! ## Scopes that are opened and closed -/

/-- A new scope captures, or writes to a sink that has just got the mark of the start. -/
theorem pushed (hs : FitsElements (.within cs) o) (target : Target) (b : NodeId) {r' : Record}
    (hstart : ∀ d, (Scope.fresh target (some b)).destination? = some d →
      o.record.taken d = [] ∧ r'.taken d = [.startDocument])
    (hknown : ∀ i, (Scope.fresh target (some b)).destination? = some (.document i) →
      i < o.record.documents.length)
    (hothers : ∀ d, (Scope.fresh target (some b)).destination? ≠ some d →
      r'.taken d = o.record.taken d)
    (hdocuments : r'.documents = o.record.documents)
    (hrefused : r'.OnlyRefused Fault.OfElements) :
    FitsElements (.within (.scope b target.kind :: cs))
      ⟨.fresh target (some b) :: o.scopes, r'⟩ := by
  -- What is under way has got something, so the new scope does not write there.
  have hnew : ∀ t ∈ o.scopes, ∀ d, t.destination? = some d →
      (Scope.fresh target (some b)).destination? ≠ some d := by
    intro t ht d hd hd'
    obtain ⟨body, hbody, -⟩ := hs.underWay t ht d hd
    rw [(hstart d hd').1] at hbody
    cases hbody
  constructor
  case layered =>
    rw [List.map_cons, hs.layered]
    rfl
  case held => exact List.forall_mem_cons.mpr ⟨by simp [Scope.fresh], hs.held⟩
  case bottom =>
    obtain ⟨t, r, ht⟩ := hs.exists_top
    have hbottom := hs.bottom
    rw [ht] at hbottom ⊢
    simpa using hbottom
  case distinct =>
    rw [List.filterMap_cons]
    cases hd : (Scope.fresh target (some b)).destination? with
    | none => exact hs.distinct
    | some d =>
      refine List.nodup_cons.mpr ⟨fun hmem => ?_, hs.distinct⟩
      obtain ⟨t, ht, hd'⟩ := List.mem_filterMap.mp hmem
      exact hnew t ht d hd' hd
  case known =>
    rw [hdocuments]
    exact List.forall_mem_cons.mpr ⟨hknown, hs.known⟩
  case underWay =>
    refine List.forall_mem_cons.mpr ⟨fun d hd => ?_, fun t ht d hd => ?_⟩
    · exact ⟨[], (hstart d hd).2, .none .nil⟩
    · rw [hothers d (hnew t ht d hd)]
      exact hs.underWay t ht d hd
  case settled =>
    intro d hd
    obtain ⟨hne, hd⟩ := List.forall_mem_cons.mp hd
    rw [hothers d hne]
    exact hs.settled d hd
  case fresh =>
    intro i hi
    rw [hdocuments] at hi
    rw [hothers _ fun hd => absurd (hknown i hd) (by omega)]
    exact hs.fresh i hi
  case refused => exact hrefused

/-- The innermost scope is taken away; what it wrote to is complete. -/
theorem popped {b : NodeId} {k : ScopeKind} (hs : FitsElements (.within (.scope b k :: cs)) o)
    (ht : o.scopes = t :: r) {r' : Record}
    (hdone : ∀ d, t.destination? = some d → Complete (r'.taken d))
    (hothers : ∀ d, t.destination? ≠ some d → r'.taken d = o.record.taken d)
    (hdocuments : r'.documents = o.record.documents)
    (hrefused : r'.OnlyRefused Fault.OfElements) : FitsElements (.within cs) ⟨r, r'⟩ := by
  obtain ⟨hlayered, hheld, hbottom, hdistinct, hknown, hunder, hsettled, hfresh, -⟩ := hs
  rw [ht] at hlayered hheld hbottom hdistinct hknown hunder hsettled
  have hlayers : r.map (fun t => (t.shape, t.opened)) = layers cs := (List.cons.inj hlayered).2
  have hne : ∀ u ∈ r, ∀ d, u.destination? = some d → t.destination? ≠ some d := by
    intro u hu d hd hd'
    rw [List.filterMap_cons, hd'] at hdistinct
    exact (List.nodup_cons.mp hdistinct).1 (List.mem_filterMap.mpr ⟨u, hu, hd⟩)
  constructor
  case layered => exact hlayers
  case held => exact (List.forall_mem_cons.mp hheld).2
  case bottom =>
    cases r with
    | nil => exact absurd hlayers.symm (layers_ne_nil cs)
    | cons u us => simpa using hbottom
  case distinct => exact hdistinct.sublist ((List.sublist_cons_self t r).filterMap _)
  case known =>
    rw [hdocuments]
    exact (List.forall_mem_cons.mp hknown).2
  case underWay =>
    intro u hu d hd
    rw [hothers d (hne u hu d hd)]
    exact (List.forall_mem_cons.mp hunder).2 u hu d hd
  case settled =>
    intro d hd
    by_cases htop : t.destination? = some d
    · exact .inr (hdone d htop)
    · rw [hothers d htop]
      exact hsettled d (List.forall_mem_cons.mpr ⟨htop, hd⟩)
  case fresh =>
    intro i hi
    rw [hdocuments] at hi
    have htop : t.destination? ≠ some (.document i) := fun hd =>
      absurd ((List.forall_mem_cons.mp hknown).1 i hd) (by omega)
    rw [hothers _ htop]
    exact hfresh i hi
  case refused => exact hrefused

/-- The scope of the innermost construct is on top, with no element open. -/
theorem top_of_scope {b : NodeId} {k : ScopeKind}
    (hs : FitsElements (.within (.scope b k :: cs)) o) :
    ∃ t r, o.scopes = t :: r ∧ t.owner = some b ∧ t.target.kind = k ∧ t.opened = [] ∧
      t.pending = none := by
  obtain ⟨t, r, ht⟩ := hs.exists_top
  obtain ⟨htop, -⟩ := List.cons.inj (hs.layer_of_top ht)
  obtain ⟨hshape, hopened⟩ := Prod.mk.inj htop
  obtain ⟨howner, hkind⟩ := Prod.mk.inj hshape
  exact ⟨t, r, ht, howner, hkind, hopened, hs.pending_of_nil (by simp [ht]) hopened⟩

theorem attempted_openCapture (hs : FitsElements (.within cs) o) (b : NodeId) (context : String) :
    (Writing.openCapture b context).Attempted o fun opened =>
      FitsElements (.within (if opened.isSome then .scope b .capture :: cs else cs)) := by
  unfold Writing.Attempted Writing.openCapture
  simp only [Writing.ensures_bind, Writing.ensures_get]
  split
  · intro d answer hd
    exact hs.reported answer (by rw [hd]; exact excused_of_not id)
  · exact Writing.ensures_push.mpr (hs.pushed (.capture _) b
      (by simp [Scope.destination?, Scope.fresh]) (by simp [Scope.destination?, Scope.fresh]) (fun _ _ => rfl) rfl hs.refused)

theorem attempted_closeCapture {b : NodeId}
    (hs : FitsElements (.within (.scope b .capture :: cs)) o) :
    (Writing.closeCapture b).Attempted o fun text o' =>
      text.isSome ∧ FitsElements (.within cs) o' := by
  obtain ⟨t, r, ht, howner, hkind, -, -⟩ := hs.top_of_scope
  unfold Writing.Attempted Writing.closeCapture
  rw [Writing.ensures_bind, Writing.ensures_popOwned ht howner]
  split
  · have hnone : t.destination? = none := Scope.destination?_eq_none.mpr hkind
    exact ⟨rfl, hs.popped ht (by simp [hnone]) (fun _ _ => rfl) rfl hs.refused⟩
  · rename_i d hd
    rw [hd] at hkind
    cases hkind

theorem attempted_openDocument (hs : FitsElements (.within cs) o) (ha : s.Accepting) (b : NodeId)
    (href : String) :
    (Writing.openDocument s b href).Attempted o fun opened =>
      FitsElements (.within (if opened.isSome then .scope b .document :: cs else cs)) := by
  have failed : ∀ {f : Fault} {o' : Outlet}, FitsElements (.within cs) o' →
      (f.OfElements → o'.record.Refused f) → ∀ d answer, d.fault = f →
      FitsElements (.within cs) (o'.after (.reported d answer)) :=
    fun hs' hf d answer hd => hs'.reported answer (by rw [hd]; exact hf)
  unfold Writing.Attempted Writing.openDocument
  rw [Writing.ensures_bind, Writing.ensures_resolve]
  split
  · exact failed hs (excused_of_not id)
  · split
    · exact failed (hs.resolved _ _) fun _ => ⟨_, rfl, rfl⟩
    · have hresolved := hs.resolved href none
      simp only [Writing.ensures_bind, Writing.ensures_get]
      split
      · exact failed hresolved (excused_of_not id)
      · rw [Writing.ensures_bind, Writing.ensures_send, ha]
        refine Writing.ensures_push.mpr (hresolved.pushed (.sink _) b ?_ ?_ ?_ ?_ ?_)
        · rintro d ⟨⟩
          have hnone : (o.after (.resolved href none)).record.taken
              (.document o.record.documents.length) = [] :=
            (Record.taken_resolved _ _ _ _).trans (hs.fresh _ (Nat.le_refl _))
          exact ⟨hnone, by rw [Outlet.record_after, Record.taken_sent, hnone]; rfl⟩
        · rintro i ⟨⟩
          exact Nat.lt_succ_self _
        · exact fun d hd => Record.taken_sent_of_ne (fun heq => hd (congrArg some heq)) _ _ _
        · exact Record.documents_cons (by simp) _
        · exact hresolved.refused.cons (by simp)

theorem attempted_closeDocument {b : NodeId}
    (hs : FitsElements (.within (.scope b .document :: cs)) o) (ha : s.Accepting) :
    (Writing.closeDocument s b).Attempted o fun _ => FitsElements (.within cs) := by
  obtain ⟨t, r, ht, howner, hkind, hopened, hp⟩ := hs.top_of_scope
  unfold Writing.Attempted Writing.closeDocument
  rw [Writing.ensures_bind, Writing.ensures_popOwned ht howner]
  split
  · rename_i c hc
    rw [hc] at hkind
    cases hkind
  · rename_i d htarget
    simp only [hp]
    rw [Writing.ensures_bind, Writing.ensures_checkClosed, hopened]
    simp only
    rw [Writing.ensures_send, ha]
    have hd : t.destination? = some d := Scope.destination?_eq.mpr htarget
    refine hs.popped ht ?_ ?_ (Record.documents_cons (by simp) _) (hs.refused.cons (by simp))
    · intro d' hd'
      obtain rfl := Option.some.inj (hd.symm.trans hd')
      obtain ⟨body, hbody, hopen⟩ := hs.underWay t (by simp [ht]) d hd
      rw [delivered_of_none hp, hopened] at hopen
      exact ⟨body, by rw [Record.taken_sent, hbody], hopen.nested⟩
    · exact fun d' hd' =>
        Record.taken_sent_of_ne (fun heq => hd' (hd.trans (congrArg some heq))) _ _ _

theorem attempted {α : Type} {w : Writing α}
    (h : w.Leaves Fault.OfElements (FitsElements st) o) :
    w.Attempted o fun _ => FitsElements st :=
  h.attempted fun _ _ answer hs hd => hs.reported answer hd

end FitsElements

theorem account_elements {env : Environment} (hp : env.program.Structured)
    (ha : env.surroundings.Accepting) : Account env FitsElements where
  noted n hs := hs.noted n
  reported _ answer hd hs := hs.reported answer fun hk =>
    absurd (Fault.ofElements_isStructural hk) (by simp [hd])
  plain _ he hs := FitsElements.attempted (hs.leaves_plain ha he)
  addAttribute a hs := FitsElements.attempted (hs.leaves_addAttribute a)
  opening n as hs := FitsElements.attempted (hs.leaves_opening ha n as)
  closing _ hs := FitsElements.attempted (hs.leaves_closing ha)
  single h := absurd hp h
  openCapture b context hs := hs.attempted_openCapture b context
  closeCapture _ hs := hs.attempted_closeCapture
  openDocument b href hs := hs.attempted_openDocument ha b href
  closeDocument _ hs := hs.attempted_closeDocument ha
  started hs := FitsElements.attempted <| hs.marked ha _ (.inl rfl) rfl rfl fun es hes =>
    ⟨[], by rw [show es = [] from hes]; rfl, .none .nil⟩
  ended hs := FitsElements.attempted <| hs.marked ha _ (.inr rfl) rfl rfl
    fun _ ⟨body, hes, hbody⟩ => ⟨body, by rw [hes], hbody.nested⟩
  initial := by
    constructor
    case layered => rfl
    case bottom => rfl
    case refused => exact Record.onlyRefused_nil _
    all_goals simp [Outlet.initial, Scope.fresh, Scope.destination?, Stage.Progress]

/-! ## Completeness -/

structure OutputComplete (env : Environment) : Prop where
  /-- No end tag is found not to fit, and no element to be left open. -/
  unreported : ∀ fuel is, Record.OnlyRefused Fault.OfElements
    ((State.initial env.program).afterCalls env fuel is).record
  /-- After the end of the document the main output is complete, and so is every other document of
  which anything was written. -/
  complete : ∀ fuel is s, ((State.initial env.program).afterCalls env fuel is).receive env fuel
      .endDocument = (.completed, s) →
    Complete (s.record.taken .main) ∧ ∀ d, s.record.taken d ≠ [] → Complete (s.record.taken d)

/-- A program without instructions for single tags writes complete, well-nested documents. -/
theorem output_complete {ds : List Script.Declaration} {env : Environment}
    (h : Script.build ds = .ok env.program) (hp : env.program.Structured)
    (ha : env.surroundings.Accepting) : OutputComplete env := by
  have hw : env.program.WellNested := Script.wellNested_of_build h
  have haccount := account_elements hp ha
  constructor
  case unreported =>
    intro fuel is
    obtain ⟨st, hs⟩ := haccount.accounted_afterCalls hw fuel is
    exact hs.refused
  case complete =>
    intro fuel is s hc
    have hs : FitsElements .after s.outlet := haccount.fits_after hw hc
    obtain ⟨t, ht, -, -, hd⟩ := hs.alone rfl
    have hmain : Complete (s.record.taken .main) := hs.underWay t (by simp [ht]) .main hd
    refine ⟨hmain, fun d hne => ?_⟩
    by_cases hdmain : d = .main
    · exact hdmain ▸ hmain
    · refine (hs.settled d ?_).resolve_left hne
      rw [ht, List.forall_mem_singleton, hd]
      exact fun heq => hdmain (Option.some.inj heq).symm

theorem structured_gathering : gathering.program.Structured :=
  Program.structured_of_all (by decide +kernel)

/-- The text that was captured while the template was suspended stands in the element. -/
theorem output_complete_gathering : OutputComplete gathering ∧
    ∃ s, ((State.initial gathering.program).afterCalls gathering 40
        (.startDocument :: gatheringCalls)).receive gathering 40 .endDocument = (.completed, s) ∧
      Complete (s.record.taken .main) ∧
      s.record.taken .main = [.startDocument, .opening (.simple "r") [], .characters "x",
        .closing (.simple "r"), .endDocument] := by
  have haccepting : gathering.surroundings.Accepting := fun _ _ _ => rfl
  have hcomplete : OutputComplete gathering :=
    output_complete build_gathering structured_gathering haccepting
  have hcompleted : (((State.initial gathering.program).afterCalls gathering 40
      (.startDocument :: gatheringCalls)).receive gathering 40 .endDocument).1.isCompleted := by
    decide +kernel
  have hrun := eq_of_isCompleted hcompleted
  exact ⟨hcomplete, _, hrun, (hcomplete.complete _ _ _ hrun).1, by decide +kernel⟩

end StreamTransform
