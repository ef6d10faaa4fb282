import StreamTransform.Proofs.Lasting
import StreamTransform.Proofs.Nesting
import Mathlib.Logic.Relation

/-!
# How redirections begin

A document that the resolver yields is started at once, once, and before anything
else is written to it. The one exception is an instruction whose own redirection
is still open: it is refused and its content skipped, but only after the resolver
was asked, so the document that was had for it is never started. The scopes are
left as they were.
-/

namespace StreamTransform

open Output

/-! ## What writes do to scopes -/

namespace Output

/-- What a write does, once documents are started: the innermost scope changes, its sink is called,
a capture is opened, the innermost scope goes away. -/
inductive Outlet.Move : Outlet → Outlet → Prop
  | changed {o : Outlet} {t t' : Scope} {r : List Scope} : o.scopes = t :: r →
      t'.destination? = t.destination? → Move o { o with scopes := t' :: r }
  | sent {o : Outlet} {t : Scope} {r : List Scope} {d : Destination} {e : Event}
      (refusal : Option Fault) : o.scopes = t :: r → t.destination? = some d →
      e ≠ .startDocument → Move o (o.after (.sent d e refusal))
  | captured (o : Outlet) (c : TextSink) (owner : Nat) :
      Move o { o with scopes := .fresh (.capture c) (some owner) :: o.scopes }
  | popped {o : Outlet} {t : Scope} {r : List Scope} : o.scopes = t :: r →
      Move o { o with scopes := r }

abbrev Outlet.Moves : Outlet → Outlet → Prop := Relation.ReflTransGen Outlet.Move

namespace Writing

variable {α β : Type} {s : Surroundings} {o : Outlet} {t t' : Scope} {r : List Scope}

/-- A write that is made up of moves. -/
def Moving (w : Writing α) : Prop := ∀ o, w.Comes o o.Moves

theorem comes_moving {w : Writing α} {k : α → Writing β} (h : w.Comes o o.Moves)
    (hk : ∀ a, Moving (k a)) : (w >>= k).Comes o o.Moves :=
  ensures_bind.mpr (h.mono
    (fun a o₁ h₁ => (hk a o₁).mono (fun _ _ h₂ => h₁.trans h₂) fun _ _ h₂ => h₁.trans h₂)
    fun _ _ h₁ => h₁)

theorem moving_bind {w : Writing α} {k : α → Writing β} (hw : Moving w) (hk : ∀ a, Moving (k a)) :
    Moving (w >>= k) := fun o => comes_moving (hw o) hk

/-- The innermost scope is read. -/
theorem moving_top {k : Scope → Writing α}
    (hk : ∀ o t r, o.scopes = t :: r → (k t).Comes o o.Moves) : Moving (top >>= k) := by
  intro o
  unfold Comes
  rw [ensures_bind, ensures_top]
  cases ht : o.scopes with
  | nil => exact .refl
  | cons t r => exact hk o t r ht

theorem comes_setTop (ht : o.scopes = t :: r) (hd : t'.destination? = t.destination?) :
    (setTop t').Comes o o.Moves := by
  unfold Comes
  rw [ensures_setTop, ht]
  exact .single (.changed ht hd)

theorem moving_checkClosed (t : Scope) : Moving (checkClosed t) := fun _ => comes_checkClosed .refl

theorem moving_deliver {e : Event} (he : e ≠ .startDocument) : Moving (deliver s e) := by
  refine moving_top fun o t r ht => ?_
  cases hd : t.target with
  | sink d =>
    exact comes_send fun refusal => .single (.sent refusal ht (Scope.destination?_eq.mpr hd) he)
  | capture c =>
    simp only
    split
    · exact .refl
    · exact comes_setTop ht (by simp [Scope.destination?, hd])

theorem moving_flush : Moving (flush s) := by
  refine moving_top fun o t r ht => ?_
  split
  · exact comes_moving (comes_setTop ht rfl) fun _ => moving_deliver (by simp)
  · exact .refl

theorem moving_emit {e : Event} (he : e ≠ .startDocument) : Moving (emit s e) := by
  refine moving_bind moving_flush fun _ => moving_top fun o t r ht => ?_
  split
  · exact comes_setTop ht rfl
  · split
    · split
      · exact comes_moving (comes_setTop ht rfl) fun _ => moving_deliver he
      · exact .refl
    · exact .refl
  · exact moving_bind (moving_checkClosed t) (fun _ => moving_deliver he) o
  · exact moving_deliver he o

theorem moving_addAttribute (a : Attribute) : Moving (addAttribute a) := by
  refine moving_top fun o t r ht => ?_
  split
  · exact comes_setTop ht rfl
  · exact .refl

theorem moving_openCapture (owner : Nat) (context : String) :
    Moving (openCapture owner context) := by
  intro o
  unfold Comes openCapture
  rw [ensures_bind, ensures_get]
  split
  · exact .refl
  · exact .single (.captured o _ owner)

theorem moving_closeCapture (owner : Nat) : Moving (closeCapture owner) := by
  intro o
  refine ensures_bind.mpr (ensures_popOwned_cases (fun t r ht => ?_) fun _ => .refl)
  have hpopped : o.Moves { o with scopes := r } := .single (.popped ht)
  split <;> exact hpopped

/-- A sink that is called once more when its scope was taken away might have been called before. -/
theorem comes_sendPopped {w : Writing α} {d : Destination} {e : Event} {o₀ : Outlet}
    (hd : t.destination? = some d) (he : e ≠ .startDocument)
    (ho : o₀.Moves { o with scopes := t :: o.scopes })
    (hw : ∀ o', o'.scopes = o.scopes → o₀.Moves { o' with scopes := t :: o'.scopes } →
      w.Comes o' o₀.Moves) :
    (send s d e >>= fun _ => w).Comes o o₀.Moves := by
  have called : ∀ refusal, o₀.Moves
      { o.after (.sent d e refusal) with scopes := t :: (o.after (.sent d e refusal)).scopes } :=
    fun refusal => ho.tail (.sent (t := t) refusal rfl hd he)
  refine ensures_bind.mpr ?_
  rw [ensures_send]
  split
  · exact (called _).tail (.popped (t := t) rfl)
  · exact hw _ rfl (called _)

theorem moving_closeDocument (owner : Nat) : Moving (closeDocument s owner) := by
  intro o
  refine ensures_bind.mpr (ensures_popOwned_cases (fun t r ht => ?_) fun _ => .refl)
  have popped : ∀ {o' : Outlet}, o.Moves { o' with scopes := t :: o'.scopes } → o.Moves o' :=
    fun h => h.tail (.popped (t := t) rfl)
  have hopen : o.Moves { o with scopes := t :: r } := ht ▸ .refl
  have finished : ∀ d, t.destination? = some d → ∀ o' : Outlet,
      o.Moves { o' with scopes := t :: o'.scopes } →
      (do checkClosed t; send s d .endDocument : Writing Unit).Comes o' o.Moves := by
    intro d hd o' ho
    refine ensures_bind.mpr ((comes_checkClosed (t := t) rfl).mono ?_ ?_)
    · rintro _ _ rfl
      refine comes_send fun refusal => popped ?_
      exact ho.tail (.sent (t := t) refusal rfl hd (by simp))
    · rintro _ _ rfl
      exact popped ho
  cases htarget : t.target with
  | capture c => exact comes_checkClosed (popped hopen)
  | sink d =>
    have hd : t.destination? = some d := Scope.destination?_eq.mpr htarget
    simp only
    split
    · exact comes_sendPopped hd (by simp) hopen fun o' _ ho => finished d hd o' ho
    · exact finished d hd _ hopen

/-- A mark of the start that comes first goes to the main output. -/
theorem comes_emit_initial {P : Outlet → Prop} (ho : o.scopes = Outlet.initial.scopes)
    (h : ∀ refusal, P (o.after (.sent .main .startDocument refusal))) :
    (emit s .startDocument).Comes o P := by
  have htop : o.scopes = .fresh (.sink .main) none :: [] := ho
  have hflush : (flush s).Ensures o (fun _ o' => o' = o) fun _ _ => False := by
    unfold flush
    rw [ensures_bind, ensures_top, htop]
    exact rfl
  refine ensures_bind.mpr (hflush.mono ?_ fun _ _ hfalse => hfalse.elim)
  rintro _ _ rfl
  rw [ensures_bind, ensures_top, htop]
  exact comes_deliver_sink htop rfl h

/-! ## Openings -/

/-- All that an opening can come to. -/
theorem ensures_openDocument {owner : Nat} {href : String} {ok : Unit → Outlet → Prop}
    {failed : Fault → Outlet → Prop} :
    (openDocument s owner href).Ensures o ok failed ↔
      match s.resolver with
      | none => failed (.noResolver href) o
      | some ask =>
        match ask o.record href with
        | some f => failed f (o.after (.resolved href (some f)))
        | none =>
          let had := o.after (.resolved href none)
          let d := Destination.document o.record.documents.length
          if o.isActive owner then failed (.nestedUse "result document") had
          else
            match s.sink d had.record .startDocument with
            | some f => failed f (had.after (.sent d .startDocument (some f)))
            | none => ok () { had.after (.sent d .startDocument none) with
                scopes := .fresh (.sink d) (some owner) :: o.scopes } := by
  unfold openDocument
  rw [ensures_bind, ensures_resolve]
  cases s.resolver with
  | none => rfl
  | some ask =>
    simp only
    cases ask o.record href with
    | some f => rfl
    | none =>
      simp only [ensures_bind, ensures_get]
      have hactive : (o.after (.resolved href none)).isActive owner = o.isActive owner := rfl
      rw [hactive]
      split
      · rfl
      · rw [ensures_bind, ensures_send]
        cases s.sink (.document o.record.documents.length) (o.after (.resolved href none)).record
          .startDocument <;> rfl

/-- An opening within the same redirection fails, but asks the resolver all the same. -/
theorem ensures_openDocument_active {owner : Nat} (hactive : o.isActive owner) {href : String}
    {ok : Unit → Outlet → Prop} {failed : Fault → Outlet → Prop} :
    (openDocument s owner href).Ensures o ok failed ↔
      match s.resolver with
      | none => failed (.noResolver href) o
      | some ask => failed ((ask o.record href).getD (.nestedUse "result document"))
          (o.after (.resolved href (ask o.record href))) := by
  rw [ensures_openDocument]
  cases s.resolver with
  | none => rfl
  | some ask =>
    simp only
    cases ask o.record href with
    | some f => rfl
    | none =>
      simp only [if_pos hactive]
      rfl

end Writing

end Output

namespace Record

/-- This happened directly after the resolver had yielded the document. -/
def Follows (r : Record) (k : Nat) (next : Happening) : Prop :=
  ∃ later href, ∃ earlier : Record, r = later ++ next :: .resolved href none :: earlier ∧
    earlier.documents.length = k

/-- The sink of a document was first called with the mark of its start, and never again. -/
def Started (r : Record) (k : Nat) : Prop :=
  ∃ rest, r.calls (.document k) = .startDocument :: rest ∧ .startDocument ∉ rest

/-- A document that was yielded is started at once, or refused at once and never written to. -/
inductive Settled (r : Record) (k : Nat) : Prop
  | started {refusal : Option Fault} : r.Follows k (.sent (.document k) .startDocument refusal) →
      r.Started k → Settled r k
  | refused {d : Diagnostic} {answer : Option Fault} : r.Follows k (.reported d answer) →
      d.fault = .nestedUse "result document" → r.calls (.document k) = [] → Settled r k

variable {r : Record} {k : Nat} {h next : Happening} {e : Output.Event} {refusal : Option Fault}

theorem Follows.cons (hf : r.Follows k next) (h : Happening) : Follows (h :: r) k next := by
  obtain ⟨later, href, earlier, rfl, hk⟩ := hf
  exact ⟨h :: later, href, earlier, rfl, hk⟩

/-- A document is left as it is by what its sink is not called with. -/
theorem Settled.cons (hs : r.Settled k)
    (hcalls : calls (h :: r) (.document k) = calls r (.document k)) : Settled (h :: r) k := by
  cases hs with
  | started hf hstarted =>
    obtain ⟨rest, hrest, hnot⟩ := hstarted
    exact .started (hf.cons h) ⟨rest, hcalls.trans hrest, hnot⟩
  | refused hf hfault hnone => exact .refused (hf.cons h) hfault (hcalls.trans hnone)

theorem Started.sent (hs : r.Started k) (he : e ≠ .startDocument) :
    Started (.sent (.document k) e refusal :: r) k := by
  obtain ⟨rest, hrest, hnot⟩ := hs
  refine ⟨rest ++ [e], by rw [calls_sent, hrest, List.cons_append], fun hmem => ?_⟩
  rcases List.mem_append.mp hmem with hmem | hmem
  · exact hnot hmem
  · exact he (List.mem_singleton.mp hmem).symm

theorem Settled.sent (hs : r.Settled k) (hstarted : r.Started k) (he : e ≠ .startDocument) :
    Settled (.sent (.document k) e refusal :: r) k := by
  cases hs with
  | started hf h => exact .started (hf.cons _) (h.sent he)
  | refused _ _ hnone =>
    obtain ⟨rest, hrest, -⟩ := hstarted
    rw [hnone] at hrest
    cases hrest

end Record

namespace Output

/-! ## What holds of documents -/

/-- Every document that was yielded is settled, those that scopes write to are started, and no other
sink is called. -/
structure Outlet.Begun (o : Outlet) : Prop where
  live : ∀ t ∈ o.scopes, ∀ k, t.destination? = some (.document k) →
    k < o.record.documents.length ∧ o.record.Started k
  settled : ∀ k < o.record.documents.length, o.record.Settled k
  uncalled : ∀ k, o.record.documents.length ≤ k → o.record.calls (.document k) = []

namespace Outlet

variable {o o' : Outlet} {d : Destination} {e : Event} {refusal : Option Fault}

theorem begun_initial : Outlet.initial.Begun where
  live t ht k hd := by
    obtain rfl := List.mem_singleton.mp ht
    cases hd
  settled _ hk := absurd hk (Nat.not_lt_zero _)
  uncalled _ _ := rfl

/-- Scopes come and go, and write to no other documents than before. -/
theorem Begun.scoped (h : o.Begun) {scopes : List Scope}
    (hs : ∀ t ∈ scopes, ∀ k, t.destination? = some (.document k) →
      ∃ u ∈ o.scopes, u.destination? = some (.document k)) :
    Begun { o with scopes := scopes } where
  live t ht k hd := by
    obtain ⟨u, hu, hud⟩ := hs t ht k hd
    exact h.live u hu k hud
  settled := h.settled
  uncalled := h.uncalled

/-- What happens is no call, and yields no document. -/
theorem Begun.unheard (h : o.Begun) {x : Happening}
    (hcalls : ∀ d, Record.calls (x :: o.record) d = o.record.calls d)
    (hdocuments : Record.documents (x :: o.record) = o.record.documents) :
    (o.after x).Begun where
  live t ht k hd := by
    obtain ⟨hk, rest, hrest, hnot⟩ := h.live t ht k hd
    exact ⟨hdocuments ▸ hk, rest, (hcalls _).trans hrest, hnot⟩
  settled k hk := (h.settled k (hdocuments ▸ hk)).cons (hcalls _)
  uncalled k hk := (hcalls _).trans (h.uncalled k (hdocuments ▸ hk))

theorem Begun.noted (h : o.Begun) (n : Note) : (o.after (.noted n)).Begun :=
  h.unheard (Record.calls_noted n _) (Record.documents_cons (by simp) _)

theorem Begun.reported (h : o.Begun) (d : Diagnostic) (answer : Option Fault) :
    (o.after (.reported d answer)).Begun :=
  h.unheard (Record.calls_reported d answer _) (Record.documents_cons (by simp) _)

/-- A sink is called that is no further document, or one that is started. -/
theorem Begun.sent (h : o.Begun)
    (hlive : ∀ k, d = .document k →
      k < o.record.documents.length ∧ o.record.Started k ∧ e ≠ .startDocument) :
    (o.after (.sent d e refusal)).Begun := by
  have hdocuments : Record.documents (.sent d e refusal :: o.record) = o.record.documents :=
    Record.documents_cons (by simp) _
  have hother : ∀ k, d ≠ .document k → Record.calls (.sent d e refusal :: o.record) (.document k)
      = o.record.calls (.document k) := fun k hne => Record.calls_sent_of_ne hne
  refine { live := ?live, settled := ?settled, uncalled := ?uncalled }
  case live =>
    intro t ht k hd
    obtain ⟨hk, hstarted⟩ := h.live t ht k hd
    refine ⟨hdocuments ▸ hk, ?_⟩
    by_cases hne : d = .document k
    · subst hne
      exact hstarted.sent (hlive k rfl).2.2
    · obtain ⟨rest, hrest, hnot⟩ := hstarted
      exact ⟨rest, (hother k hne).trans hrest, hnot⟩
  case settled =>
    intro k hk
    have hsettled := h.settled k (hdocuments ▸ hk)
    by_cases hne : d = .document k
    · subst hne
      obtain ⟨-, hstarted, he⟩ := hlive k rfl
      exact hsettled.sent hstarted he
    · exact hsettled.cons (hother k hne)
  case uncalled =>
    intro k hk
    have hk : o.record.documents.length ≤ k := hdocuments ▸ hk
    have hne : d ≠ .document k := fun heq => absurd (hlive k heq).1 (by omega)
    exact (hother k hne).trans (h.uncalled k hk)

theorem Begun.move (h : o.Begun) (hm : o.Move o') : o'.Begun := by
  cases hm with
  | @changed t t' r ht hdest =>
    refine h.scoped (List.forall_mem_cons.mpr ⟨fun k hk => ?_, fun u hu k hk => ?_⟩)
    · exact ⟨t, by simp [ht], hdest ▸ hk⟩
    · exact ⟨u, by simp [ht, hu], hk⟩
  | @sent t r d e refusal ht hd he =>
    refine h.sent fun k hk => ?_
    subst hk
    obtain ⟨hlt, hstarted⟩ := h.live t (by simp [ht]) k hd
    exact ⟨hlt, hstarted, he⟩
  | captured c owner =>
    exact h.scoped (List.forall_mem_cons.mpr ⟨fun k hk => (by cases hk), fun u hu _ hk =>
      ⟨u, hu, hk⟩⟩)
  | @popped t r ht => exact h.scoped fun u hu k hk => ⟨u, by simp [ht, hu], hk⟩

theorem Begun.moves (h : o.Begun) (hm : o.Moves o') : o'.Begun := by
  induction hm with
  | refl => exact h
  | tail _ hstep ih => exact ih.move hstep

/-- The resolver yields a document, and what becomes of it comes directly after. -/
theorem Begun.yielded (h : o.Begun) {href : String} {next : Happening}
    (hne : ∀ href, next ≠ .resolved href none)
    (hother : ∀ k, k ≠ o.record.documents.length → Record.calls [next] (.document k) = [])
    (hsettled : Record.Settled (next :: .resolved href none :: o.record)
      o.record.documents.length) :
    ((o.after (.resolved href none)).after next).Begun := by
  have hdocuments : Record.documents (next :: .resolved href none :: o.record) =
      href :: o.record.documents := Record.documents_cons hne _
  have hcalls : ∀ k, k ≠ o.record.documents.length →
      Record.calls (next :: .resolved href none :: o.record) (.document k) =
        o.record.calls (.document k) := by
    intro k hk
    rw [Record.calls_cons, hother k hk, List.append_nil, Record.calls_resolved]
  refine { live := ?live, settled := ?settled, uncalled := ?uncalled }
  case live =>
    intro t ht k hd
    obtain ⟨hk, rest, hrest, hnot⟩ := h.live t ht k hd
    refine ⟨?_, rest, (hcalls k (by omega)).trans hrest, hnot⟩
    change k < (Record.documents (next :: .resolved href none :: o.record)).length
    rw [hdocuments, List.length_cons]
    omega
  case settled =>
    intro k hk
    change k < (Record.documents (next :: .resolved href none :: o.record)).length at hk
    rw [hdocuments, List.length_cons] at hk
    rcases Nat.lt_succ_iff_lt_or_eq.mp hk with hlt | rfl
    · refine ((h.settled k hlt).cons (Record.calls_resolved href none _ _)).cons ?_
      rw [Record.calls_cons, hother k (by omega), List.append_nil]
    · exact hsettled
  case uncalled =>
    intro k hk
    change (Record.documents (next :: .resolved href none :: o.record)).length ≤ k at hk
    rw [hdocuments, List.length_cons] at hk
    exact (hcalls k (by omega)).trans (h.uncalled k (by omega))

/-- The scope of a document that was started is opened. -/
theorem Begun.pushed (h : o.Begun) {k owner : Nat} (hk : k < o.record.documents.length)
    (hstarted : o.record.Started k) :
    Begun { o with scopes := .fresh (.sink (.document k)) (some owner) :: o.scopes } where
  live := by
    refine List.forall_mem_cons.mpr ⟨fun k' hd => ?_, h.live⟩
    obtain rfl := Destination.document.inj (Option.some.inj hd)
    exact ⟨hk, hstarted⟩
  settled := h.settled
  uncalled := h.uncalled

end Outlet

namespace Writing

variable {α : Type} {s : Surroundings} {o : Outlet}

theorem Moving.attempted {w : Writing α} (hw : Moving w) (h : o.Begun) :
    w.Attempted o fun _ => Outlet.Begun :=
  (hw o).mono (fun _ _ hm => h.moves hm) fun _ _ hm _ _ _ => (h.moves hm).reported _ _

/-- A document is started as soon as it is yielded, unless its instruction has a scope open. -/
theorem attempted_openDocument (h : o.Begun) (owner : Nat) (href : String) :
    (openDocument s owner href).Attempted o fun _ => Outlet.Begun := by
  have hnone : Record.calls (.resolved href none :: o.record)
      (.document o.record.documents.length) = [] :=
    (Record.calls_resolved _ _ _ _).trans (h.uncalled _ (Nat.le_refl _))
  have started : ∀ refusal, Record.Started
      (.sent (.document o.record.documents.length) .startDocument refusal ::
        .resolved href none :: o.record) o.record.documents.length := fun refusal =>
    ⟨[], by rw [Record.calls_sent, hnone, List.nil_append], List.not_mem_nil⟩
  have sent : ∀ refusal, ((o.after (.resolved href none)).after
      (.sent (.document o.record.documents.length) .startDocument refusal)).Begun := fun refusal =>
    h.yielded (by simp)
      (fun k hk => Record.calls_sent_of_ne fun heq => hk (Destination.document.inj heq).symm)
      (.started ⟨[], href, o.record, rfl, rfl⟩ (started refusal))
  have hcount : o.record.documents.length <
      (Record.documents (.sent (.document o.record.documents.length) .startDocument none ::
        .resolved href none :: o.record)).length := Nat.lt_succ_self _
  unfold Attempted
  rw [ensures_openDocument]
  cases s.resolver with
  | none => exact fun d answer _ => h.reported d answer
  | some ask =>
    simp only
    cases ask o.record href with
    | some f =>
      have hrefused : (o.after (.resolved href (some f))).Begun :=
        h.unheard (Record.calls_resolved _ _ _) (Record.documents_cons (by simp) _)
      exact fun d answer _ => hrefused.reported d answer
    | none =>
      simp only
      split
      · intro d answer hd
        refine h.yielded (by simp) (fun k _ => by simp [Record.calls])
          (.refused ⟨[], href, o.record, rfl, rfl⟩ hd ?_)
        rw [Record.calls_reported, hnone]
      · split
        · exact fun d answer _ => (sent _).reported d answer
        · exact (sent none).pushed hcount (started none)

end Writing

end Output

/-- Whatever a run writes, its documents begin as they are to. -/
theorem lasting_begun (env : Environment) : Lasting env Outlet.Begun where
  initial := Outlet.begun_initial
  noted _ n h := h.noted n
  reported _ d answer h := h.reported d answer
  written hw o h := by
    cases hw with
    | emit he => exact (Writing.moving_emit he).attempted h
    | addAttribute a => exact (Writing.moving_addAttribute a).attempted h
    | openCapture owner context => exact (Writing.moving_openCapture owner context).attempted h
    | closeCapture owner => exact (Writing.moving_closeCapture owner).attempted h
    | openDocument owner href => exact Writing.attempted_openDocument h owner href
    | closeDocument owner => exact (Writing.moving_closeDocument owner).attempted h
  started o ho h := by
    have hbegun : ∀ refusal, (o.after (.sent .main .startDocument refusal)).Begun := fun refusal =>
      h.sent fun k hk => by cases hk
    exact (Writing.comes_emit_initial ho (P := fun o' => o'.Begun) hbegun).mono (fun _ _ h' => h')
      fun _ _ h' d answer _ => h'.reported d answer

/-! ## Refusals -/

/-- What a redirection comes to that is refused as one within itself: the resolver is asked, if
there is one, and its own refusal goes before. -/
inductive Record.Refusing (s : Surroundings) (href : String) (r : Record) : Record → Prop
  | unasked {d : Diagnostic} {answer : Option Fault} : s.resolver = none →
      d.fault = .noResolver href → Refusing s href r (.reported d answer :: r)
  | asked {ask : Record → String → Option Fault} {d : Diagnostic} {answer : Option Fault} :
      s.resolver = some ask →
      d.fault = (ask r href).getD (.nestedUse "result document") →
      Refusing s href r (.reported d answer :: .resolved href (ask r href) :: r)

/-- No scope changes, and no sink is called. -/
structure State.Undisturbed (s s' : State) : Prop where
  scopes : s'.outlet.scopes = s.outlet.scopes
  calls : ∀ d, s'.record.calls d = s.record.calls d

theorem State.Undisturbed.after {s₀ s : State} (h : s₀.Undisturbed s) {x : Happening}
    (hx : ∀ (r : Record) d, Record.calls (x :: r) d = r.calls d) : s₀.Undisturbed (s.after x) where
  scopes := h.scopes
  calls d := (hx s.record d).trans (h.calls d)

namespace Operation

variable {env : Environment} {s : State}

theorem calm_undisturbed (env : Environment) (s : State) :
    Calm env s.Undisturbed fun _ => s.Undisturbed where
  noted n := keeps_modify fun _ h => h.after (Record.calls_noted n)
  reported _ _ _ _ := preserves_report fun _ h => h.after (Record.calls_reported _ _)
  raised _ _ _ h := h

/-- What is left of an attempt to redirect output within the same redirection. -/
theorem ensures_attempt_refused {owner : Nat} (hactive : s.outlet.isActive owner) (href : String)
    (node : Option NodeId) :
    (attempt env node (Writing.openDocument env.surroundings owner href)).Ensures s
      (fun opened s' => opened = none ∧ s.Undisturbed s' ∧
        Record.Refusing env.surroundings href s.record s'.record)
      fun _ s' => s.Undisturbed s' := by
  have hrefused : (Writing.openDocument env.surroundings owner href).Attempted s.outlet
      fun opened o => opened = none ∧ o.scopes = s.outlet.scopes ∧
        (∀ d, o.record.calls d = s.record.calls d) ∧
        Record.Refusing env.surroundings href s.record o.record := by
    unfold Writing.Attempted
    rw [Writing.ensures_openDocument_active hactive]
    cases hresolver : env.surroundings.resolver with
    | none =>
      exact fun d answer hd => ⟨rfl, rfl, Record.calls_reported d answer _, .unasked hresolver hd⟩
    | some ask =>
      exact fun d answer hd =>
        ⟨rfl, rfl, fun _ => (Record.calls_reported d answer _ _).trans (Record.calls_resolved ..),
          .asked hresolver hd⟩
  refine (ensures_attempt_of hrefused).mono ?_ ?_
  · rintro opened s' ⟨⟨hopened, hscopes, hcalls, hrefusing⟩, -⟩
    exact ⟨hopened, ⟨hscopes, hcalls⟩, hrefusing⟩
  · rintro _ s' ⟨-, hscopes, hcalls, -⟩
    exact ⟨hscopes, hcalls⟩

end Operation

/-! ## Runs -/

open Operation

/-- How the redirections of a run begin. -/
structure OpensDocuments (env : Environment) : Prop where
  /-- A document that the resolver yielded was started directly afterwards, and only then; or its
  instruction was refused for use within itself, and its sink is never called. -/
  settled : ∀ fuel is k, let r := ((State.initial env.program).afterCalls env fuel is).record
    k < r.documents.length → r.Settled k
  /-- Where no instruction was refused so, every document was started, and only once. -/
  started : ∀ fuel is, let r := ((State.initial env.program).afterCalls env fuel is).record
    (∀ d ∈ r.diagnostics, d.fault ≠ .nestedUse "result document") →
    ∀ k < r.documents.length, r.Started k
  /-- No other sink is called but that of the main output. -/
  uncalled : ∀ fuel is k, let r := ((State.initial env.program).afterCalls env fuel is).record
    r.documents.length ≤ k → r.calls (.document k) = []
  /-- An instruction whose redirection is still open is skipped. No scope changes and no sink is
  called, but the resolver was asked. -/
  skipped : ∀ a f n t s, n.instruction = .container (.document t) → s.outlet.isActive f.cursor →
    (execute env a f n).Ensures s
      (fun flow s' => flow = .on (f.skip n) ∧ s.Undisturbed s' ∧
        ∃ href, ∃ s₁ : State, s.Undisturbed s₁ ∧
          Record.Refusing env.surroundings href s₁.record s'.record)
      fun _ s' => s.Undisturbed s'

/-- A report that directly follows what the resolver yielded is in the record. -/
theorem Record.Follows.mem_diagnostics {r : Record} {k : Nat} {d : Diagnostic}
    {answer : Option Fault} (h : r.Follows k (.reported d answer)) : d ∈ r.diagnostics := by
  obtain ⟨later, href, earlier, rfl, -⟩ := h
  simp [Record.diagnostics, List.filterMap_append]

/-- Every document that is yielded is started once, but for those that are asked for in vain. -/
theorem opens_documents (env : Environment) : OpensDocuments env where
  settled fuel is := ((lasting_begun env).afterCalls fuel is).settled
  started fuel is hnone k hk := by
    have hsettled := ((lasting_begun env).afterCalls fuel is).settled k hk
    cases hsettled with
    | started _ h => exact h
    | refused hf hfault _ => exact absurd hfault (hnone _ hf.mem_diagnostics)
  uncalled fuel is := ((lasting_begun env).afterCalls fuel is).uncalled
  skipped a f n t s hn hactive := by
    have hrefl : s.Undisturbed s := ⟨rfl, fun _ => rfl⟩
    rw [execute, hn]
    refine Keeps.then ((calm_undisturbed env s).evaluateText a f t) hrefl (fun href s₁ h₁ => ?_)
      fun _ _ h => h
    have hactive₁ : s₁.outlet.isActive f.cursor := by
      rw [Outlet.isActive, h₁.scopes]
      exact hactive
    refine ensures_bind.mpr ((ensures_attempt_refused hactive₁ href _).mono ?_ ?_)
    · rintro opened s₂ ⟨rfl, h₂, hrefusing⟩
      exact ⟨rfl, ⟨h₂.scopes.trans h₁.scopes, fun d => (h₂.calls d).trans (h₁.calls d)⟩, href, s₁,
        h₁, hrefusing⟩
    · exact fun _ s₂ h₂ =>
        ⟨h₂.scopes.trans h₁.scopes, fun d => (h₂.calls d).trans (h₁.calls d)⟩

/-- A template that redirects output and, within the redirection, processes the children. -/
def nestedRedirectionScript : List Script.Declaration :=
  [.template "doc" {} [.document "d.xml" [.text "a", .process .children {}]]]

/-- Every document that is asked for can be had. -/
def nestedRedirection : Environment :=
  ⟨(Script.draft nestedRedirectionScript).program, {},
    { Surroundings.plain fun _ => none with resolver := some fun _ _ => none }⟩

/-- The redirection for an element within an element is refused, but a second document was had. -/
example :
    let r := ((State.initial nestedRedirection.program).receiveAll nestedRedirection 40
      [.startDocument, .opening (.simple "doc") [], .opening (.simple "doc") [],
        .closing (.simple "doc"), .closing (.simple "doc"), .endDocument]).2.record
    r.documents = ["d.xml", "d.xml"] ∧
      r.calls (.document 0) = [.startDocument, .characters "a", .endDocument] ∧
      r.calls (.document 1) = [] := by
  decide +kernel

end StreamTransform
