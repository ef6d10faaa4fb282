import StreamTransform.Proofs.Abort
import StreamTransform.Proofs.Account
import StreamTransform.Proofs.Structured

/-!
# What an instruction does to its frame

Where a frame goes on after an instruction, and with which scopes and loops. A
container is passed over, entered, or refused with a report; its end takes the
value that the content wrote. Group and parameters stay what they are.
-/

namespace StreamTransform

open Record

/-- The frame goes on at this place, with these scopes and loops. -/
def Flow.Goes (f : Frame) (cursor : NodeId) (scopes : List Bindings) (loops : List Loop)
    (flow : Flow) : Prop :=
  ∃ owed, flow.frame? = some ⟨f.group, cursor, scopes, f.passed, loops, owed⟩

/-- Control passes over a container that takes a value from elsewhere than its content. -/
def Flow.Passes (f : Frame) (close : NodeId) (c : Container) (flow : Flow) : Prop :=
  ∃ v, flow.Goes f (close + 1) (c.bind v f.scopes) f.loops

/-! ## Reports -/

namespace Record.Reports

variable {r₀ r₁ r₂ : Record}

theorem of_later (h : Continues r₀ r₁) (h' : Reports r₁ r₂) : Reports r₀ r₂ := by
  obtain ⟨new, rfl, -⟩ := h.exists_new
  obtain ⟨later, d, answer, rfl, hmem⟩ := h'
  exact ⟨later ++ new, d, answer, by simp, List.mem_append_left _ hmem⟩

theorem of_earlier (h : Reports r₀ r₁) (h' : Continues r₁ r₂) : Reports r₀ r₂ := by
  obtain ⟨new, d, answer, rfl, hmem⟩ := h
  obtain ⟨later, rfl, -⟩ := h'.exists_new
  exact ⟨later ++ new, d, answer, by simp, List.mem_append_right _ hmem⟩

end Record.Reports

namespace Operation

variable {α β : Type} {env : Environment} {a : Activation} {f : Frame} {n : Node}

/-- The operation adds to the record. -/
def Records (op : Operation α) : Prop :=
  ∀ s b s', Yields op s b s' → Continues s.record s'.record

/-- What the operation yields satisfies `Q`; or it satisfies `Q'`, and something was reported. -/
def GivesUnless (Q Q' : α → Prop) (op : Operation α) : Prop :=
  ∀ s b s', Yields op s b s' → Q b ∨ Q' b ∧ s.record.Reports s'.record

theorem Records.of_outward {op : Operation α}
    (h : ∀ {earlier}, Outward env (Onward earlier) (Ends earlier) →
      Keeps (Onward earlier) (Ends earlier) op) : Records op := fun s _ _ hy =>
  (h (outward_onward env s.record)).of_yields hy .refl

theorem Gives.unless {Q Q' : α → Prop} {op : Operation α} (h : Gives Q op) : GivesUnless Q Q' op :=
  fun _ _ _ hy => .inl (h _ _ _ hy)

theorem givesUnless_bind {Q Q' : β → Prop} {op : Operation α} {k : α → Operation β}
    (h : Records op) (hk : ∀ b, GivesUnless Q Q' (k b)) : GivesUnless Q Q' (op >>= k) := by
  intro s c s' hy
  obtain ⟨b, s₁, hop, hy⟩ := yields_bind.mp hy
  rcases hk b _ _ _ hy with hq | ⟨hq, hr⟩
  · exact .inl hq
  · exact .inr ⟨hq, hr.of_later (h _ _ _ hop)⟩

/-- What was reported stays reported. -/
theorem GivesUnless.bind {P P' : α → Prop} {Q Q' : β → Prop} {op : Operation α}
    {k : α → Operation β} (h : GivesUnless P P' op) (hr : Records op)
    (hk : ∀ b, P b → GivesUnless Q Q' (k b)) (hk' : ∀ b, P' b → Records (k b) ∧ Gives Q' (k b)) :
    GivesUnless Q Q' (op >>= k) := by
  intro s c s' hy
  obtain ⟨b, s₁, hop, hy⟩ := yields_bind.mp hy
  rcases h _ _ _ hop with hb | ⟨hb, hreports⟩
  · rcases hk b hb _ _ _ hy with hq | ⟨hq, hreports⟩
    · exact .inl hq
    · exact .inr ⟨hq, hreports.of_later (hr _ _ _ hop)⟩
  · obtain ⟨hrecords, hgives⟩ := hk' b hb
    exact .inr ⟨hgives _ _ _ hy, hreports.of_earlier (hrecords _ _ _ hy)⟩

theorem records_pure (b : α) : Records (pure b) := by
  intro s c s' hy
  obtain ⟨-, rfl⟩ := yields_pure.mp hy
  exact .refl

theorem reports_of_report {severity : Severity} {fault : Fault} {node : Option NodeId}
    {s s' : State} {u : Unit} (hy : (report env severity fault node).Yields s u s') :
    s.record.Reports s'.record := by
  have h : (report env severity fault node).Ensures s
      (fun _ s' => s' = reported env severity fault node s) fun _ _ => True := by
    rw [ensures_report]
    split <;> trivial
  rw [h.of_yields hy]
  exact ⟨[_], _, _, rfl, List.mem_singleton_self _⟩

/-- A write that does not succeed is reported. -/
theorem unless_attempt {node : Option NodeId} {w : Output.Writing α} (hw : IsWrite env w) :
    GivesUnless (fun r => r.isSome) (fun r => r = none) (attempt env node w) := by
  intro s r s' hy
  cases r with
  | some b => exact .inl rfl
  | none =>
    refine .inr ⟨rfl, ?_⟩
    have hkind : Fault.Inner fun _ => False := fun _ h => h.elim
    have hbears : BearsWrites (Continues s.record) := bearsWrites_continues
    have hleft := Output.Writing.spares_of_isWrite hbears hkind hw s.outlet .refl
    unfold Output.Writing.Leaves Output.Writing.Ensures at hleft
    rw [attempt, yields_get_bind] at hy
    rcases hrun : w.run.run s.outlet with ⟨result, o⟩
    rw [hrun] at hleft
    simp only [hrun, yields_bind, yields_set] at hy
    obtain ⟨_, s₁, rfl, hy⟩ := hy
    cases result with
    | ok b =>
      obtain ⟨hcontra, -⟩ := yields_pure.mp hy
      cases hcontra
    | error fault =>
      obtain ⟨u, s₂, hreport, hy⟩ := yields_bind.mp hy
      obtain ⟨-, rfl⟩ := yields_pure.mp hy
      exact (reports_of_report hreport).of_later hleft.1

theorem records_attempt {node : Option NodeId} {w : Output.Writing α} (hw : IsWrite env w) :
    Records (attempt env node w) := .of_outward fun h => h.attempted node hw

theorem records_evaluateText (t : Path.TextTemplate) : Records (evaluateText env a f t) :=
  .of_outward fun h => h.toMuted.evaluateText a f t

theorem records_evaluateName (t : NameTemplate) : Records (evaluateName env a f t) :=
  .of_outward fun h => h.toMuted.evaluateName a f t

/-- A name that is not valid is reported. -/
theorem unless_computedName (lexical : String) (uri : Option String) (ns : Namespaces) :
    GivesUnless (fun r : Option QName => r.isSome) (fun r => r = none)
      (match computedName lexical uri ns with
        | .ok n => pure (some n)
        | .error fault => do
          report env .error fault (some f.cursor)
          pure none) := by
  split
  · exact Gives.unless (gives_pure rfl)
  · intro s r s' hy
    obtain ⟨u, s₁, hreport, hy⟩ := yields_bind.mp hy
    obtain ⟨rfl, rfl⟩ := yields_pure.mp hy
    exact .inr ⟨rfl, reports_of_report hreport⟩

theorem unless_evaluateName (t : NameTemplate) :
    GivesUnless (fun r => r.isSome) (fun r => r = none) (evaluateName env a f t) := by
  refine givesUnless_bind (records_evaluateText _) fun lexical => ?_
  cases t.uri with
  | none =>
    exact givesUnless_bind (records_pure none) fun uri => unless_computedName lexical uri _
  | some u =>
    exact givesUnless_bind (records_evaluateText u) fun _ =>
      givesUnless_bind (records_pure _) fun uri => unless_computedName lexical uri _

/-! ## Variables -/

theorem gives_declared (home : Home) (name : String) (v : Value) :
    Gives (fun g => g = { f with scopes := home.bind name v f.scopes })
      (declareVariable env f home name v) := gives_declareVariable home name v

theorem gives_assigned (name : String) (origin : Origin) (v : Value) :
    Gives (fun g => g = { f with scopes := (Container.assign name origin).bind v f.scopes })
      (assignVariable env f name v) := by
  unfold assignVariable
  split
  · rename_i s hs
    exact gives_pure (by simp [Container.bind, hs])
  · rename_i hs
    have hsame : f = { f with scopes := (Container.assign name origin).bind v f.scopes } := by
      simp [Container.bind, hs]
    refine gives_bind fun s => ?_
    split
    · exact gives_bind fun _ => gives_pure hsame
    · exact gives_bind fun _ => gives_pure hsame

/-! ## Actions and tests -/

/-- After an action control goes on with the next node. -/
theorem goes_act (action : Action) :
    Gives (Flow.Goes f (f.cursor + 1) f.scopes f.loops) (act env a f action) := by
  intro s flow s' hy
  have hleads := leads_act action s flow s' hy
  cases flow with
  | done => exact hleads.elim
  | on g | walk g r | call g id passed => exact ⟨f.owed, congrArg some hleads⟩

theorem yields_enterIf {test : Path.Expr} {s s' : State} {flow : Flow}
    (hy : (enterIf env a f n test).Yields s flow s') : ∃ v, (evaluate env a f test).Yields s v s' ∧
      flow = .on (if v.toBoolean then f.enter else f.skip n) := by
  obtain ⟨v, s₁, hv, hy⟩ := yields_bind.mp hy
  obtain ⟨rfl, rfl⟩ := yields_pure.mp hy
  exact ⟨v, hv, rfl⟩

/-- To take the next item leaves the state. -/
theorem after_nextItem {name : String} {s s' : State} {flow : Flow}
    (hy : (nextItem f n name).Yields s flow s') : s' = s := by
  unfold nextItem at hy
  split at hy <;> exact (yields_pure.mp hy).2

/-! ## Starts of containers -/

section
variable {close : NodeId} (hclose : n.close = some close)
include hclose

theorem goes_skip (s : List Bindings) :
    Flow.Goes f (close + 1) s f.loops (.on (Frame.skip { f with scopes := s } n)) :=
  ⟨f.owed, by simp [Flow.frame?, Frame.skip, Frame.moveTo, hclose]⟩

/-- A start that needs a capture enters its content or is refused. -/
theorem unless_capture (context : String) (owed : Option QName) :
    GivesUnless (Flow.Goes f (f.cursor + 1) ([] :: f.scopes) f.loops)
      (Flow.Goes f (close + 1) f.scopes f.loops) (capture env f n context owed) := by
  refine (unless_attempt (.openCapture _ _)).bind (records_attempt (.openCapture _ _)) ?_ ?_
  · rintro (_ | u) hu
    · cases hu
    · cases owed with
      | none => exact Gives.unless (gives_pure ⟨f.owed, rfl⟩)
      | some name => exact Gives.unless (gives_pure ⟨name :: f.owed, rfl⟩)
  · rintro _ rfl
    exact ⟨records_pure _, gives_pure (goes_skip hclose f.scopes)⟩

/-- A variable with a value is declared, and the content passed over. -/
theorem passes_declared {c : Container} {name : String} {home : Home}
    (hb : ∀ v s, c.bind v s = home.bind name v s) (v : Value) :
    Gives (Flow.Passes f close c) (do
        let f ← declareVariable env f home name v
        pure (.on (f.skip n))) := by
  refine (gives_declared home name v).bind fun g hg => ?_
  subst hg
  refine gives_pure ⟨v, ?_⟩
  rw [hb]
  exact goes_skip hclose _

theorem passes_startContainer (c : Container) (hc : c.isSelected f.passed) :
    Gives (Flow.Passes f close c) (startContainer env a f n c) := by
  have kept : ∀ {c : Container}, (∀ v s, c.bind v s = s) →
      Gives (Flow.Passes f close c) (pure (.on (f.skip n))) := by
    intro c hb
    refine gives_pure ⟨.empty, ?_⟩
    rw [hb]
    exact goes_skip hclose f.scopes
  have opened : ∀ {c : Container} {name : String} {home : Home} (e : Path.Expr),
      (∀ v s, c.bind v s = home.bind name v s) → Gives (Flow.Passes f close c)
        (openVariable env a f n name (.selected e) home) := fun e hb =>
    gives_bind fun v => passes_declared hclose hb v
  cases c with
  | attr t origin =>
    refine gives_bind fun name => ?_
    cases name with
    | none => exact kept fun _ _ => rfl
    | some name =>
      cases origin with
      | written => cases hc
      | selected e => exact gives_bind fun _ => gives_bind fun _ => kept fun _ _ => rfl
  | message origin terminate =>
    cases origin with
    | written => cases hc
    | selected e => exact gives_bind fun _ => gives_bind fun _ => kept fun _ _ => rfl
  | «variable» name origin home =>
    cases origin with
    | written => cases hc
    | selected e => exact opened e fun _ _ => rfl
  | parameter name default home =>
    simp only [startContainer, openParameter]
    split
    · exact passes_declared hclose (fun _ _ => rfl) _
    · rename_i hnone
      split
      · rename_i origin
        cases origin with
        | written => simp [Container.isSelected, hnone] at hc
        | selected e => exact opened e fun _ _ => rfl
      · exact gives_bind fun _ => passes_declared hclose (fun _ _ => rfl) _
  | assign name origin =>
    cases origin with
    | written => cases hc
    | selected e =>
      refine gives_bind fun v => (gives_assigned name (.selected e) v).bind fun g hg => ?_
      subst hg
      exact gives_pure ⟨v, goes_skip hclose _⟩
  | _ => cases hc

/-- Any other container enters its content, unless it cannot begin. -/
theorem unless_startContainer (c : Container) (hr : c.isRepeated = false)
    (hc : c.isSelected f.passed = false) :
    GivesUnless (Flow.Goes f (f.cursor + 1) ([] :: f.scopes) f.loops)
      (Flow.Goes f (close + 1) f.scopes f.loops) (startContainer env a f n c) := by
  have enters : GivesUnless (Flow.Goes f (f.cursor + 1) ([] :: f.scopes) f.loops)
      (Flow.Goes f (close + 1) f.scopes f.loops) (pure (.on f.enter)) :=
    Gives.unless (gives_pure ⟨f.owed, rfl⟩)
  cases c with
  | literal name as =>
    exact Gives.unless (gives_bind fun _ => gives_bind fun _ => gives_pure ⟨f.owed, rfl⟩)
  | element t =>
    refine (unless_evaluateName t).bind (records_evaluateName t) ?_ ?_
    · rintro (_ | name) hname
      · cases hname
      · exact Gives.unless (gives_bind fun _ => gives_pure ⟨name :: f.owed, rfl⟩)
    · rintro _ rfl
      exact ⟨records_pure _, gives_pure (goes_skip hclose f.scopes)⟩
  | attr t origin =>
    refine (unless_evaluateName t).bind (records_evaluateName t) ?_ ?_
    · rintro (_ | name) hname
      · cases hname
      · cases origin with
        | written => exact unless_capture hclose _ _
        | selected e => cases hc
    · rintro _ rfl
      exact ⟨records_pure _, gives_pure (goes_skip hclose f.scopes)⟩
  | copy as => exact Gives.unless (gives_bind fun _ => gives_pure ⟨f.owed, rfl⟩)
  | comment => exact unless_capture hclose "comment" none
  | cdata => exact unless_capture hclose "CDATA section" none
  | processingInstruction t =>
    refine givesUnless_bind (records_evaluateText t) fun target => ?_
    split
    · intro s flow s' hy
      obtain ⟨u, s₁, hreport, hy⟩ := yields_bind.mp hy
      obtain ⟨rfl, rfl⟩ := yields_pure.mp hy
      exact .inr ⟨goes_skip hclose f.scopes, reports_of_report hreport⟩
    · exact unless_capture hclose _ _
  | document t =>
    refine givesUnless_bind (records_evaluateText t) fun href => ?_
    refine (unless_attempt (.openDocument _ _)).bind (records_attempt (.openDocument _ _)) ?_ ?_
    · rintro (_ | u) hu
      · cases hu
      · exact enters
    · rintro _ rfl
      exact ⟨records_pure _, gives_pure (goes_skip hclose f.scopes)⟩
  | message origin terminate =>
    cases origin with
    | written => exact unless_capture hclose "message" none
    | selected e => cases hc
  | «variable» name origin home =>
    cases origin with
    | written => exact unless_capture hclose s!"variable `{name}'" none
    | selected e => cases hc
  | parameter name default home =>
    simp only [Container.isSelected, Bool.or_eq_false_iff] at hc
    have hnone : f.passed.get? name = none := by simpa using hc.1
    have hwritten : default = some .written := by
      rcases default with _ | (e | _) <;> simp_all
    simp only [startContainer, openParameter, hnone, hwritten]
    exact unless_capture hclose s!"variable `{name}'" none
  | assign name origin =>
    cases origin with
    | written => exact unless_capture hclose s!"assign `{name}'" none
    | selected e => cases hc
  | loop | each => cases hr

end

/-! ## Ends of containers -/

theorem unless_captured (begun : NodeId) :
    GivesUnless (fun r => r.isSome) (fun r => r = none) (captured env f begun) :=
  unless_attempt (.closeCapture begun)

theorem records_captured (begun : NodeId) : Records (captured env f begun) :=
  records_attempt (.closeCapture begun)

theorem unless_finishVariable (begun : NodeId) (name : String) (home : Home) :
    GivesUnless (fun g => ∃ v, g = { f with scopes := home.bind name v f.scopes })
      (fun g => g = f) (finishVariable env f begun name home) := by
  refine (unless_captured begun).bind (records_captured begun) ?_ ?_
  · rintro (_ | text) htext
    · cases htext
    · exact Gives.unless fun s g s' hy => ⟨_, gives_declared home name _ s g s' hy⟩
  · rintro _ rfl
    exact ⟨records_pure _, gives_pure rfl⟩

theorem records_finishVariable (begun : NodeId) (name : String) (home : Home) :
    Records (finishVariable env f begun name home) :=
  .of_outward fun h => h.toVocal.finishVariable f begun name fun f name v =>
    keeps_declareVariable (fun _ _ _ _ hs => hs) f name v
      fun _ _ hs _ _ => keeps_report_onward _ _ _ _ hs

/-- The end of a container takes the value that its content wrote, unless it is lost. -/
theorem unless_finishContainer (begun : NodeId) (c : Container) (hr : c.isRepeated = false) :
    GivesUnless (fun flow => ∃ v, flow.Goes f (f.cursor + 1) (c.bind v f.scopes) f.loops)
      (Flow.Goes f (f.cursor + 1) f.scopes f.loops) (finishContainer env a f begun c) := by
  let Ends (c : Container) (flow : Flow) : Prop :=
    ∃ v, flow.Goes f (f.cursor + 1) (c.bind v f.scopes) f.loops
  -- a container that binds nothing may take any value
  have next : ∀ {c : Container}, (∀ v s, c.bind v s = s) → Gives (Ends c) (pure (.on f.next)) :=
    fun hb => gives_pure ⟨.empty, f.owed, by rw [hb]; rfl⟩
  have settled : ∀ {c : Container}, (∀ v s, c.bind v s = s) →
      Gives (Ends c) (pure (.on f.settle.next)) :=
    fun hb => gives_pure ⟨.empty, f.owed.tail, by rw [hb]; rfl⟩
  have finished : ∀ {c : Container} (name : String) (home : Home),
      (∀ v s, c.bind v s = home.bind name v s) → GivesUnless (Ends c)
        (Flow.Goes f (f.cursor + 1) f.scopes f.loops) (do
          let f ← finishVariable env f begun name home
          pure (.on f.next)) := by
    intro c name home hb
    refine (unless_finishVariable begun name home).bind (records_finishVariable begun name home)
      ?_ ?_
    · rintro _ ⟨v, rfl⟩
      exact Gives.unless (gives_pure ⟨v, f.owed, by rw [hb]; rfl⟩)
    · rintro _ rfl
      exact ⟨records_pure _, gives_pure ⟨_, rfl⟩⟩
  cases c with
  | literal name as => exact Gives.unless (gives_bind fun _ => next fun _ _ => rfl)
  | element t =>
    simp only [finishContainer]
    split
    · exact Gives.unless (gives_bind fun _ => settled fun _ _ => rfl)
    · exact Gives.unless (settled fun _ _ => rfl)
  | attr t origin =>
    refine Gives.unless (gives_bind fun text => ?_)
    cases text with
    | none => exact next fun _ _ => rfl
    | some value =>
      simp only
      split
      · exact gives_bind fun _ => settled fun _ _ => rfl
      · exact settled fun _ _ => rfl
  | copy as =>
    refine Gives.unless (gives_bind fun e => ?_)
    split
    · exact gives_bind fun _ => next fun _ _ => rfl
    all_goals exact next fun _ _ => rfl
  | comment =>
    refine Gives.unless (gives_bind fun text => ?_)
    cases text with
    | none => exact next fun _ _ => rfl
    | some text => exact gives_bind fun _ => next fun _ _ => rfl
  | processingInstruction t =>
    refine Gives.unless (gives_bind fun text => ?_)
    split
    · exact gives_bind fun _ => settled fun _ _ => rfl
    · exact settled fun _ _ => rfl
  | cdata =>
    refine Gives.unless (gives_bind fun text => ?_)
    cases text with
    | none => exact next fun _ _ => rfl
    | some text =>
      exact gives_bind fun _ => gives_bind fun _ => gives_bind fun _ => next fun _ _ => rfl
  | document t => exact Gives.unless (gives_bind fun _ => next fun _ _ => rfl)
  | message origin terminate =>
    refine Gives.unless (gives_bind fun text => ?_)
    cases text with
    | none => exact next fun _ _ => rfl
    | some text => exact gives_bind fun _ => next fun _ _ => rfl
  | «variable» name origin home => exact finished name home fun _ _ => rfl
  | parameter name default home => exact finished name home fun _ _ => rfl
  | assign name origin =>
    refine (unless_captured begun).bind (records_captured begun) ?_ ?_
    · rintro (_ | text) htext
      · cases htext
      · refine Gives.unless ((gives_assigned name origin _).bind fun g hg => ?_)
        subst hg
        exact gives_pure ⟨.text text, f.owed, rfl⟩
    · rintro _ rfl
      exact ⟨records_pure _, gives_pure ⟨f.owed, rfl⟩⟩
  | loop | each => cases hr

end Operation

end StreamTransform
