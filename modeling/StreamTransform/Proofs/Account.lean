import StreamTransform.Proofs.Construct
import StreamTransform.Proofs.Documents

/-!
# Accounts of the output

An account tells what the outlet is like while certain constructs are open. Its
laws speak of one write each. From them alone it follows what an instruction
does: whichever way control goes on, the outlet is like the frame that goes on
says.
-/

namespace StreamTransform

open Output Operation

/-- How far the output has come. -/
inductive Stage where
  | before
  | within (constructs : List Construct)
  | after

/-- No instruction writes a single start tag or end tag. -/
def Program.Structured (p : Program) : Prop :=
  ∀ n ∈ p.code, ∀ t, n.instruction ≠ .act (.startElement t) ∧ n.instruction ≠ .act (.endElement t)

/-- The instruction writes a single start tag or end tag. -/
def Instruction.isTag : Instruction → Bool
  | .act (.startElement _) | .act (.endElement _) => true
  | .act (.process ..) | .act (.processSiblings ..) | .act (.call ..) | .act (.text _)
  | .act (.valueOf ..) => false
  | .body | .container _ | .condition .. | .alternative | .choice | .when .. | .otherwise
  | .closing _ => false

theorem Program.structured_of_all {p : Program}
    (h : p.code.all fun n => !n.instruction.isTag) : p.Structured := by
  intro n hn t
  have hnone := Array.all_eq_true_iff_forall_mem.mp h n hn
  refine ⟨fun hi => ?_, fun hi => ?_⟩ <;> simp [hi, Instruction.isTag] at hnone

structure Account (env : Environment) (fits : Stage → Outlet → Prop) : Prop where
  noted : ∀ {st o} n, fits st o → fits st (o.after (.noted n))
  reported : ∀ {st o} d answer, d.fault.isStructural = false → fits st o →
    fits st (o.after (.reported d answer))
  plain : ∀ {cs o} e, e.isPlain → fits (.within cs) o →
    (Writing.emit env.surroundings e).Attempted o fun _ => fits (.within cs)
  addAttribute : ∀ {cs o} a, fits (.within cs) o →
    (Writing.addAttribute a).Attempted o fun _ => fits (.within cs)
  opening : ∀ {cs o} n as, fits (.within cs) o →
    (Writing.emit env.surroundings (.opening n as)).Attempted o
      fun _ => fits (.within (.element n :: cs))
  closing : ∀ {cs o} n, fits (.within (.element n :: cs)) o →
    (Writing.emit env.surroundings (.closing n)).Attempted o fun _ => fits (.within cs)
  /-- Tags that no construct accounts for. -/
  single : ¬ env.program.Structured → ∀ {cs o} e, fits (.within cs) o →
    (Writing.emit env.surroundings e).Attempted o fun _ => fits (.within cs)
  openCapture : ∀ {cs o} b context, fits (.within cs) o →
    (Writing.openCapture b context).Attempted o fun opened =>
      fits (.within (if opened.isSome then .scope b .capture :: cs else cs))
  closeCapture : ∀ {cs o} b, fits (.within (.scope b .capture :: cs)) o →
    (Writing.closeCapture b).Attempted o fun text o' => text.isSome ∧ fits (.within cs) o'
  openDocument : ∀ {cs o} b href, fits (.within cs) o →
    (Writing.openDocument env.surroundings b href).Attempted o fun opened =>
      fits (.within (if opened.isSome then .scope b .document :: cs else cs))
  closeDocument : ∀ {cs o} b, fits (.within (.scope b .document :: cs)) o →
    (Writing.closeDocument env.surroundings b).Attempted o fun _ => fits (.within cs)
  started : ∀ {o}, fits .before o →
    (Writing.emit env.surroundings .startDocument).Attempted o fun _ => fits (.within [])
  ended : ∀ {o}, fits (.within []) o →
    (Writing.emit env.surroundings .endDocument).Attempted o fun _ => fits .after
  initial : fits .before .initial

/-- The outlet fits some stage. -/
def Accounted (fits : Stage → Outlet → Prop) (o : Outlet) : Prop := ∃ st, fits st o

/-! ## Frames and flows -/

/-- Frames with the same cursor and the same names owed have the same constructs open. -/
def Frame.Alike (f g : Frame) : Prop := g.cursor = f.cursor ∧ g.owed = f.owed

/-- Control goes on with this frame. -/
def Flow.Leads (g : Frame) : Flow → Prop
  | .on h | .walk h _ | .call h .. => h = g
  | .done => False

/-- The frame that goes on is placed, and the outlet is like it says. -/
def Flow.Fits (fits : Stage → Outlet → Prop) (code : Array Node) (e : Option Event)
    (cs : List Construct) : Flow → State → Prop
  | .on g, s | .walk g _, s | .call g .., s =>
    g.Placed code ∧ fits (.within (g.constructs code e ++ cs)) s.outlet
  | .done, s => fits (.within cs) s.outlet

section
variable {env : Environment} {a : Activation} {f : Frame}

theorem alike_declareVariable (home : Home) (name : String) (v : Value) :
    Gives f.Alike (declareVariable env f home name v) := by
  intro s g s' hy
  obtain rfl := gives_declareVariable home name v s g s' hy
  exact ⟨rfl, rfl⟩

theorem alike_assignVariable (name : String) (v : Value) :
    Gives f.Alike (assignVariable env f name v) := by
  unfold assignVariable
  split
  · exact gives_pure ⟨rfl, rfl⟩
  · refine gives_bind fun s => ?_
    split
    · exact gives_bind fun _ => gives_pure ⟨rfl, rfl⟩
    · exact gives_bind fun _ => gives_pure ⟨rfl, rfl⟩

theorem alike_enterLoop (select : Path.Expr) : Gives f.Alike (enterLoop env a f select) := by
  unfold enterLoop
  split
  · exact gives_pure ⟨rfl, rfl⟩
  · exact gives_bind fun _ => gives_pure ⟨rfl, rfl⟩

theorem leads_requestWalk (w : Walk) (d : Delegation) :
    Gives (Flow.Leads f.next) (requestWalk env a f w d) := by
  unfold requestWalk
  split
  · exact gives_bind fun _ => gives_pure rfl
  · split
    · exact gives_bind fun _ => gives_pure rfl
    · refine gives_bind fun g => ?_
      split
      · exact gives_pure rfl
      · exact gives_bind fun _ => gives_pure rfl

/-- After an action control goes on with the next node, wherever it goes before. -/
theorem leads_act (action : Action) : Gives (Flow.Leads f.next) (act env a f action) := by
  cases action with
  | process w d => exact leads_requestWalk w d
  | processSiblings d whilst till => exact leads_requestWalk .siblings d
  | call name d =>
    refine gives_bind fun g => ?_
    split
    · exact gives_pure rfl
    · split
      · exact gives_bind fun _ => gives_pure rfl
      · exact gives_bind fun _ => gives_pure rfl
  | startElement t =>
    refine gives_bind fun name => ?_
    cases name with
    | none => exact gives_pure rfl
    | some name => exact gives_bind fun _ => gives_pure rfl
  | endElement t =>
    refine gives_bind fun name => ?_
    cases name with
    | none => exact gives_pure rfl
    | some name => exact gives_bind fun _ => gives_pure rfl
  | text s => exact gives_bind fun _ => gives_pure rfl
  | valueOf select separator =>
    exact gives_bind fun _ => gives_bind fun _ => gives_bind fun _ => gives_pure rfl

end

/-- The event of an activation that executes is the current one. -/
theorem Operation.ensures_eventAt {a : Activation} {s : State} (h : a.depth = s.depth) :
    (eventAt a.depth).Ensures s
      (fun e s' => s' = s ∧ s.nodes.head?.map OpenNode.event = some e) fun _ s' => s' = s := by
  rw [h]
  simp only [eventAt, ensures_bind, ensures_get, State.depth, State.path]
  rcases hnodes : s.nodes with - | ⟨n, ns⟩
  · simp
  · simp

namespace Account

variable {env : Environment} {fits : Stage → Outlet → Prop} {st : Stage} {cs : List Construct}
  {a : Activation} {f : Frame} {s : State} {node : Option NodeId}

theorem calm (h : Account env fits) :
    Calm env (fun s => fits st s.outlet) fun _ s => fits st s.outlet where
  noted n := keeps_modify fun _ hs => h.noted n hs
  reported _ _ _ hf := preserves_report fun _ hs =>
    h.reported _ _ (Fault.isStructural_of_isRoutine (Fault.isRoutine_of_isOrdinary hf)) hs
  raised _ _ _ hs := hs

theorem preserves_declareVariable (h : Account env fits) (home : Home) (name : String) (v : Value) :
    Preserves (fun s => fits st s.outlet) (declareVariable env f home name v) :=
  keeps_declareVariable (fun _ _ _ _ hs => hs) f name v fun s _ hs _ _ =>
    preserves_report (P := fun s => fits st s.outlet) (fun _ hs => h.reported _ _ rfl hs) s hs

theorem preserves_assignVariable (h : Account env fits) (name : String) (v : Value) :
    Preserves (fun s => fits st s.outlet) (assignVariable env f name v) :=
  h.calm.assignVariable f (fun _ _ _ _ hs => hs) name v

/-! ## Output -/

/-- A write whose failure is reported leaves open what it says, whether the run goes on or not. -/
theorem ensures_attempt {α : Type} {w : Writing α} {after : Option α → List Construct}
    (h : w.Attempted s.outlet fun r => fits (.within (after r))) :
    (attempt env node w).Ensures s (fun r s' => fits (.within (after r)) s'.outlet)
      fun _ s' => Accounted fits s'.outlet :=
  (ensures_attempt_of h).mono (fun _ _ hr => hr.1) fun _ _ hr => ⟨_, hr⟩

theorem ensures_emit (h : Account env fits) {st' : Stage} (e : Output.Event)
    (hs : fits st s.outlet)
    (he : ∀ o, fits st o → (Writing.emit env.surroundings e).Attempted o fun _ => fits st') :
    (emit env e node).Ensures s (fun _ s' => fits st' s'.outlet)
      fun _ s' => Accounted fits s'.outlet := by
  unfold Operation.emit
  rw [ensures_bind, ensures_note, ensures_discard]
  exact (ensures_attempt_of (he _ (h.noted _ hs))).mono (fun _ _ hr => hr.1) fun _ _ hr => ⟨_, hr⟩

theorem emit_opening (h : Account env fits) (n : QName) (as : List Attribute)
    (hs : fits (.within cs) s.outlet) :
    (emit env (.opening n as) node).Ensures s
      (fun _ s' => fits (.within (.element n :: cs)) s'.outlet)
      fun _ s' => Accounted fits s'.outlet :=
  h.ensures_emit _ hs fun _ => h.opening n as

theorem emit_closing (h : Account env fits) (n : QName)
    (hs : fits (.within (.element n :: cs)) s.outlet) :
    (emit env (.closing n) node).Ensures s (fun _ s' => fits (.within cs) s'.outlet)
      fun _ s' => Accounted fits s'.outlet :=
  h.ensures_emit _ hs fun _ => h.closing n

/-- What a write keeps an operation keeps that attempts it. -/
theorem preserves_attempt {α : Type} {w : Writing α}
    (h : ∀ o, fits st o → w.Attempted o fun _ => fits st) :
    Preserves (fun s => fits st s.outlet) (attempt env node w) := fun _ hs =>
  (ensures_attempt_of (h _ hs)).mono (fun _ _ hr => hr.1) fun _ _ hr => hr

theorem preserves_emit (h : Account env fits) (e : Output.Event)
    (he : ∀ o, fits st o → (Writing.emit env.surroundings e).Attempted o fun _ => fits st) :
    Preserves (fun s => fits st s.outlet) (emit env e node) :=
  keeps_bind (h.calm.noted _) fun _ => keeps_discard (preserves_attempt he)

theorem preserves_plain (h : Account env fits) (e : Output.Event) (he : e.isPlain) :
    Preserves (fun s => fits (.within cs) s.outlet) (emit env e node) :=
  h.preserves_emit e fun _ => h.plain e he

theorem preserves_addAttribute (h : Account env fits) (attr : Attribute) :
    Preserves (fun s => fits (.within cs) s.outlet) (Operation.addAttribute env attr node) :=
  keeps_discard (preserves_attempt fun _ => h.addAttribute attr)

/-- An event for a name is emitted if the name that is evaluated is legal. -/
theorem preserves_emitNamed (h : Account env fits) (t : NameTemplate)
    {e : QName → Output.Event} (flow : Flow)
    (he : ∀ name, Preserves (fun s => fits (.within cs) s.outlet) (emitHere env f (e name))) :
    Preserves (fun s => fits (.within cs) s.outlet) (do
      match ← evaluateName env a f t with
      | some name => emitHere env f (e name)
      | none => pure ()
      pure flow) := by
  refine keeps_bind (h.calm.evaluateName a f t) fun name => ?_
  cases name with
  | none => exact keeps_pure flow
  | some name => exact keeps_bind (he name) fun _ => keeps_pure flow

theorem preserves_emitText (h : Account env fits) (text : String) :
    Preserves (fun s => fits (.within cs) s.outlet) (emitText env f text) := by
  unfold emitText
  split
  · exact keeps_pure _
  · exact h.preserves_plain _ rfl

/-- An operation that keeps what is open, and then goes on as it yields. -/
theorem keep {α β : Type} {op : Operation α} {k : α → Operation β} {ok : β → State → Prop}
    (hop : Preserves (fun s => fits st s.outlet) op) (hs : fits st s.outlet)
    (hk : ∀ r s', fits st s'.outlet →
      (k r).Ensures s' ok fun _ s' => Accounted fits s'.outlet) :
    (op >>= k).Ensures s ok fun _ s' => Accounted fits s'.outlet :=
  hop.then hs hk fun _ _ h => ⟨_, h⟩

/-! ## Instructions -/

section
variable (h : Account env fits) (hw : WellNested env.program.code) {n : Node} {e : Option Event}
  (hn : env.program.code[f.cursor]? = some n) (hp : f.Placed env.program.code)
include hw hn hp

omit hn in
/-- Control goes on in the same contents. -/
theorem fits_on {g : Frame} (hg : enclosing env.program.code g.cursor ≠ [])
    (he : enclosing env.program.code g.cursor = enclosing env.program.code f.cursor)
    (ho : g.owed = f.owed)
    (hs : fits (.within (f.constructs env.program.code e ++ cs)) s.outlet) :
    g.Placed env.program.code ∧
      fits (.within (g.constructs env.program.code e ++ cs)) s.outlet := by
  refine ⟨hp.of_suffix hw hg (he ▸ List.suffix_refl _), ?_⟩
  rwa [Frame.constructs_congr he ho]

include h in
theorem act (action : Action) (ha : n.instruction = .act action)
    (hs : fits (.within (f.constructs env.program.code e ++ cs)) s.outlet) :
    (Operation.act env a f action).Ensures s (Flow.Fits fits env.program.code e cs)
      fun _ s' => Accounted fits s'.outlet := by
  have hkeeps : Preserves (fun s => fits (.within (f.constructs env.program.code e ++ cs)) s.outlet)
      (Operation.act env a f action) := by
    have hmember : n ∈ env.program.code := Array.mem_of_getElem? hn
    cases action with
    | process w d => exact h.calm.requestWalk a f w d
    | processSiblings d whilst till => exact h.calm.requestWalk a f .siblings d
    | call name d => exact h.calm.callProcedure a f name d
    | startElement t =>
      have hsingle : ¬ env.program.Structured := fun hp => (hp n hmember t).1 ha
      exact h.preserves_emitNamed t _ fun _ => h.preserves_emit _ fun _ => h.single hsingle _
    | endElement t =>
      have hsingle : ¬ env.program.Structured := fun hp => (hp n hmember t).2 ha
      exact h.preserves_emitNamed t _ fun _ => h.preserves_emit _ fun _ => h.single hsingle _
    | text text => exact keeps_bind (h.preserves_emitText text) fun _ => keeps_pure _
    | valueOf select separator =>
      exact keeps_bind (h.calm.evaluate a f select) fun _ =>
        keeps_bind (h.calm.evaluateText a f separator) fun _ =>
          keeps_bind (h.preserves_emitText _) fun _ => keeps_pure _
  have hnext : enclosing env.program.code f.next.cursor = enclosing env.program.code f.cursor :=
    enclosing_of_act hw hn ha
  refine (hkeeps.giving (leads_act action) hs).mono ?_ fun _ _ hs' => ⟨_, hs'⟩
  rintro flow s' ⟨hleads, hs'⟩
  have hgoes := fits_on hw hp (hnext ▸ enclosing_ne_nil hw hn (by simp [ha])) hnext rfl hs'
  cases flow with
  | done => exact hleads.elim
  | on g => exact (show g = f.next from hleads) ▸ hgoes
  | walk g r => exact (show g = f.next from hleads) ▸ hgoes
  | call g id passed => exact (show g = f.next from hleads) ▸ hgoes

/-- Passing over a node with its content leaves open what is open. -/
theorem fits_skip {g : Frame} (hg : f.Alike g) (ho : n.instruction.isOpening)
    (hb : n.instruction ≠ .body)
    (hs : fits (.within (f.constructs env.program.code e ++ cs)) s.outlet) :
    Flow.Fits fits env.program.code e cs (.on (g.skip n)) s := by
  have hskip : enclosing env.program.code (g.skip n).cursor =
      enclosing env.program.code f.cursor := by
    have hcursor : (g.skip n).cursor = (f.skip n).cursor := by
      change n.close.getD g.cursor + 1 = n.close.getD f.cursor + 1
      rw [hg.1]
    rw [hcursor, Frame.enclosing_skip hw hn ho]
  exact fits_on hw hp (hskip ▸ enclosing_ne_nil hw hn hb) hskip hg.2 hs

/-- A container that is not entered. -/
theorem fits_pass {c : Container} {g : Frame} (hg : f.Alike g) (hc : n.instruction = .container c)
    (hs : fits (.within (f.constructs env.program.code e ++ cs)) s.outlet) :
    Flow.Fits fits env.program.code e cs (.on (g.skip n)) s :=
  fits_skip hw hn hp hg (by rw [hc]; rfl) (by simp [hc]) hs

/-- In content that is entered its container is open too. -/
theorem fits_enter {g : Frame} {c : Container} (hg : g.cursor = f.cursor + 1)
    (hc : n.instruction = .container c) (hentered : c.isEntered)
    (hs : fits (.within (c.opened f.cursor e g.owed ++
      (openConstructs env.program.code e (enclosing env.program.code f.cursor)
        (if c.owes then g.owed.tail else g.owed) ++ cs))) s.outlet) :
    Flow.Fits fits env.program.code e cs (.on g) s := by
  have hplaced := Frame.placed_enter hw hn hp (by rw [hc]; rfl) fun c' hc' => by
    obtain rfl := Instruction.container.inj (hc.symm.trans hc')
    exact hentered
  refine ⟨hplaced.of_cursor hg, ?_⟩
  rw [Frame.constructs_enter hw hn hg hc, List.append_assoc]
  exact hs

omit hp in
theorem fits_enter_plain (hp : f.Placed env.program.code) (ho : n.instruction.isOpening)
    (hc : ∀ c, n.instruction ≠ .container c)
    (hs : fits (.within (f.constructs env.program.code e ++ cs)) s.outlet) :
    Flow.Fits fits env.program.code e cs (.on f.enter) s := by
  refine ⟨Frame.placed_enter hw hn hp ho fun c hc' => absurd hc' (hc c), ?_⟩
  rwa [Frame.constructs_enter_plain hw hn ho hc]

include h

theorem enterIf (test : Path.Expr) (ho : n.instruction.isOpening) (hb : n.instruction ≠ .body)
    (henter : ∀ s', fits (.within (f.constructs env.program.code e ++ cs)) s'.outlet →
      Flow.Fits fits env.program.code e cs (.on f.enter) s')
    (hs : fits (.within (f.constructs env.program.code e ++ cs)) s.outlet) :
    (Operation.enterIf env a f n test).Ensures s (Flow.Fits fits env.program.code e cs)
      fun _ s' => Accounted fits s'.outlet := by
  refine keep (h.calm.evaluate a f test) hs fun v s' hs' => ?_
  rw [ensures_pure]
  split
  · exact henter s' hs'
  · exact fits_skip hw hn hp ⟨rfl, rfl⟩ ho hb hs'

theorem capture {c : Container} (hc : n.instruction = .container c)
    (hk : c.scope? = some .capture) (context : String) (owed : Option QName)
    (howes : c.owes = owed.isSome)
    (hs : fits (.within (f.constructs env.program.code e ++ cs)) s.outlet) :
    (Operation.capture env f n context owed).Ensures s (Flow.Fits fits env.program.code e cs)
      fun _ s' => Accounted fits s'.outlet := by
  unfold Operation.capture
  rw [ensures_bind]
  refine (ensures_attempt (h.openCapture f.cursor context hs)).mono ?_ fun _ _ hs' => hs'
  intro opened s' hs'
  cases opened with
  | none => exact fits_pass hw hn hp ⟨rfl, rfl⟩ hc hs'
  | some u =>
    have hopened : ∀ owed, c.opened f.cursor e owed = [.scope f.cursor .capture] :=
      fun owed => Container.opened_of_scope hk
    cases owed with
    | none =>
      refine fits_enter hw hn hp rfl hc (Container.isEntered_of_scope hk) ?_
      rw [hopened, howes]
      exact hs'
    | some name =>
      refine fits_enter hw hn hp rfl hc (Container.isEntered_of_scope hk) ?_
      rw [hopened, howes]
      exact hs'

theorem openVariable {c : Container} (hc : n.instruction = .container c) (name : String)
    (origin : Origin) (home : Home) (howes : c.owes = false)
    (hk : origin = .written → c.scope? = some .capture)
    (hs : fits (.within (f.constructs env.program.code e ++ cs)) s.outlet) :
    (Operation.openVariable env a f n name origin home).Ensures s
      (Flow.Fits fits env.program.code e cs) fun _ s' => Accounted fits s'.outlet := by
  cases origin with
  | selected select =>
    refine keep (h.calm.evaluate a f select) hs fun v s' hs' => ?_
    rw [ensures_bind]
    refine ((h.preserves_declareVariable home name v).giving (alike_declareVariable home name v)
      hs').mono ?_ fun _ _ hs'' => ⟨_, hs''⟩
    rintro g s'' ⟨hg, hs''⟩
    exact fits_pass hw hn hp hg hc hs''
  | written => exact h.capture hw hn hp hc (hk rfl) _ none howes hs

theorem openParameter (name : String) (default : Option Origin) (home : Home)
    (hc : n.instruction = .container (.parameter name default home))
    (hs : fits (.within (f.constructs env.program.code e ++ cs)) s.outlet) :
    (Operation.openParameter env a f n name default home).Ensures s
      (Flow.Fits fits env.program.code e cs) fun _ s' => Accounted fits s'.outlet := by
  have declared : ∀ (v : Value) s', fits (.within (f.constructs env.program.code e ++ cs)) s'.outlet →
      (do let g ← declareVariable env f home name v
          pure (.on (g.skip n)) : Operation Flow).Ensures s'
        (Flow.Fits fits env.program.code e cs) fun _ s' => Accounted fits s'.outlet := by
    intro v s' hs'
    rw [ensures_bind]
    refine ((h.preserves_declareVariable home name v).giving (alike_declareVariable home name v)
      hs').mono ?_ fun _ _ hs'' => ⟨_, hs''⟩
    rintro g s'' ⟨hg, hs''⟩
    exact fits_pass hw hn hp hg hc hs''
  unfold Operation.openParameter
  split
  · exact declared _ _ hs
  · cases default with
    | some origin => exact h.openVariable hw hn hp hc name origin home rfl (fun ho => ho ▸ rfl) hs
    | none => exact keep (h.calm.reportHere f _ rfl) hs fun _ s' hs' => declared _ _ hs'

theorem startCopy (withAttributes : Bool) (hdepth : a.depth = s.depth)
    (he : e = s.nodes.head?.map OpenNode.event)
    (hc : n.instruction = .container (.copy withAttributes))
    (hs : fits (.within (f.constructs env.program.code e ++ cs)) s.outlet) :
    (Operation.startCopy env a f withAttributes).Ensures s
      (fun _ s' => Flow.Fits fits env.program.code e cs (.on f.enter) s')
      fun _ s' => Accounted fits s'.outlet := by
  unfold Operation.startCopy
  rw [ensures_bind]
  refine (ensures_eventAt hdepth).mono ?_ fun _ _ hs' => hs' ▸ ⟨_, hs⟩
  rintro ev s' ⟨rfl, hev⟩
  obtain rfl : some ev = e := (he.trans hev).symm
  have entered : ∀ s' : State, (ev.content.isElement = false) →
      fits (.within (f.constructs env.program.code (some ev) ++ cs)) s'.outlet →
      Flow.Fits fits env.program.code (some ev) cs (.on f.enter) s' := by
    intro s' hev hs'
    refine fits_enter hw hn hp rfl hc rfl ?_
    have hnone : (Container.copy withAttributes).opened f.cursor (some ev) f.enter.owed = [] := by
      simp only [Container.opened, Option.map_some]
      split
      · simp_all [Content.isElement]
      · rfl
    rw [hnone]
    exact hs'
  have plain : ∀ e' : Output.Event, e'.isPlain → ev.content.isElement = false →
      (emitHere env f e').Ensures s'
        (fun _ s' => Flow.Fits fits env.program.code (some ev) cs (.on f.enter) s')
        fun _ s' => Accounted fits s'.outlet := fun e' he' hev =>
    (h.preserves_plain e' he' _ hs).mono (fun _ _ hs' => entered _ hev hs') fun _ _ hs' =>
      ⟨_, hs'⟩
  cases hcontent : ev.content with
  | element name as =>
    refine (h.emit_opening name _ hs).mono (fun _ s'' hs'' => ?_) fun _ _ hs'' => hs''
    refine fits_enter hw hn hp rfl hc rfl ?_
    simp only [Container.opened, Option.map_some, hcontent]
    exact hs''
  | attr attr ordinal =>
    exact (h.preserves_addAttribute attr _ hs).mono
      (fun _ _ hs' => entered _ (by rw [hcontent]; rfl) hs') fun _ _ hs' => ⟨_, hs'⟩
  | root => exact entered _ (by rw [hcontent]; rfl) hs
  | text t => exact plain _ rfl (by rw [hcontent]; rfl)
  | comment t => exact plain _ rfl (by rw [hcontent]; rfl)
  | instruction t d => exact plain _ rfl (by rw [hcontent]; rfl)

theorem startAttribute (t : NameTemplate) (origin : Origin)
    (hc : n.instruction = .container (.attr t origin))
    (hs : fits (.within (f.constructs env.program.code e ++ cs)) s.outlet) :
    (Operation.startAttribute env a f n t origin).Ensures s
      (Flow.Fits fits env.program.code e cs) fun _ s' => Accounted fits s'.outlet := by
  have passed : ∀ s' : State, fits (.within (f.constructs env.program.code e ++ cs)) s'.outlet →
      Flow.Fits fits env.program.code e cs (.on (f.skip n)) s' := fun s' =>
    fits_pass hw hn hp ⟨rfl, rfl⟩ hc
  refine keep (h.calm.evaluateName a f t) hs fun name s' hs' => ?_
  cases name with
  | none => exact passed s' hs'
  | some name =>
    cases origin with
    | written => exact h.capture hw hn hp hc rfl _ (some name) rfl hs'
    | selected select =>
      exact keep (h.calm.evaluate a f select) hs' fun v _ hs'' =>
        keep (h.preserves_addAttribute _) hs'' fun _ => passed

theorem startInstruction (t : Path.TextTemplate)
    (hc : n.instruction = .container (.processingInstruction t))
    (hs : fits (.within (f.constructs env.program.code e ++ cs)) s.outlet) :
    (Operation.startInstruction env a f n t).Ensures s
      (Flow.Fits fits env.program.code e cs) fun _ s' => Accounted fits s'.outlet := by
  refine keep (h.calm.evaluateText a f t) hs fun target s' hs' => ?_
  split
  · exact keep (h.calm.reportHere f _ rfl) hs' fun _ s'' =>
      fits_pass hw hn hp ⟨rfl, rfl⟩ hc
  · exact h.capture hw hn hp hc rfl _ (some _) rfl hs'

omit h in
theorem nextItem {g : Frame} (hg : f.Alike g) (name : String) (select : Path.Expr)
    (hc : n.instruction = .container (.each name select))
    (hs : fits (.within (f.constructs env.program.code e ++ cs)) s.outlet) :
    (Operation.nextItem g n name).Ensures s (Flow.Fits fits env.program.code e cs)
      fun _ s' => Accounted fits s'.outlet := by
  obtain ⟨hcursor, howed⟩ := hg
  unfold Operation.nextItem
  split
  · refine fits_enter hw hn hp (congrArg (· + 1) hcursor) hc rfl ?_
    change fits (.within (openConstructs _ e _ g.owed ++ cs)) s.outlet
    rw [howed]
    exact hs
  · exact fits_pass hw hn hp (g := { g with loops := g.loops.tail }) ⟨hcursor, howed⟩ hc hs

theorem startContainer (c : Container) (hdepth : a.depth = s.depth)
    (he : e = s.nodes.head?.map OpenNode.event) (hc : n.instruction = .container c)
    (hs : fits (.within (f.constructs env.program.code e ++ cs)) s.outlet) :
    (Operation.startContainer env a f n c).Ensures s (Flow.Fits fits env.program.code e cs)
      fun _ s' => Accounted fits s'.outlet := by
  have hopening : n.instruction.isOpening := by
    rw [hc]
    rfl
  have hbody : n.instruction ≠ .body := by simp [hc]
  have passed : ∀ s' : State, fits (.within (f.constructs env.program.code e ++ cs)) s'.outlet →
      Flow.Fits fits env.program.code e cs (.on (f.skip n)) s' := fun s' =>
    fits_pass hw hn hp ⟨rfl, rfl⟩ hc
  cases c with
  | literal name as =>
    refine keep (h.calm.evaluateAttributes a f as) hs fun as' s' hs' => ?_
    rw [ensures_bind]
    exact (h.emit_opening name as' hs').mono (fun _ s'' hs'' => fits_enter hw hn hp rfl hc rfl hs'')
      fun _ _ hs'' => hs''
  | element t =>
    refine keep (h.calm.evaluateName a f t) hs fun name s' hs' => ?_
    cases name with
    | none => exact passed s' hs'
    | some name =>
      simp only
      rw [ensures_bind]
      exact (h.emit_opening name [] hs').mono
        (fun _ s'' hs'' => fits_enter hw hn hp rfl hc rfl hs'') fun _ _ hs'' => hs''
  | attr t origin => exact h.startAttribute hw hn hp t origin hc hs
  | copy as =>
    simp only [Operation.startContainer]
    rw [ensures_bind]
    exact h.startCopy hw hn hp as hdepth he hc hs
  | comment => exact h.capture hw hn hp hc rfl _ none rfl hs
  | processingInstruction t => exact h.startInstruction hw hn hp t hc hs
  | cdata => exact h.capture hw hn hp hc rfl _ none rfl hs
  | document t =>
    refine keep (h.calm.evaluateText a f t) hs fun href s' hs' => ?_
    rw [ensures_bind]
    refine (ensures_attempt (h.openDocument f.cursor href hs')).mono ?_ fun _ _ hs'' => hs''
    intro opened s'' hs''
    cases opened with
    | none => exact passed s'' hs''
    | some u => exact fits_enter hw hn hp rfl hc rfl hs''
  | message origin terminate =>
    cases origin with
    | selected select =>
      exact keep (h.calm.evaluate a f select) hs fun v _ hs' =>
        keep (h.calm.deliverMessage _ _) hs' fun _ => passed
    | written => exact h.capture hw hn hp hc rfl _ none rfl hs
  | «variable» name origin home =>
    exact h.openVariable hw hn hp hc name origin home rfl (fun ho => ho ▸ rfl) hs
  | parameter name default home => exact h.openParameter hw hn hp name default home hc hs
  | assign name origin =>
    cases origin with
    | selected select =>
      refine keep (h.calm.evaluate a f select) hs fun v s' hs' => ?_
      rw [ensures_bind]
      refine ((h.preserves_assignVariable name v).giving (alike_assignVariable name v) hs').mono ?_
        fun _ _ hs'' => ⟨_, hs''⟩
      rintro g s'' ⟨hg, hs''⟩
      exact fits_pass hw hn hp hg hc hs''
    | written => exact h.capture hw hn hp hc rfl _ none rfl hs
  | loop test =>
    exact h.enterIf hw hn hp test hopening hbody (fun s' hs' => fits_enter hw hn hp rfl hc rfl hs')
      hs
  | each name select =>
    simp only [Operation.startContainer]
    rw [ensures_bind]
    refine ((h.calm.enterLoop a f select).giving (alike_enterLoop select) hs).mono ?_
      fun _ _ hs' => ⟨_, hs'⟩
    rintro g s' ⟨hg, hs'⟩
    exact nextItem hw hn hp hg name select hc hs'

/-! ### Ends of containers -/

section
variable {b : NodeId} (hb : n.instruction = .closing b) {o : Node} {c : Container}
  (ho : env.program.code[b]? = some o) (hc : o.instruction = .container c)
include hb ho

omit h hn in
/-- Outside of the content of a container its constructs are closed. -/
theorem fits_outside {g : Frame} {owed : List QName} (hn : env.program.code[f.cursor]? = some n)
    (hbody : o.instruction ≠ .body)
    (hg : enclosing env.program.code g.cursor = enclosing env.program.code b)
    (howed : g.owed = owed)
    (hs : fits (.within (openConstructs env.program.code e (enclosing env.program.code b) owed
      ++ cs)) s.outlet) : Flow.Fits fits env.program.code e cs (.on g) s := by
  refine ⟨Frame.placed_outside hw hn hp hb ho hbody hg, ?_⟩
  rw [Frame.constructs, hg, howed]
  exact hs

include hc

omit hp in
/-- An operation that uses a captured text goes on outside of the content. -/
theorem after_captured {k : Option String → Operation Flow} (hk : c.scope? = some .capture)
    (hs : fits (.within (f.constructs env.program.code e ++ cs)) s.outlet)
    (hnext : ∀ text s', fits (.within (openConstructs env.program.code e
        (enclosing env.program.code b) (if c.owes then f.owed.tail else f.owed) ++ cs)) s'.outlet →
      (k (some text)).Ensures s' (Flow.Fits fits env.program.code e cs)
        fun _ s' => Accounted fits s'.outlet) :
    (Operation.captured env f b >>= k).Ensures s (Flow.Fits fits env.program.code e cs)
      fun _ s' => Accounted fits s'.outlet := by
  rw [Frame.constructs_closing hw hn hb ho hc, Container.opened_of_scope hk] at hs
  rw [ensures_bind]
  refine (ensures_attempt_of (h.closeCapture b hs)).mono ?_ fun _ _ hs' => ⟨_, hs'.2⟩
  rintro r s' ⟨⟨hr, hs'⟩, -⟩
  obtain ⟨text, rfl⟩ := Option.isSome_iff_exists.mp hr
  exact hnext text s' hs'

theorem finishVariable (name : String) (home : Home) (howes : c.owes = false)
    (hk : c.scope? = some .capture)
    (hs : fits (.within (f.constructs env.program.code e ++ cs)) s.outlet) :
    (do let g ← Operation.finishVariable env f b name home
        pure (.on g.next) : Operation Flow).Ensures s (Flow.Fits fits env.program.code e cs)
      fun _ s' => Accounted fits s'.outlet := by
  simp only [Operation.finishVariable, bind_assoc]
  refine h.after_captured hw hn hb ho hc hk hs fun text s' hs' => ?_
  rw [ensures_bind]
  refine ((h.preserves_declareVariable home name _).giving (alike_declareVariable home name _)
    hs').mono ?_ fun _ _ hs'' => ⟨_, hs''⟩
  rintro g s'' ⟨⟨hcursor, howed⟩, hs''⟩
  refine fits_outside hw hp hb ho hn (by simp [hc]) ?_ (howed.trans ?_) hs''
  · change enclosing _ (g.cursor + 1) = _
    rw [hcursor, (enclosing_of_closing hw hn hb).2.1]
  · rw [howes]
    rfl

theorem finishContainer (hdepth : a.depth = s.depth)
    (he : e = s.nodes.head?.map OpenNode.event)
    (hs : fits (.within (f.constructs env.program.code e ++ cs)) s.outlet) :
    (Operation.finishContainer env a f b c).Ensures s (Flow.Fits fits env.program.code e cs)
      fun _ s' => Accounted fits s'.outlet := by
  have hafter : enclosing env.program.code (f.cursor + 1) = enclosing env.program.code b :=
    (enclosing_of_closing hw hn hb).2.1
  have hin : b ∈ enclosing env.program.code f.cursor := by
    rw [(enclosing_of_closing hw hn hb).1]
    exact List.mem_cons_self
  have hentered : c.isEntered := hp.entered b hin o c ho hc
  have hbody : o.instruction ≠ .body := by simp [hc]
  have out : ∀ s' : State, fits (.within (openConstructs env.program.code e
      (enclosing env.program.code b) f.owed ++ cs)) s'.outlet →
      Flow.Fits fits env.program.code e cs (.on f.next) s' := fun s' =>
    fits_outside hw hp hb ho hn hbody hafter rfl
  have settled : ∀ s' : State, fits (.within (openConstructs env.program.code e
      (enclosing env.program.code b) f.owed.tail ++ cs)) s'.outlet →
      Flow.Fits fits env.program.code e cs (.on f.settle.next) s' := fun s' =>
    fits_outside hw hp hb ho hn hbody hafter rfl
  have captured : ∀ {k : Option String → Operation Flow}, c.scope? = some .capture →
      (∀ text s', fits (.within (openConstructs env.program.code e
          (enclosing env.program.code b) (if c.owes then f.owed.tail else f.owed) ++ cs)) s'.outlet →
        (k (some text)).Ensures s' (Flow.Fits fits env.program.code e cs)
          fun _ s' => Accounted fits s'.outlet) →
      (Operation.captured env f b >>= k).Ensures s (Flow.Fits fits env.program.code e cs)
        fun _ s' => Accounted fits s'.outlet := fun hk =>
    h.after_captured hw hn hb ho hc hk hs
  have hopen := hs
  rw [Frame.constructs_closing hw hn hb ho hc] at hopen
  cases c with
  | literal name as =>
    simp only [Operation.finishContainer, ensures_bind]
    exact (h.emit_closing name hopen).mono (fun _ => out) fun _ _ hs' => hs'
  | element t =>
    simp only [Operation.finishContainer]
    split
    · rename_i name owed howed
      rw [howed] at hopen
      rw [ensures_bind]
      refine (h.emit_closing name hopen).mono (fun _ s' hs' => settled s' ?_) fun _ _ hs' => hs'
      rw [howed]
      exact hs'
    · rename_i howed
      rw [howed] at hopen
      refine settled s ?_
      rw [howed]
      exact hopen
  | attr t origin =>
    cases origin with
    | selected select => cases hentered
    | written =>
      refine captured rfl fun text s' hs' => ?_
      simp only
      split
      · exact keep (h.preserves_addAttribute _) hs' fun _ => settled
      · exact settled s' hs'
  | copy as =>
    simp only [Operation.finishContainer]
    rw [ensures_bind]
    refine (ensures_eventAt hdepth).mono ?_ fun _ _ hs' => hs' ▸ ⟨_, hs⟩
    rintro ev s' ⟨rfl, hev⟩
    obtain rfl : some ev = e := (he.trans hev).symm
    cases hcontent : ev.content with
    | element name attributes =>
      simp only [Container.opened, Option.map_some, hcontent] at hopen
      simp only [ensures_bind]
      exact (h.emit_closing name hopen).mono (fun _ => out) fun _ _ hs' => hs'
    | _ =>
      simp only [Container.opened, Option.map_some, hcontent] at hopen
      exact out s' hopen
  | comment =>
    exact captured rfl fun text s' hs' => keep (h.preserves_plain _ rfl) hs' fun _ => out
  | processingInstruction t =>
    refine captured rfl fun text s' hs' => ?_
    split
    · exact keep (h.preserves_plain _ rfl) hs' fun _ => settled
    · exact settled s' hs'
  | cdata =>
    exact captured rfl fun text s' hs' => keep (h.preserves_plain _ rfl) hs' fun _ _ hs' =>
      keep (h.preserves_plain _ rfl) hs' fun _ _ hs' =>
        keep (h.preserves_plain _ rfl) hs' fun _ => out
  | document t =>
    simp only [Operation.finishContainer, ensures_bind, ensures_discard]
    exact (ensures_attempt_of (h.closeDocument b hopen)).mono (fun _ s' hs' => out s' hs'.1)
      fun _ _ hs' => ⟨_, hs'⟩
  | message origin terminate =>
    cases origin with
    | selected select => cases hentered
    | written =>
      exact captured rfl fun text s' hs' => keep (h.calm.deliverMessage _ _) hs' fun _ => out
  | «variable» name origin home =>
    cases origin with
    | selected select => cases hentered
    | written => exact h.finishVariable hw hn hp hb ho hc name home rfl rfl hs
  | parameter name default home =>
    cases default with
    | none => cases hentered
    | some origin =>
      cases origin with
      | selected select => cases hentered
      | written => exact h.finishVariable hw hn hp hb ho hc name home rfl rfl hs
  | assign name origin =>
    cases origin with
    | selected select => cases hentered
    | written =>
      refine captured rfl fun text s' hs' => ?_
      simp only
      rw [ensures_bind]
      refine ((h.preserves_assignVariable name _).giving (alike_assignVariable name _) hs').mono ?_
        fun _ _ hs'' => ⟨_, hs''⟩
      rintro g s'' ⟨⟨hcursor, howed⟩, hs''⟩
      refine fits_outside hw hp hb ho hn hbody ?_ howed hs''
      change enclosing _ (g.cursor + 1) = _
      rw [hcursor, hafter]
  | loop test => exact fits_outside hw hp hb ho hn hbody rfl rfl hopen
  | each name select => exact fits_outside hw hp hb ho hn hbody rfl rfl hopen

end

/-- Where control goes on when something other than a container ends. -/
theorem closeAt {b : NodeId} (hb : n.instruction = .closing b) (hdepth : a.depth = s.depth)
    (he : e = s.nodes.head?.map OpenNode.event)
    (hs : fits (.within (f.constructs env.program.code e ++ cs)) s.outlet) :
    (Operation.closeAt env a f b).Ensures s (Flow.Fits fits env.program.code e cs)
      fun _ s' => Accounted fits s'.outlet := by
  obtain ⟨hin, hafter, o, ho, hclose⟩ := enclosing_of_closing hw hn hb
  have hlaw := hw.lawful _ _ ho
  unfold Operation.closeAt
  rw [ho]
  by_cases hc : ∃ c, o.instruction = .container c
  · obtain ⟨c, hc⟩ := hc
    simp only [hc]
    exact h.finishContainer hw hn hp hb ho hc hdepth he hs
  · rw [Frame.constructs_closing_plain hw hn hb ho fun c hc' => hc ⟨c, hc'⟩] at hs
    have out : ∀ {g : Frame}, o.instruction ≠ .body →
        enclosing env.program.code g.cursor = enclosing env.program.code b → g.owed = f.owed →
        Flow.Fits fits env.program.code e cs (.on g) s := fun hbody hg howed =>
      fits_outside hw hp hb ho hn hbody hg howed hs
    cases hi : o.instruction with
    | container c => exact absurd ⟨c, hi⟩ hc
    | body =>
      rw [hlaw.body.mp hi] at hs
      simp only [hi]
      exact hs
    | condition test alternative =>
      cases alternative with
      | none =>
        simp only [hi]
        exact out (g := f.next) (by simp [hi]) hafter rfl
      | some i =>
        obtain ⟨m, c, hm, hc, -, hsame⟩ := hlaw.alternative test i hi
        simp only [hi, leaveTo, hm, hc]
        refine out (by simp [hi]) ?_ rfl
        change enclosing _ (c + 1) = _
        rw [enclosing_after_close hw hm hc, hsame]
    | when test i =>
      obtain ⟨st, ⟨m, c, hm, hc, -, hst⟩, hsame⟩ := hlaw.choice test i hi
      simp only [hi, leaveTo, hm, hc]
      refine out (by simp [hi]) ?_ rfl
      change enclosing _ c = _
      rw [((hw.lawful _ _ hm).close c hc).1, hst, hsame]
    | _ =>
      simp only [hi]
      exact out (g := f.next) (by simp [hi]) hafter rfl

/-- Whatever an instruction does, the outlet is like the frame that goes on says. -/
theorem execute (hdepth : a.depth = s.depth) (he : e = s.nodes.head?.map OpenNode.event)
    (hs : fits (.within (f.constructs env.program.code e ++ cs)) s.outlet) :
    (Operation.execute env a f n).Ensures s (Flow.Fits fits env.program.code e cs)
      fun _ s' => Accounted fits s'.outlet := by
  unfold Operation.execute
  split
  case h_5 action ha => exact h.act hw hn hp action ha hs
  case h_6 c hc => exact h.startContainer hw hn hp c hdepth he hc hs
  case h_7 test alternative hi =>
    exact h.enterIf hw hn hp test (by rw [hi]; rfl) (by simp [hi])
      (fun s' hs' => fits_enter_plain hw hn hp (by rw [hi]; rfl) (by simp [hi]) hs') hs
  case h_8 test choice hi =>
    exact h.enterIf hw hn hp test (by rw [hi]; rfl) (by simp [hi])
      (fun s' hs' => fits_enter_plain hw hn hp (by rw [hi]; rfl) (by simp [hi]) hs') hs
  case h_9 b hb => exact h.closeAt hw hn (f := f.leave) (hp.of_cursor rfl) hb hdepth he hs
  all_goals
    rename_i hi
    exact fits_enter_plain hw hn hp (by rw [hi]; rfl) (by simp [hi]) hs

end

end Account

end StreamTransform
