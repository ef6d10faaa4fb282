import StreamTransform.Proofs.Account
import StreamTransform.Proofs.Agenda
import StreamTransform.Proofs.Steady

/-!
# Accounts along a run

At every moment of a run the outlet is like the activations under way say, from
the topmost one down. A step of an activation changes what is on top; the
built-in rule opens an element when it is parked and closes it when it goes on;
no other task writes. So an account that holds before the document holds until
its end, and nothing is open then.
-/

namespace StreamTransform

open Output

/-! ## One step -/

/-- What the activations under way have open, the topmost one first. -/
def openIn (code : Array Node) (es : List Entry) : List Construct :=
  es.flatMap (Entry.constructs code)

/-- In the middle of a document the outlet is like the activations under way say. -/
structure Middle (env : Environment) (fits : Stage → Outlet → Prop) (ts : List Task) (s : State) :
    Prop where
  placed : ∀ x ∈ live ts s.nodes, x.Placed env.program.code
  fits : fits (.within (openIn env.program.code (live ts s.nodes))) s.outlet

section
variable {code : Array Node} {e : Option Event} {a : Activation} {x : Entry} {xs : List Entry}

@[simp] theorem openIn_cons : openIn code (x :: xs) = x.constructs code ++ openIn code xs :=
  List.flatMap_cons

theorem Activation.constructs_of_hasBody (h : a.hasBody) :
    a.constructs code e = a.frames.flatMap (Frame.constructs code e) := by
  unfold Activation.hasBody at h
  unfold Activation.constructs
  split at h
  · cases h
  · rename_i hrole
    rw [hrole]
  · rename_i hrole
    rw [hrole]

/-- An activation that starts a body has nothing open. -/
theorem Entry.of_start {group : GroupId} {b : NodeId} {passed : Bindings} (hw : WellNested code)
    (hb : StartsBody code b) (hf : x.activation.frames = [.start group b passed])
    (hbody : x.activation.hasBody) : x.Placed code ∧ x.constructs code = [] := by
  constructor
  · intro f hf'
    rw [hf, List.mem_singleton] at hf'
    rw [hf']
    exact Frame.placed_start group passed hw hb
  · rw [Entry.constructs, Activation.constructs_of_hasBody hbody, hf, List.flatMap_singleton]
    exact Frame.constructs_start group passed hw hb

end

/-- A step that writes nothing starts at most the declarations of a group. -/
theorem LiveMove.quiet {env : Environment} {ns : List OpenNode} {t : Task} {ts : List Task}
    {l l' : List Entry} (h : LiveMove env ns t ts l l') (hw : env.program.WellNested)
    (ht : t.isQuiet) (hl : ∀ x ∈ l, x.Placed env.program.code) :
    (∀ x ∈ l', x.Placed env.program.code) ∧
      openIn env.program.code l' = openIn env.program.code l := by
  cases h with
  | kept => exact ⟨hl, rfl⟩
  | @initialiser g b _ passed l hb =>
    obtain ⟨hplaced, hnone⟩ := Entry.of_start
      (x := ⟨.start (.initialiser g) ns.length 1 false [.start g b passed],
        ns.map OpenNode.event⟩) hw.code (hw.initialiser g b hb) rfl rfl
    exact ⟨List.forall_mem_cons.mpr ⟨hplaced, hl⟩, by rw [openIn_cons, hnone]; rfl⟩
  | @resumed _ a path _ l =>
    obtain ⟨hplaced, hrest⟩ := List.forall_mem_cons.mp hl
    exact ⟨List.forall_mem_cons.mpr ⟨hplaced, hrest⟩, rfl⟩
  | _ => cases ht

namespace Account

open Operation

variable {env : Environment} {fits : Stage → Outlet → Prop} {s : State} {ts rest : List Task}

/-- An account says nothing of the input side. -/
theorem steady (h : Account env fits) {st : Stage} :
    Steady env (fun s => fits st s.outlet) fun _ s => fits st s.outlet where
  turned hs ho _ _ := ho ▸ hs
  stray hs _ _ := hs
  strayReported hs _ hf := preserves_report (P := fun s => fits st s.outlet)
    (fun _ hs => h.reported _ _ (Fault.isStructural_of_isPositional hf) hs) _ hs

theorem preserves_popNode (h : Account env fits) {st : Stage} (mode : Closing) :
    Preserves (fun s => fits st s.outlet) (popNode mode) := fun _ hs =>
  ensures_popNode (P := fun s => fits st s.outlet) h.calm (fun hs ho _ => ho ▸ hs) (fun _ => hs) hs

/-- A step that writes nothing opens and closes nothing. -/
theorem quiet (h : Account env fits) (hw : env.program.WellNested) {t : Task} (ht : t.isQuiet)
    (ho : Orderly true (t :: rest) s.nodes) (hs : Middle env fits (t :: rest) s) :
    (t.perform env).Ensures s (fun ts s' => Middle env fits (ts ++ rest) s')
      fun _ s' => Accounted fits s'.outlet := by
  refine ((Task.keeps_perform h.calm h.steady t ht fun _ _ _ hs => hs).yielding hs.fits
    fun ts s' hy hfits => ?_).mono (fun _ _ h => h) fun _ _ hs' => ⟨_, hs'⟩
  obtain ⟨hplaced, hopen⟩ := ((Turn.of_yields hy).live_move ho).quiet hw ht hs.placed
  simp only [State.inputSide_nodes] at hplaced hopen
  refine ⟨hplaced, ?_⟩
  rw [hopen]
  exact hfits

/-- What an activation on top of others has open lies on top of what they have. -/
theorem middle_of_top {a : Activation} {path : List Event} {below : List Entry}
    (hbody : a.hasBody) (hlive : live ts s.nodes = ⟨a, path⟩ :: below)
    (htop : ∀ f ∈ a.frames, f.Placed env.program.code)
    (hbelow : ∀ x ∈ below, x.Placed env.program.code)
    (hfits : fits (.within (a.frames.flatMap (Frame.constructs env.program.code path.head?) ++
      openIn env.program.code below)) s.outlet) : Middle env fits ts s := by
  constructor
  · rw [hlive]
    exact List.forall_mem_cons.mpr ⟨htop, hbelow⟩
  · rw [hlive, openIn_cons, Entry.constructs, Activation.constructs_of_hasBody hbody]
    exact hfits

theorem advance (h : Account env fits) (hw : env.program.WellNested) {a : Activation}
    (hbody : a.hasBody) (hdepth : a.depth = s.depth)
    (ho : Orderly true (.run a :: rest) s.nodes) (hs : Middle env fits (.run a :: rest) s) :
    (Operation.advance env a).Ensures s (fun ts s' => Middle env fits (ts ++ rest) s')
      fun _ s' => Accounted fits s'.outlet := by
  obtain ⟨hc, ho⟩ := ho.of_run
  obtain ⟨hplaced, hfits⟩ := hs
  rw [live_run] at hplaced hfits
  have htop : ∀ f ∈ a.frames, f.Placed env.program.code := hplaced _ List.mem_cons_self
  have hbelow := (List.forall_mem_cons.mp hplaced).2
  rw [openIn_cons, Entry.constructs, Activation.constructs_of_hasBody hbody] at hfits
  have goes : ∀ {fs : List Frame} {s' : State}, s'.inputSide = s.inputSide →
      (∀ f ∈ fs, f.Placed env.program.code) →
      fits (.within (fs.flatMap (Frame.constructs env.program.code
        (s.nodes.map OpenNode.event).head?) ++
        openIn env.program.code (live rest s.nodes))) s'.outlet →
      Middle env fits ([.run { a with frames := fs }] ++ rest) s' := by
    intro fs s' hside hfs hs'
    have hnodes := State.nodes_eq hside
    rw [← hnodes] at hbelow hs'
    exact middle_of_top (a := { a with frames := fs }) hbody (live_run _) hfs hbelow hs'
  unfold Operation.advance
  cases hframes : a.frames with
  | nil =>
    rw [hframes] at hfits
    rw [ensures_bind]
    refine ((h.calm.conclude a fun _ _ _ hs => hs).yielding hfits
      fun _ s' hy hs' => ?_).mono (fun _ _ h => h) fun _ _ hs' => ⟨_, hs'⟩
    have hnodes := State.nodes_eq (inputSide_conclude hy)
    rw [← hnodes] at hbelow hs'
    exact ⟨hbelow, hs'⟩
  | cons f fs =>
    rw [hframes] at htop hfits
    obtain ⟨hf, hfs⟩ := List.forall_mem_cons.mp htop
    obtain ⟨n, hn⟩ : ∃ n, env.program.code[f.cursor]? = some n :=
      ⟨_, Array.getElem?_eq_getElem hf.inside⟩
    rw [List.flatMap_cons, List.append_assoc] at hfits
    simp only [hn]
    rw [ensures_bind]
    have hexecute := (h.execute hw.code hn hf (a := a) hdepth List.head?_map hfits).both
      ((inputSide_execute env _ a f n s rfl).both (permitted_execute n).ensures)
    refine hexecute.mono ?_ fun _ _ hs' => hs'.1
    rintro flow s' ⟨hflow, hside, hpermitted⟩
    have hnodes := State.nodes_eq hside
    cases flow with
    | on g =>
      obtain ⟨hg, hs'⟩ := hflow
      rw [← List.append_assoc, ← List.flatMap_cons] at hs'
      exact goes hside (List.forall_mem_cons.mpr ⟨hg, hfs⟩) hs'
    | done => exact goes hside hfs hflow
    | call g id passed =>
      obtain ⟨hg, hs'⟩ := hflow
      have called : ∀ g' : Frame, g'.Placed env.program.code →
          g'.constructs env.program.code (s.nodes.map OpenNode.event).head? = [] →
          Middle env fits ([.run { a with frames := g' :: g :: fs }] ++ rest) s' := by
        intro g' hg' hnone
        refine goes hside (List.forall_mem_cons.mpr ⟨hg', List.forall_mem_cons.mpr ⟨hg, hfs⟩⟩) ?_
        rw [List.flatMap_cons, hnone, List.nil_append, List.flatMap_cons, List.append_assoc]
        exact hs'
      unfold enterProcedure
      simp only
      split
      · exact Keeps.then (preserves_report (P := fun x => fits _ x.outlet) fun _ hx =>
          h.reported _ _ rfl hx) hs' (fun _ _ hs'' => ⟨_, hs''⟩) fun _ _ hs'' => ⟨_, hs''⟩
      · split
        · rename_i q hq
          have hstart := hw.procedure id q hq
          exact called _ (Frame.placed_start q.group passed hw.code hstart)
            (Frame.constructs_start q.group passed hw.code hstart)
        · rw [← List.append_assoc, ← List.flatMap_cons] at hs'
          exact goes hside (List.forall_mem_cons.mpr ⟨hg, hfs⟩) hs'
    | walk g r =>
      obtain ⟨hg, hs'⟩ := hflow
      have hi : a.isInitialiser = false := hpermitted.1
      refine ((h.steady.suspend _ r).yielding hs' fun ts s'' hy hs'' => ?_).mono
        (fun _ _ h => h) fun _ _ hs'' => ⟨_, hs''⟩
      rw [← hnodes] at hc ho hbelow hs''
      obtain ⟨phase, -, hlive⟩ := live_suspend hc (hi ▸ ho) hy
      refine middle_of_top ?_ hlive (List.forall_mem_cons.mpr ⟨hg, hfs⟩) hbelow ?_
      · exact hbody
      · rw [List.flatMap_cons, List.append_assoc]
        exact hs''

theorem startTemplate (h : Account env fits) (hw : env.program.WellNested) (f : Found)
    (passed : Bindings) (hasChildren : Bool)
    (hplaced : ∀ x ∈ live rest s.nodes, x.Placed env.program.code)
    (hs : fits (.within (openIn env.program.code (live rest s.nodes))) s.outlet) :
    (Operation.startTemplate env f passed hasChildren).Ensures s
      (fun ts s' => Middle env fits (ts ++ rest) s') fun _ s' => Accounted fits s'.outlet := by
  unfold Operation.startTemplate
  split
  · exact ⟨hplaced, hs⟩
  · rename_i t ht
    rw [ensures_bind]
    refine (h.steady.current.yielding hs fun n s' hy hs' => ?_).mono (fun _ _ h => h)
      fun _ _ hs' => ⟨_, hs'⟩
    obtain ⟨⟨ns, hn⟩, rfl⟩ := yields_current.mp hy
    simp only [ensures_bind, ensures_note, ensures_get]
    have started : ∀ {ts : List Task} {a : Activation},
        live ts s'.nodes = ⟨a, s'.nodes.map OpenNode.event⟩ :: live rest s'.nodes →
        a.frames = [.start t.group t.body passed] → a.hasBody →
        Middle env fits ts (s'.after (.noted (.enterTemplate f.id t.source n.event))) := by
      intro ts a hlive hframes hbody
      obtain ⟨htop, hnone⟩ := Entry.of_start (x := ⟨a, s'.nodes.map OpenNode.event⟩) hw.code
        (hw.template _ _ ht) hframes hbody
      rw [Entry.constructs, Activation.constructs_of_hasBody hbody] at hnone
      refine middle_of_top hbody hlive htop hplaced ?_
      rw [hnone]
      exact h.noted _ hs'
    split
    · exact started ((live_level rfl).trans (live_run _)) rfl rfl
    · exact started (live_run _) rfl rfl

theorem builtIn (h : Account env fits) (g : Handover) (hasChildren : Bool) (hc : Clear s.nodes)
    (ho : Orderly false rest s.nodes)
    (hplaced : ∀ x ∈ live rest s.nodes, x.Placed env.program.code)
    (hs : fits (.within (openIn env.program.code (live rest s.nodes))) s.outlet) :
    (Operation.builtIn env g hasChildren).Ensures s
      (fun _ s' => Middle env fits rest s') fun _ s' => Accounted fits s'.outlet := by
  unfold Operation.builtIn
  rw [ensures_bind]
  refine (h.steady.current.yielding hs fun n s' hy hs' => ?_).mono (fun _ _ h => h)
    fun _ _ hs' => ⟨_, hs'⟩
  obtain ⟨⟨ns, hn⟩, rfl⟩ := yields_current.mp hy
  have hclear : n.waits = [] := clear_cons.mp (hn ▸ hc)
  have descended : ∀ (copied : Option QName) (s₁ : State), s₁.inputSide = s'.inputSide →
      fits (.within ((copied.map Construct.element).toList ++
        openIn env.program.code (live rest s'.nodes))) s₁.outlet →
      (do parkForChildren (.start (.builtIn copied) (← get).depth 1 hasChildren []) g).Ensures s₁
        (fun _ s' => Middle env fits rest s') fun _ s' => Accounted fits s'.outlet := by
    intro copied s₁ hside hs₁
    have hnodes := (State.nodes_eq hside).trans hn
    rw [ensures_bind, ensures_get, parkForChildren, ensures_modifyCurrent hnodes]
    let n' := { n with
      children := some g
      activations := .descending copied s₁.depth hasChildren :: n.activations }
    have hlive : live rest (n' :: ns) = _ := live_park (hn ▸ ho) hclear _ hclear rfl rfl
    rw [← hn] at hlive
    have hmiddle : Middle env fits rest { s₁ with nodes := n' :: ns } := by
      constructor
      · rw [hlive]
        refine List.forall_mem_cons.mpr ⟨fun f hf => ?_, hplaced⟩
        cases hf
      · rw [hlive, openIn_cons]
        cases copied <;> exact hs₁
    exact hmiddle
  have kept : ∀ {op : Operation Unit},
      Preserves (fun s => fits (.within (openIn env.program.code (live rest s'.nodes))) s.outlet)
        op → Preserves (fun s => s.inputSide = s'.inputSide) op →
      op.Ensures s' (fun _ s' => Middle env fits rest s') fun _ s' => Accounted fits s'.outlet := by
    intro op hfits hside
    refine ((hfits _ hs').both (hside _ rfl)).mono ?_ fun _ _ hs₁ => ⟨_, hs₁.1⟩
    rintro _ s₁ ⟨hs₁, hside₁⟩
    have hnodes := State.nodes_eq hside₁
    rw [← hnodes] at hplaced hs₁
    exact ⟨hplaced, hs₁⟩
  have silent := kept (keeps_pure ()) (keeps_pure ())
  have outward := outward_inputSide env s'.inputSide
  cases hcontent : n.event.content with
  | root => exact descended none s' rfl hs'
  | element name as =>
    simp only
    split
    · rw [ensures_bind]
      refine ((h.emit_opening name as hs').both (outward.emit _ none s' rfl)).mono ?_
        fun _ _ hs₁ => hs₁.1
      rintro _ s₁ ⟨hs₁, hside⟩
      exact descended (some name) s₁ hside hs₁
    · exact descended none s' rfl hs'
  | text t =>
    simp only
    split
    · exact kept (h.preserves_plain _ rfl) (outward.emit _ _)
    · exact silent
  | comment t =>
    simp only
    split
    · exact kept (h.preserves_plain _ rfl) (outward.emit _ _)
    · exact silent
  | instruction target data =>
    simp only
    split
    · exact kept (h.preserves_plain _ rfl) (outward.emit _ _)
    · exact silent
  | attr attr ordinal =>
    simp only
    split
    · exact kept (h.preserves_addAttribute _) (outward.addAttribute _ _)
    · exact silent

theorem dispatch (h : Account env fits) (hw : env.program.WellNested) {g : Handover}
    {exclude : List TemplateId} {hasChildren : Bool}
    (ho : Orderly true (.dispatch g exclude hasChildren :: rest) s.nodes)
    (hs : Middle env fits (.dispatch g exclude hasChildren :: rest) s) :
    (Operation.dispatch env g exclude hasChildren).Ensures s
      (fun ts s' => Middle env fits (ts ++ rest) s') fun _ s' => Accounted fits s'.outlet := by
  obtain ⟨hc, ho⟩ := ho.of_dispatch
  obtain ⟨hplaced, hfits⟩ := hs
  rw [live_level rfl] at hplaced hfits
  unfold Operation.dispatch
  rw [ensures_bind]
  have hselect := (h.calm.selectTemplate g.group exclude hasChildren _ hfits).both
    ((outward_inputSide env _).selectTemplate g.group exclude hasChildren s rfl)
  refine hselect.mono ?_ fun _ _ hs' => ⟨_, hs'.1⟩
  rintro found s' ⟨hs', hside⟩
  rw [← State.nodes_eq hside] at hc ho hplaced hs'
  cases found with
  | some f => exact h.startTemplate hw f g.passed hasChildren hplaced hs'
  | none =>
    simp only
    rw [ensures_bind]
    exact h.builtIn g hasChildren hc ho hplaced hs'

theorem unwind (h : Account env fits) {mode : Closing}
    (ho : Orderly true (.unwind mode :: rest) s.nodes)
    (hs : Middle env fits (.unwind mode :: rest) s) :
    (Operation.unwind env mode).Ensures s (fun ts s' => Middle env fits (ts ++ rest) s')
      fun _ s' => Accounted fits s'.outlet := by
  obtain ⟨hplaced, hfits⟩ := hs
  have popped : (∀ n ns, s.nodes = n :: ns → ∀ a r, n.activations = a :: r →
        outlives mode a = true) →
      (do popNode mode
          pure [] : Operation (List Task)).Ensures s
        (fun ts s' => Middle env fits (ts ++ rest) s') fun _ s' => Accounted fits s'.outlet := by
    intro hout
    rw [ensures_bind]
    refine ((h.preserves_popNode mode).yielding hfits fun _ s' hy hs' => ?_).mono
      (fun _ _ h => h) fun _ _ hs' => ⟨_, hs'⟩
    obtain ⟨n, ns, hn, hside⟩ := yields_popNode hy
    have hnodes : s'.nodes = handOn n ns := by
      rw [← State.inputSide_nodes s', hside]
    rw [hn] at ho hplaced hs'
    rw [← live_handOn ho (hout n ns hn), ← hnodes] at hplaced hs'
    exact ⟨hplaced, hs'⟩
  unfold Operation.unwind
  rw [ensures_bind, ensures_get]
  cases hn : s.nodes with
  | nil => exact popped (by simp [hn])
  | cons n ns =>
    simp only
    cases ha : n.activations with
    | nil => exact popped (by simp [hn, ha])
    | cons a r =>
      simp only
      split
      · rename_i hout
        refine popped fun m ms hm b l hb => ?_
        rw [hn] at hm
        obtain ⟨rfl, rfl⟩ := List.cons.inj hm
        rw [ha] at hb
        obtain ⟨rfl, rfl⟩ := List.cons.inj hb
        exact hout
      · rw [hn] at ho hplaced hfits
        have hclear := clear_cons.mp ho.of_unwind.1
        rw [live_unwind, entries_resumed hclear ha, List.cons_append,
          ← live_unwind mode] at hplaced hfits
        rw [openIn_cons] at hfits
        obtain ⟨htop, hbelow⟩ := List.forall_mem_cons.mp hplaced
        simp only [ensures_bind, ensures_modifyCurrent hn]
        let s₁ : State := { s with nodes := { n with children := none, activations := r } :: ns }
        have resumed : a.hasBody →
            Middle env fits ([.run { a with phase := .running }] ++ [.unwind mode] ++ rest) s₁ := by
          intro hbody
          rw [Entry.constructs, Activation.constructs_of_hasBody hbody] at hfits
          exact middle_of_top (a := { a with phase := .running }) hbody (live_run _) htop hbelow
            hfits
        unfold resume
        split
        · rename_i copied hrole
          simp only [Entry.constructs, Activation.constructs, hrole] at hfits
          cases copied with
          | none => exact ⟨hbelow, hfits⟩
          | some name =>
            simp only [ensures_bind]
            refine ((h.emit_closing (s := s₁) name hfits).both
              ((outward_inputSide env _).emit _ none s₁ rfl)).mono ?_ fun _ _ hs' => hs'.1
            rintro _ s' ⟨hs', hside⟩
            have hnodes : s'.nodes = { n with children := none, activations := r } :: ns :=
              State.nodes_eq hside
            rw [← hnodes] at hbelow hs'
            exact ⟨hbelow, hs'⟩
        · rename_i hrole
          exact resumed (by rw [Activation.hasBody, hrole])
        · rename_i hrole
          exact resumed (by rw [Activation.hasBody, hrole])

theorem begin (h : Account env fits) (hs : fits .before s.outlet) (hnodes : s.nodes = []) :
    (Operation.begin env).Ensures s (fun ts s' => Middle env fits (ts ++ []) s')
      fun _ s' => Accounted fits s'.outlet := by
  unfold Operation.begin
  rw [ensures_bind, ensures_note, ensures_bind]
  have hemit : (Operation.emit env .startDocument none).Ensures (s.after (.noted .startDocument))
      (fun _ s' => fits (.within []) s'.outlet) fun _ s' => Accounted fits s'.outlet :=
    h.ensures_emit _ (h.noted _ hs) fun _ => h.started
  refine (hemit.both ((outward_inputSide env _).emit .startDocument none _ rfl)).mono ?_
    fun _ _ hs' => hs'.1
  rintro _ s' ⟨hs', hside⟩
  have hroot : s'.nodes = [] := (State.nodes_eq hside).trans hnodes
  simp only [newEvent, enterNode, ensures_bind, ensures_modifyGet, ensures_modify, ensures_get,
    ensures_note, ensures_pure]
  have hnone : ∀ e, live ((List.range env.program.groups.size).map Task.enterGroup ++
      [.dispatch ⟨Program.rootGroup, []⟩ [] true]) (.fresh e :: s'.nodes) = [] := by
    intro e
    rw [live_enterGroups, live_level rfl, live_nil, hroot]
    rfl
  constructor
  · simp only [List.append_nil, State.after, hnone]
    simp
  · simp only [List.append_nil, State.after, hnone]
    exact h.noted _ hs'

theorem endOutput (h : Account env fits) (hs : fits (.within []) s.outlet) :
    (Operation.endOutput env).Ensures s (fun _ s' => fits .after s'.outlet)
      fun _ s' => Accounted fits s'.outlet := by
  unfold Operation.endOutput
  rw [ensures_bind]
  exact (h.ensures_emit .endDocument hs fun _ => h.ended).mono (fun _ _ hs' => h.noted _ hs')
    fun _ _ hs' => hs'

/-- A step in the middle of a document that does not end the output stays in the middle. -/
theorem perform (h : Account env fits) (hw : env.program.WellNested) {i : Input} {t : Task}
    (hm : Reached env ⟨i, t :: rest, s⟩) (hbegin : t ≠ .begin) (hend : t ≠ .endOutput)
    (hs : Middle env fits (t :: rest) s) :
    (t.perform env).Ensures s (fun ts s' => Middle env fits (ts ++ rest) s')
      fun _ s' => Accounted fits s'.outlet := by
  have ho : Orderly true (t :: rest) s.nodes := (sound_of_reached hm).orderly
  cases t with
  | begin => exact absurd rfl hbegin
  | endOutput => exact absurd rfl hend
  | dispatch g exclude hasChildren => exact h.dispatch hw ho hs
  | unwind mode => exact h.unwind ho hs
  | run a =>
    have hbody := (attended_of_reached hm).of_run.1
    have hlive : (⟨i, .run a :: rest, s⟩ : Moment).live = [] ++
        ⟨a, s.nodes.map OpenNode.event⟩ :: live rest s.nodes := live_run a
    exact h.advance hw hbody (startedBefore hm hlive).1 ho hs
  | _ => exact h.quiet hw rfl ho hs

end Account

/-! ## Runs -/

/-- How far the output has come at a moment. -/
inductive Moment.IsAt (env : Environment) (m : Moment) : Stage → Prop
  | before : m.state.status = .notStarted ∨ .begin ∈ m.agenda → IsAt env m .before
  | within : m.state.status ≠ .notStarted → .begin ∉ m.agenda →
      (m.agenda = [] → m.settled.status ≠ .finished) →
      (∀ x ∈ m.live, x.Placed env.program.code) →
      IsAt env m (.within (openIn env.program.code m.live))
  | after : m.agenda = [] → m.settled.status = .finished → IsAt env m .after

namespace Account

open Operation

section
variable {env : Environment} {fits : Stage → Outlet → Prop} {m m' : Moment} {i : Input} {st : Stage}

/-- What a step makes of the stage: the document begins, goes on or is at its end. -/
theorem step (h : Account env fits) (hw : env.program.WellNested) {t : Task} {rest : List Task}
    {s : State} (hm : Reached env ⟨i, t :: rest, s⟩)
    (hst : (⟨i, t :: rest, s⟩ : Moment).IsAt env st) (hs : fits st s.outlet) :
    (t.perform env).Ensures s
      (fun ts s' => (t ≠ .endOutput ∧ Middle env fits (ts ++ rest) s') ∨
        (t = .endOutput ∧ fits .after s'.outlet))
      fun _ s' => Accounted fits s'.outlet := by
  have hsound := sound_of_reached hm
  cases hst with
  | after hd => cases hd
  | before hb =>
    have hrunning : s.status = .running := hsound.started (by simp)
    rcases hb with hn | hb
    · rw [hrunning] at hn
      cases hn
    · obtain ⟨rfl, rfl⟩ := List.cons.inj (hsound.alone hb)
      have hnodes : s.nodes = [] := (hsound.unstarted (.inr hb)).nodes
      exact (h.begin hs hnodes).mono (fun _ _ hm => .inl ⟨by simp, hm⟩) fun _ _ hs' => hs'
  | within hn hb hd hp =>
    by_cases hend : t = .endOutput
    · subst hend
      obtain ⟨-, rfl, hnodes⟩ := nodes_of_endOutput hm
      have hlive : (⟨i, [.endOutput], s⟩ : Moment).live = [] := by
        rw [Moment.live, hnodes, live_level rfl, live_nil]
        rfl
      rw [hlive] at hs
      simp only [Task.perform, ensures_bind, ensures_pure]
      exact (h.endOutput hs).mono (fun _ _ hs' => .inr ⟨trivial, hs'⟩) fun _ _ hs' => hs'
    · have hbegin : t ≠ .begin := fun ht => hb (by simp [ht])
      exact (h.perform hw hm hbegin hend ⟨hp, hs⟩).mono (fun _ _ hm => .inl ⟨hend, hm⟩)
        fun _ _ hs' => hs'

theorem fits_task (h : Account env fits) (hw : env.program.WellNested) {t : Task}
    {ts rest : List Task} {s s' : State} (hm : Reached env ⟨i, t :: rest, s⟩)
    (hy : (t.perform env).Yields s ts s') (hst : (⟨i, t :: rest, s⟩ : Moment).IsAt env st)
    (hs : fits st s.outlet) :
    ∃ st', (⟨i, ts ++ rest, s'⟩ : Moment).IsAt env st' ∧ fits st' s'.outlet := by
  have hsound := sound_of_reached hm
  have hturn := Turn.of_yields hy
  have hrunning : s'.status = .running := hturn.status_eq.trans (hsound.started (by simp))
  rcases (h.step hw hm hst hs).of_yields hy with ⟨hend, hmiddle⟩ | ⟨rfl, hafter⟩
  · refine ⟨_, .within (by simp [hrunning]) (hsound.begin_notMem hturn) ?_ hmiddle.placed,
      hmiddle.fits⟩
    intro hnone hfinished
    obtain ⟨rfl, rfl⟩ := List.append_eq_nil_iff.mp hnone
    have hi : i = .endDocument := by
      cases i <;> first | rfl | (change s'.status = _ at hfinished; simp [hrunning] at hfinished)
    rcases (concluding_of_reached hm).present hi (by simp) with hc | he
    · obtain rfl := List.mem_singleton.mp hc
      exact absurd hturn.conclude_tasks (by simp)
    · exact hend (List.mem_singleton.mp he).symm
  · obtain ⟨rfl, rfl, -⟩ := nodes_of_endOutput hm
    obtain rfl := hturn.endOutput_tasks
    exact ⟨_, .after rfl rfl, hafter⟩

/-- A call that is taken in changes nothing of the output. -/
theorem isAt_take (hm : Reached env m) (hd : m.agenda = [])
    (ha : i.refusal? m.settled.status = none) (hst : m.IsAt env st) :
    (Moment.take i m.settled).IsAt env st := by
  have hlive : (Moment.take i m.settled).live = m.live := by
    rw [Moment.live, Moment.live, Moment.take, live_outer i.outer_tasks, i.apply_nodes, hd, live_nil]
    rfl
  cases hst with
  | before hb =>
    have hn : m.state.status = .notStarted := by simpa [hd] using hb
    have hs : m.settled.status = .notStarted := by
      obtain ⟨j, ts, s⟩ := m
      cases j with
      | endDocument =>
        have hrunning := (concluding_of_reached hm).running rfl
        rw [hn] at hrunning
        cases hrunning
      | _ => exact hn
    rw [hs] at ha
    refine .before ?_
    cases i with
    | startDocument => exact .inr (by simp [Moment.take, Input.tasks])
    | parameter n v => exact .inl hs
    | _ => cases ha
  | within hn hb he hp =>
    have hfinished := he hd
    have hs : m.settled.status ≠ .notStarted := by
      obtain ⟨j, ts, s⟩ := m
      cases j with
      | endDocument => simp [Moment.settled, Input.statusAfter]
      | _ => exact hn
    rw [← hlive] at hp ⊢
    refine .within ?_ ?_ ?_ hp
    · cases i with
      | startDocument => simp [Moment.take, Input.apply]
      | _ => exact hs
    · cases i with
      | startDocument => cases hst : m.settled.status <;> simp_all [Input.refusal?]
      | _ => simp [Moment.take, Input.tasks]
    · cases i with
      | characters t => exact fun _ => hfinished
      | parameter n v => exact fun _ => hfinished
      | _ => simp [Moment.take, Input.tasks]
  | after _ hf =>
    rw [hf] at ha
    cases i with
    | parameter n v => exact .after rfl hf
    | _ => cases ha

/-- At every moment the outlet fits the stage. -/
theorem fits_of_reached (h : Account env fits) (hw : env.program.WellNested)
    (hm : Reached env m) : ∃ st, m.IsAt env st ∧ fits st m.state.outlet := by
  induction hm with
  | first i ha =>
    refine ⟨.before, .before ?_, ?_⟩
    · cases i with
      | startDocument => exact .inr (by simp [Moment.take, Input.tasks])
      | parameter n v => exact .inl rfl
      | _ => cases ha
    · cases i <;> exact h.initial
  | next hm hn ih =>
    obtain ⟨st, hst, hs⟩ := ih
    cases hn with
    | task hy => exact h.fits_task hw hm hy hst hs
    | call i hd ha =>
      refine ⟨st, isAt_take hm hd ha hst, ?_⟩
      cases i <;> exact hs

/-- A step that fails leaves the outlet as some stage has it. -/
theorem accounted_of_fails (h : Account env fits) (hw : env.program.WellNested) {t : Task}
    {rest : List Task} {s s' : State} {f : Fault} (hm : Reached env ⟨i, t :: rest, s⟩)
    (hf : (t.perform env).Fails s f s') : Accounted fits s'.outlet := by
  obtain ⟨st, hst, hs⟩ := h.fits_of_reached hw hm
  exact (h.step hw hm hst hs).of_fails hf

/-- Whatever becomes of the calls, the outlet fits some stage. -/
theorem accounted_afterCalls (h : Account env fits) (hw : env.program.WellNested) (fuel : Nat)
    (is : List Input) :
    Accounted fits ((State.initial env.program).afterCalls env fuel is).outlet := by
  refine outlet_afterCalls ⟨_, h.initial⟩ (fun m hm => ?_) (fun i t rest s f s' hm hf => ?_) is
  · obtain ⟨st, -, hs⟩ := h.fits_of_reached hw hm
    exact ⟨st, hs⟩
  · exact h.accounted_of_fails hw hm hf

/-- The output is at its end when the document is. -/
theorem fits_after (h : Account env fits) (hw : env.program.WellNested) {fuel : Nat}
    {is : List Input} {s : State}
    (hc : ((State.initial env.program).afterCalls env fuel is).receive env fuel .endDocument =
      (.completed, s)) : fits .after s.outlet := by
  rcases between_or_aborted fuel is (.inl (.inl rfl)) with hb | habort
  · obtain ⟨m, hm, hi, hd, rfl⟩ := reached_of_receive hb hc
    obtain ⟨st, hst, hs⟩ := h.fits_of_reached hw hm
    have hfinished : m.settled.status = .finished := by
      rw [Moment.settled, hi]
      rfl
    cases hst with
    | before hn =>
      have hrunning := (concluding_of_reached hm).running hi
      rcases hn with hn | hn
      · rw [hrunning] at hn
        cases hn
      · rw [hd] at hn
        cases hn
    | within _ _ he => exact absurd hfinished (he hd)
    | after => exact hs
  · simp [State.receive, habort, Input.refusal?] at hc

/-- Where an activation executes, the document is in its middle. -/
theorem fits_of_run (h : Account env fits) (hw : env.program.WellNested) {a : Activation}
    {rest : List Task} {f : Frame} {fs : List Frame} (hm : Reached env m)
    (ha : m.agenda = .run a :: rest) (hf : a.frames = f :: fs) :
    ∃ cs, fits (.within (f.constructs env.program.code
      (m.state.nodes.map OpenNode.event).head? ++ cs)) m.state.outlet := by
  obtain ⟨st, hst, hs⟩ := h.fits_of_reached hw hm
  have hsound := sound_of_reached hm
  cases hst with
  | before hb =>
    rcases hb with hn | hb
    · rw [hsound.started (by simp [ha])] at hn
      cases hn
    · have halone := hsound.alone hb
      rw [ha] at halone
      cases halone
  | within =>
    have hbody : a.hasBody := (ha ▸ attended_of_reached hm).of_run.1
    rw [Moment.live, ha, live_run, openIn_cons, Entry.constructs,
      Activation.constructs_of_hasBody hbody, hf, List.flatMap_cons, List.append_assoc] at hs
    exact ⟨_, hs⟩
  | after hd =>
    rw [ha] at hd
    cases hd

end

end Account

end StreamTransform
