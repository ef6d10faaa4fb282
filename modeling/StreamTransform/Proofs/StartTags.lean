import StreamTransform.Proofs.Nesting
import StreamTransform.Proofs.Siblings

/-!
# Attributes of start tags

A start tag is held back with the attributes that its element is given: those of
a node that is copied, or those that a literal element is written with. Others
are added one at a time, and one whose name the tag has replaces a value. So a
tag carries two attributes of one name only if a literal element is written so.
-/

namespace StreamTransform

/-- No two of the names are the same. -/
def Distinct (names : List QName) : Prop := names.Pairwise fun a b => a.same b = false

/-- The names of the attributes that an element is given when its start tag is held back. -/
inductive Given (p : Program) (is : List Input) (n : QName) : List QName → Prop
  | bare : Given p is n []
  | written {id : NodeId} {node : Node} {pairs : List (QName × Path.TextTemplate)} :
      p.code[id]? = some node → node.instruction = .container (.literal n pairs) →
      Given p is n (pairs.map Prod.fst)
  | copied {as : List Attribute} : .opening n as ∈ is → Given p is n (as.map Attribute.name)

/-- Attributes that were given, and then others, each with a name of its own. -/
def Assembled (p : Program) (is : List Input) (n : QName) (as : List Attribute) : Prop :=
  ∃ given added, as.map Attribute.name = given ++ added ∧ Given p is n given ∧
    Distinct added ∧ ∀ a ∈ given, ∀ b ∈ added, a.same b = false

section
variable {p : Program} {is : List Input} {n : QName} {as : List Attribute}

theorem Given.assembled (h : Given p is n (as.map Attribute.name)) : Assembled p is n as :=
  ⟨_, [], by simp, h, .nil, by simp⟩

theorem assembled_bare (p : Program) (is : List Input) (n : QName) : Assembled p is n [] :=
  Given.assembled .bare

/-- An attribute that is added replaces a value, or has a name that the tag did not have. -/
theorem names_putAttribute (a : Attribute) (as : List Attribute) :
    (Output.putAttribute a as).map Attribute.name = as.map Attribute.name ∨
      (Output.putAttribute a as).map Attribute.name = as.map Attribute.name ++ [a.name] ∧
        ∀ b ∈ as.map Attribute.name, b.same a.name = false := by
  induction as with
  | nil => exact .inr ⟨rfl, by simp⟩
  | cons b as ih =>
    unfold Output.putAttribute
    cases hb : b.name.same a.name with
    | true => exact .inl (by simp)
    | false =>
      simp only [Bool.false_eq_true, if_false, List.map_cons, List.cons_append,
        List.forall_mem_cons]
      rcases ih with heq | ⟨heq, hnew⟩
      · exact .inl (by rw [heq])
      · exact .inr ⟨by rw [heq], hb, hnew⟩

theorem Assembled.put (h : Assembled p is n as) (a : Attribute) :
    Assembled p is n (Output.putAttribute a as) := by
  obtain ⟨given, added, hnames, hgiven, hdistinct, hapart⟩ := h
  rcases names_putAttribute a as with heq | ⟨heq, hnew⟩
  · exact ⟨given, added, heq.trans hnames, hgiven, hdistinct, hapart⟩
  · rw [hnames] at heq hnew
    refine ⟨given, added ++ [a.name], by rw [heq, List.append_assoc], hgiven, ?_, ?_⟩
    · refine List.pairwise_append.mpr ⟨hdistinct, List.pairwise_singleton _ _, ?_⟩
      intro b hb c hc
      rw [List.mem_singleton.mp hc]
      exact hnew b (List.mem_append_right _ hb)
    · intro b hb c hc
      rcases List.mem_append.mp hc with hc | hc
      · exact hapart b hb c hc
      · rw [List.mem_singleton.mp hc]
        exact hnew b (List.mem_append_left _ hb)

/-- The names are distinct if those that were given are. -/
theorem Assembled.distinct (h : Assembled p is n as)
    (hcopied : ∀ as, .opening n as ∈ is → Distinct (as.map Attribute.name)) :
    Distinct (as.map Attribute.name) ∨ ∃ (id : NodeId) (node : Node)
      (pairs : List (QName × Path.TextTemplate)), p.code[id]? = some node ∧
        node.instruction = .container (.literal n pairs) ∧ ¬ Distinct (pairs.map Prod.fst) ∧
        pairs.map Prod.fst <+: as.map Attribute.name := by
  obtain ⟨given, added, hnames, hgiven, hdistinct, hapart⟩ := h
  rw [hnames]
  have joined : Distinct given → Distinct (given ++ added) := fun hd =>
    List.pairwise_append.mpr ⟨hd, hdistinct, hapart⟩
  cases hgiven with
  | bare => exact .inl (joined .nil)
  | copied has => exact .inl (joined (hcopied _ has))
  | @written id node pairs hcode hi =>
    by_cases hd : Distinct (pairs.map Prod.fst)
    · exact .inl (joined hd)
    · exact .inr ⟨id, node, pairs, hcode, hi, hd, List.prefix_append _ _⟩

end

/-! ## Writes -/

namespace Output

/-- The start tags that are held back or were sent have a property. -/
structure Outlet.Bears (T : QName → List Attribute → Prop) (o : Outlet) : Prop where
  held : ∀ t ∈ o.scopes, ∀ n as, t.pending = some (n, as) → T n as
  sent : ∀ d n as refusal, .sent d (.opening n as) refusal ∈ o.record → T n as

variable {T : QName → List Attribute → Prop} {o : Outlet}

theorem Outlet.bears_initial : Outlet.initial.Bears T where
  held t ht n as hp := by
    obtain rfl := List.mem_singleton.mp ht
    cases hp
  sent _ _ _ _ h := by cases h

theorem Outlet.Bears.scoped (h : o.Bears T) {scopes : List Scope}
    (hs : ∀ t ∈ scopes, ∀ n as, t.pending = some (n, as) → T n as) :
    Outlet.Bears T { o with scopes := scopes } :=
  ⟨hs, h.sent⟩

theorem Outlet.Bears.after (h : o.Bears T) {happening : Happening}
    (hs : ∀ d n as refusal, happening = .sent d (.opening n as) refusal → T n as) :
    (o.after happening).Bears T where
  held := h.held
  sent d n as refusal hm := by
    rcases List.mem_cons.mp hm with heq | hm
    · exact hs d n as refusal heq.symm
    · exact h.sent d n as refusal hm

namespace Writing

/-- A write that keeps the property. -/
def Bearing (T : QName → List Attribute → Prop) {α : Type} (w : Writing α) : Prop :=
  ∀ o : Outlet, o.Bears T → w.Comes o (Outlet.Bears T)

variable {α β : Type} {s : Surroundings} {t : Scope} {r : List Scope}

theorem bearing_pure (a : α) : Bearing T (pure a) := fun _ h => h

theorem bearing_throw (f : Fault) : Bearing T (throw f : Writing α) := fun _ h => h

theorem bearing_bind {w : Writing α} {k : α → Writing β} (hw : Bearing T w)
    (hk : ∀ a, Bearing T (k a)) : Bearing T (w >>= k) := fun o h =>
  ensures_bind.mpr ((hw o h).mono (fun a o' h' => hk a o' h') fun _ _ h' => h')

theorem bearing_get_bind {k : Outlet → Writing α} (hk : ∀ o, Bearing T (k o)) :
    Bearing T (get >>= k) := fun o h => ensures_bind.mpr (hk o o h)

/-- What is held back in the innermost scope has the property. -/
theorem bearing_top_bind {k : Scope → Writing α}
    (hk : ∀ t, (∀ n as, t.pending = some (n, as) → T n as) → Bearing T (k t)) :
    Bearing T (top >>= k) := by
  intro o h
  unfold Comes
  rw [ensures_bind, ensures_top]
  cases ht : o.scopes with
  | nil => exact h
  | cons t r => exact hk t (h.held t (by simp [ht])) o h

theorem bearing_setTop (ht : ∀ n as, t.pending = some (n, as) → T n as) :
    Bearing T (setTop t) := fun _ h =>
  h.scoped (List.forall_mem_cons.mpr ⟨ht, fun u hu => h.held u (List.mem_of_mem_tail hu)⟩)

theorem bearing_push (target : Target) (owner : Nat) : Bearing T (push target owner) := fun _ h =>
  h.scoped (List.forall_mem_cons.mpr ⟨fun _ _ hp => (by cases hp), h.held⟩)

/-- The event is no start tag, or one with the property. -/
def Event.Tagged (T : QName → List Attribute → Prop) : Output.Event → Prop
  | .opening n as => T n as
  | _ => True

theorem bearing_send (d : Destination) {e : Output.Event} (he : Event.Tagged T e) :
    Bearing T (send s d e) := fun o h =>
  comes_send fun refusal => h.after fun d' n as refusal' heq => by
    obtain ⟨-, rfl, -⟩ := Happening.sent.inj heq
    exact he

theorem bearing_deliver {e : Output.Event} (he : Event.Tagged T e) : Bearing T (deliver s e) := by
  refine bearing_top_bind fun t ht => ?_
  split
  · exact bearing_send _ he
  · split
    · exact bearing_throw _
    · exact bearing_setTop ht

theorem bearing_flush : Bearing T (flush s) := by
  refine bearing_top_bind fun t ht => ?_
  split
  · rename_i n as hp
    exact bearing_bind (bearing_setTop (by simp)) fun _ => bearing_deliver (ht n as hp)
  · exact bearing_pure _

theorem bearing_checkClosed (t : Scope) : Bearing T (checkClosed t) := fun _ h =>
  comes_checkClosed h

theorem bearing_emit {e : Output.Event} (he : Event.Tagged T e) : Bearing T (emit s e) := by
  refine bearing_bind bearing_flush fun _ => bearing_top_bind fun t ht => ?_
  split
  · refine bearing_setTop fun n as hp => ?_
    cases hp
    exact he
  · split
    · split
      · exact bearing_bind (bearing_setTop ht) fun _ => bearing_deliver he
      · exact bearing_throw _
    · exact bearing_throw _
  · exact bearing_bind (bearing_checkClosed t) fun _ => bearing_deliver he
  · exact bearing_deliver he

theorem bearing_addAttribute (hput : ∀ n as a, T n as → T n (putAttribute a as)) (a : Attribute) :
    Bearing T (addAttribute a) := by
  refine bearing_top_bind fun t ht => ?_
  split
  · rename_i n as hp
    refine bearing_setTop fun n' as' hp' => ?_
    cases hp'
    exact hput n as a (ht n as hp)
  · exact bearing_throw _

theorem bearing_openCapture (owner : Nat) (context : String) :
    Bearing T (openCapture owner context) := by
  refine bearing_get_bind fun o => ?_
  split
  · exact bearing_bind (bearing_throw _) fun _ => bearing_push _ _
  · exact bearing_push _ _

theorem bearing_resolve (href : String) : Bearing T (resolve s href) := by
  intro o h
  unfold Comes
  rw [ensures_resolve]
  split
  · exact h
  · split <;> exact h.after (by simp)

theorem bearing_openDocument (owner : Nat) (href : String) :
    Bearing T (openDocument s owner href) := by
  have opened : ∀ d, Bearing T (do
      send s d .startDocument
      push (.sink d) owner : Writing Unit) := fun d =>
    bearing_bind (bearing_send d trivial) fun _ => bearing_push _ _
  refine bearing_bind (bearing_resolve href) fun d => bearing_get_bind fun o => ?_
  split
  · exact bearing_bind (bearing_throw _) fun _ => opened d
  · exact opened d

/-- A scope that is taken away holds back what has the property. -/
theorem bearing_popOwned_bind {k : Scope → Writing α} (owner : Nat)
    (hk : ∀ t, (∀ n as, t.pending = some (n, as) → T n as) → Bearing T (k t)) :
    Bearing T (popOwned owner >>= k) := by
  intro o h
  unfold Comes popOwned
  rw [ensures_bind, ensures_bind, ensures_get]
  cases ht : o.scopes with
  | nil => exact h
  | cons t r =>
    have hrest : ∀ u ∈ r, ∀ n as, u.pending = some (n, as) → T n as := fun u hu =>
      h.held u (by simp [ht, hu])
    simp only
    split
    · exact hk t (h.held t (by simp [ht])) _ (h.scoped hrest)
    · exact h

theorem bearing_closeCapture (owner : Nat) : Bearing T (closeCapture owner) := by
  refine bearing_popOwned_bind owner fun t _ => ?_
  split
  · exact bearing_pure _
  · exact bearing_throw _

theorem bearing_closeDocument (owner : Nat) : Bearing T (closeDocument s owner) := by
  refine bearing_popOwned_bind owner fun t ht => ?_
  have finished : ∀ d, Bearing T (do
      checkClosed t
      send s d .endDocument : Writing Unit) := fun d =>
    bearing_bind (bearing_checkClosed t) fun _ => bearing_send d trivial
  split
  · exact bearing_checkClosed t
  · split
    · rename_i n as hp
      exact bearing_bind (bearing_send _ (ht n as hp)) fun _ => finished _
    · exact finished _

end Writing

end Output

/-! ## Operations -/

namespace Operation

open Output Output.Writing

variable {α : Type} {env : Environment} {T : QName → List Attribute → Prop} {inv : State → Prop}

section
variable (hinv : ∀ s o, inv s → inv { s with outlet := o })
include hinv

theorem keeps_report_bearing (severity : Severity) (f : Fault) (node : Option NodeId) :
    Keeps (fun s => inv s ∧ s.outlet.Bears T) (fun _ s => s.outlet.Bears T)
      (report env severity f node) := by
  intro s hs
  have hkept : Preserves (fun s => inv s ∧ s.outlet.Bears T) (report env severity f node) :=
    preserves_report fun s hs => ⟨hinv s _ hs.1, hs.2.after (by simp)⟩
  exact (hkept s hs).mono (fun _ _ h => h) fun _ _ h => h.2

theorem calm_bearing : Calm env (fun s => inv s ∧ s.outlet.Bears T)
    (fun _ s => s.outlet.Bears T) where
  noted n := keeps_modify fun s hs => ⟨hinv s _ hs.1, hs.2.after (by simp)⟩
  reported severity f node _ := keeps_report_bearing hinv severity f node
  raised _ _ _ hs := hs.2

theorem keeps_attempt_bearing (node : Option NodeId) {w : Writing α} (hw : Bearing T w) :
    Keeps (fun s => inv s ∧ s.outlet.Bears T) (fun _ s => s.outlet.Bears T)
      (attempt env node w) := by
  rintro s ⟨hi, hs⟩
  have hcomes := hw s.outlet hs
  unfold Comes Writing.Ensures at hcomes
  rw [ensures_attempt]
  split
  · rename_i a o ho
    rw [ho] at hcomes
    exact ⟨hinv s o hi, hcomes⟩
  · rename_i f o ho
    rw [ho] at hcomes
    exact keeps_report_bearing hinv _ _ _ _ ⟨hinv s o hi, hcomes⟩

theorem keeps_emit_bearing (e : Output.Event) (he : Event.Tagged T e) (node : Option NodeId) :
    Keeps (fun s => inv s ∧ s.outlet.Bears T) (fun _ s => s.outlet.Bears T) (emit env e node) :=
  have hcalm : Calm env (fun s => inv s ∧ s.outlet.Bears T) _ := calm_bearing hinv
  keeps_bind (hcalm.noted _) fun _ =>
    keeps_discard (keeps_attempt_bearing hinv node (bearing_emit he))

/-- A property of start tags without attributes that bears more attributes is kept by all output
whose start tags have it. -/
theorem voices_bearing (hbare : ∀ n, T n [])
    (hput : ∀ n as a, T n as → T n (putAttribute a as)) :
    Voices env T (fun s => inv s ∧ s.outlet.Bears T) (fun _ s => s.outlet.Bears T) where
  toMuted := (calm_bearing hinv).toMuted
  emit e node he := by
    refine keeps_emit_bearing hinv e ?_ node
    cases e with
    | opening n as =>
      rcases he with rfl | hT
      · exact hbare n
      · exact hT
    | _ => trivial
  addAttribute a node :=
    keeps_discard (keeps_attempt_bearing hinv node (bearing_addAttribute hput a))
  openCapture owner context node :=
    keeps_attempt_bearing hinv node (bearing_openCapture owner context)
  closeCapture owner node := keeps_attempt_bearing hinv node (bearing_closeCapture owner)
  openDocument owner href node := keeps_attempt_bearing hinv node (bearing_openDocument owner href)
  closeDocument owner node := keeps_attempt_bearing hinv node (bearing_closeDocument owner)

end

theorem steady_bearing : Steady env (fun s => True ∧ s.outlet.Bears T)
    (fun _ s => s.outlet.Bears T) where
  turned hs ho _ _ := ⟨trivial, ho ▸ hs.2⟩
  stray hs _ _ := hs.2
  strayReported {s f} hs _ _ := by
    have hinv : ∀ (_ : State) (_ : Output.Outlet), True → True := fun _ _ => id
    have hkept : Keeps (fun s => True ∧ s.outlet.Bears T) _ (report env .fatal f none) :=
      keeps_report_bearing hinv _ _ _
    exact (hkept s hs).mono (fun _ _ h => h.2) fun _ _ h => h

end Operation

/-! ## Tasks -/

open Operation

section
variable {env : Environment} {is js : List Input} {met : List Mark} {i : Input} {t : Task}
  {rest : List Task} {s : State} {n : QName} {as : List Attribute}

/-- An element is read when its start tag is. -/
theorem opening_of_take {c : Configuration} {r : Reading}
    (h : .node (.element n as) ∈ (r.take c i).marks) :
    .node (.element n as) ∈ r.marks ∨ i = .opening n as := by
  have settled : .node (.element n as) ∈ r.settle c → .node (.element n as) ∈ r.marks := by
    rw [settle_eq]
    intro hr
    rcases List.mem_append.mp hr with hr | hr
    · exact hr
    · split at hr <;> simp at hr
  cases i with
  | characters | parameter => exact .inl h
  | startDocument | endDocument => exact .inl (settled h)
  | opening n' as' =>
    rcases List.mem_append.mp h with h | h
    · exact .inl (settled h)
    · simp only [List.mem_singleton, Mark.node.injEq, Content.element.injEq] at h
      exact .inr (by rw [h.1, h.2])
  | closing | comment | instruction =>
    rcases List.mem_append.mp h with h | h
    · exact .inl (settled h)
    · simp at h

theorem opening_of_document {c : Configuration}
    (h : .node (.element n as) ∈ Input.document c is) : .opening n as ∈ is := by
  have hread : ∀ r : Reading, .node (.element n as) ∈ (is.foldl (Reading.take c) r).marks →
      .node (.element n as) ∈ r.marks ∨ .opening n as ∈ is := by
    clear h
    induction is with
    | nil => exact fun r hr => .inl hr
    | cons i is ih =>
      intro r hr
      rcases ih _ hr with hold | hlater
      · exact (opening_of_take hold).imp_right fun hi => by simp [hi]
      · exact .inr (List.mem_cons_of_mem i hlater)
  rw [Input.document, settle_eq] at h
  rcases List.mem_append.mp h with h | h
  · exact (hread _ h).resolve_left List.not_mem_nil
  · split at h <;> simp at h

/-- The element of an open node was read with its attributes. -/
theorem opening_of_node {m : Moment} (h : Fed env is met m) {e : Event}
    (he : e ∈ m.state.nodes.map OpenNode.event) (hc : e.content = .element n as) :
    .opening n as ∈ is := by
  have hplay : e ∈ eventsInPlay m.agenda m.state.nodes :=
    List.mem_append_right _ (mem_events_of_map he)
  obtain ⟨before, after, hmet, -⟩ := placed_of_fed h e hplay (by rw [hc]; rfl)
  refine opening_of_document (c := env.configuration) ((met_prefix_document h).subset ?_)
  rw [hmet, hc]
  simp

/-- A copy of the node of an activation takes the attributes that it was read with. -/
theorem event_of_eventAt {depth : Nat} {s s' : State} {e : Event}
    (hy : (eventAt depth).Yields s e s') : e ∈ s.nodes.map OpenNode.event := by
  unfold eventAt at hy
  rw [yields_get_bind] at hy
  split at hy
  · simp at hy
  · split at hy
    · rename_i d e' he
      obtain ⟨rfl, -⟩ := yields_pure.mp hy
      have hmem := List.mem_of_getElem? he
      rw [State.path, List.map_reverse, List.mem_reverse] at hmem
      exact hmem
    · simp at hy

/-- An instruction keeps start tags as they are to be, if the open nodes were read as they are. -/
theorem bears_execute {a : Activation} {f : Frame} {node : Node}
    (hcode : env.program.code[f.cursor]? = some node)
    (hcopied : ∀ e ∈ s.nodes.map OpenNode.event, ∀ n as, e.content = .element n as →
      Assembled env.program is n as) (hs : s.outlet.Bears (Assembled env.program is)) :
    (execute env a f node).Ensures s (fun _ s' => s'.outlet.Bears (Assembled env.program is))
      (fun _ s' => s'.outlet.Bears (Assembled env.program is)) := by
  have hinv : ∀ (x : State) (o : Output.Outlet), x.nodes = s.nodes →
      ({ x with outlet := o } : State).nodes = s.nodes := fun _ _ h => h
  have hcalm : Calm env (fun x => x.nodes = s.nodes ∧
      x.outlet.Bears (Assembled env.program is)) _ := calm_bearing hinv
  have hserves : ∀ c, node.Concerns env.program.code c → Serves env (fun x => x.nodes = s.nodes ∧
      x.outlet.Bears (Assembled env.program is)) _ a c := fun c _ =>
    { located := fun x hx => (preserves_eventAt a.depth x hx).mono (fun _ _ h => h) fun _ _ h => h.2
      declared := fun home _ f name v => keeps_declareVariable (fun _ _ _ _ h => h) f name v
        fun x _ hx _ _ => keeps_report_bearing hinv _ _ _ x hx
      assigned := fun f name v => hcalm.assignVariable f (fun _ _ _ _ h => h) name v }
  have hbrings : ∀ c, node.instruction = .container c → Brings (Assembled env.program is)
      (fun x => x.nodes = s.nodes ∧ x.outlet.Bears (Assembled env.program is)) a c := fun c hi =>
    { written := fun n pairs hc as hnames =>
        Given.assembled (hnames ▸ .written hcode (hc ▸ hi))
      copied := fun x e x' hx hy => hcopied e (hx.1 ▸ event_of_eventAt hy) }
  have hvoices : Voices env _ (fun x => x.nodes = s.nodes ∧
      x.outlet.Bears (Assembled env.program is)) _ :=
    voices_bearing hinv (assembled_bare env.program is) fun _ _ a h => h.put a
  exact (hvoices.execute a f node hserves hbrings s ⟨rfl, hs⟩).mono (fun _ _ h => h.2)
    fun _ _ h => h

/-- So does every task. -/
theorem Task.bears (h : Fed env js met ⟨i, t :: rest, s⟩) (hjs : ∀ j ∈ js, j ∈ is)
    (hs : s.outlet.Bears (Assembled env.program is)) :
    (t.perform env).Ensures s (fun _ s' => s'.outlet.Bears (Assembled env.program is))
      (fun _ s' => s'.outlet.Bears (Assembled env.program is)) := by
  have hinv : ∀ (_ : State) (_ : Output.Outlet), True → True := fun _ _ => id
  have hvoices : Voices env _ (fun x => True ∧ x.outlet.Bears (Assembled env.program is)) _ :=
    voices_bearing hinv (assembled_bare _ _) fun _ _ a h => h.put a
  have hcalm : Calm env (fun x => True ∧ x.outlet.Bears (Assembled env.program is)) _ :=
    calm_bearing hinv
  have hsteady : Steady env (fun x => True ∧ x.outlet.Bears (Assembled env.program is)) _ :=
    steady_bearing
  have turned : ∀ {x x' : State}, (True ∧ x.outlet.Bears (Assembled env.program is)) →
      x'.outlet = x.outlet → x'.frames = x.frames →
      True ∧ x'.outlet.Bears (Assembled env.program is) := fun hx ho _ => ⟨trivial, ho ▸ hx.2⟩
  have hcopied : ∀ e ∈ s.nodes.map OpenNode.event, ∀ n as, e.content = .element n as →
      Assembled env.program is n as := fun e he n as hc =>
    Given.assembled (.copied (hjs _ (opening_of_node h he hc)))
  suffices hkept : (t.perform env).Ensures s
      (fun _ x => True ∧ x.outlet.Bears (Assembled env.program is))
      (fun _ x => x.outlet.Bears (Assembled env.program is)) from
    hkept.mono (fun _ _ h => h.2) fun _ _ h => h
  cases t with
  | begin =>
    exact hcalm.begin (keeps_emit_bearing hinv .startDocument trivial none) turned s ⟨trivial, hs⟩
  | endOutput =>
    exact keeps_bind (hvoices.endOutput hcalm) (fun _ => keeps_pure _) s ⟨trivial, hs⟩
  | dispatch g exclude hasChildren =>
    have hsame : Calm env (fun x => x.nodes = s.nodes ∧
        x.outlet.Bears (Assembled env.program is)) _ := calm_bearing fun _ _ h => h
    refine ensures_bind.mpr ((hsame.selectTemplate _ _ _ s ⟨rfl, hs⟩).mono ?_ fun _ _ h => h)
    rintro found s₁ ⟨hn, hs₁⟩
    cases found with
    | some f => exact hsteady.startTemplate hcalm f _ _ s₁ ⟨trivial, hs₁⟩
    | none =>
      refine ensures_bind.mpr (hsteady.ensures_builtIn hvoices g hasChildren ⟨trivial, hs₁⟩ ?_)
      intro n ns hn' name as hc
      refine hcopied n.event ?_ name as hc
      rw [← hn, hn']
      exact List.mem_cons_self
  | run a =>
    refine hsteady.advance hcalm ⟨trivial, hs⟩ a (fun _ _ _ _ hs => hs)
      (keeps_enterProcedure (fun _ => keeps_report_bearing (fun _ _ => id) _ _ _) fun _ _ hs => hs.2)
      fun f fs node _ hcode => ?_
    exact (bears_execute hcode hcopied hs).mono (fun _ _ h => ⟨trivial, h⟩) fun _ _ h => h
  | unwind mode =>
    have hpopped : (popNode mode).Ensures s _ _ :=
      ensures_popNode hcalm turned (fun _ => hs) ⟨trivial, hs⟩
    exact ensures_unwind hsteady hvoices ⟨trivial, hs⟩ hpopped fun _ _ h => h
  | _ => exact Task.keeps_perform hcalm hsteady _ rfl (fun _ _ _ hs => hs) s ⟨trivial, hs⟩

end

/-! ## Calls -/

/-- The moments of runs that take in some of these inputs. -/
theorem closed_fed (env : Environment) (is : List Input) :
    Closed env (· ∈ is) fun m => ∃ js met, Fed env js met m ∧ ∀ j ∈ js, j ∈ is where
  first i hi ha := ⟨[i], [], .first i ha, List.forall_mem_singleton.mpr hi⟩
  task := fun ⟨js, _, h, hjs⟩ hy => ⟨js, _, h.task hy, hjs⟩
  call i hi := fun ⟨js, met, h, hjs⟩ hd ha =>
    ⟨js ++ [i], met, h.call i hd ha, List.forall_mem_append.mpr
      ⟨hjs, List.forall_mem_singleton.mpr hi⟩⟩

theorem bears_of_fed {env : Environment} {is js : List Input} {met : List Mark} {m : Moment}
    (h : Fed env js met m) (hjs : ∀ j ∈ js, j ∈ is) :
    m.state.outlet.Bears (Assembled env.program is) := by
  induction h with
  | first i _ => cases i <;> exact Output.Outlet.bears_initial
  | task hf hy ih => exact (Task.bears hf hjs (ih hjs)).of_yields hy
  | call i hf _ _ ih =>
    have hold := ih fun j hj => hjs j (List.mem_append_left _ hj)
    cases i <;> exact hold

/-- The start tags that sinks are called with, whatever they answer. -/
structure StartTags (env : Environment) (is : List Input) (r : Record) : Prop where
  assembled : ∀ d n as refusal, .sent d (.opening n as) refusal ∈ r →
    Assembled env.program is n as
  /-- If no start tag of the input has two attributes of one name, only the start tag of a literal
  element that is written with two has. -/
  distinct : (∀ n as, .opening n as ∈ is → Distinct (as.map Attribute.name)) →
    ∀ d n as refusal, .sent d (.opening n as) refusal ∈ r → Distinct (as.map Attribute.name) ∨
      ∃ (id : NodeId) (node : Node) (pairs : List (QName × Path.TextTemplate)),
        env.program.code[id]? = some node ∧ node.instruction = .container (.literal n pairs) ∧
          ¬ Distinct (pairs.map Prod.fst) ∧ pairs.map Prod.fst <+: as.map Attribute.name

/-- Whatever is called, start tags get their attributes from a literal element or from the input,
and beyond that none that they have already. -/
theorem start_tags_are_assembled (env : Environment) (fuel : Nat) (is : List Input) :
    StartTags env is ((State.initial env.program).afterCalls env fuel is).record := by
  have hbears : ((State.initial env.program).afterCalls env fuel is).outlet.Bears
      (Assembled env.program is) := by
    refine (closed_fed env is).outlet_afterCalls Output.Outlet.bears_initial ?_ ?_ fun _ => id
    · rintro m ⟨js, met, h, hjs⟩
      exact bears_of_fed h hjs
    · rintro i t rest s f s' ⟨js, met, h, hjs⟩ hf
      exact (Task.bears h hjs (bears_of_fed h hjs)).of_fails hf
  refine ⟨hbears.sent, fun his d n as refusal hm => ?_⟩
  exact (hbears.sent d n as refusal hm).distinct (his n)

/-- One template, for the root, with a literal element that is written with an attribute twice. -/
def doublingProgram : Program where
  code := #[⟨.body, ⟨1, 1⟩, some 3⟩,
    ⟨.container (.literal (.simple "a") [(.simple "b", .fixed "1"), (.simple "b", .fixed "2")]),
      ⟨1, 1⟩, some 2⟩,
    ⟨.closing 1, ⟨1, 1⟩, none⟩, ⟨.closing 0, ⟨1, 1⟩, none⟩]
  templates := #[⟨⟨true, []⟩, "/", 0, .group, false, 0, ⟨1, 1⟩, 0⟩]
  procedures := #[]
  groups := #[{ (default : Group) with
    templates := [0], candidates := [0], ancestry := [Program.rootGroup] }]
  globals := []

example : ((State.initial doublingProgram).afterCalls
      ⟨doublingProgram, {}, .plain fun _ => none⟩ 20 [.startDocument, .endDocument]).record.taken
        .main =
    [.startDocument, .opening (.simple "a") [⟨.simple "b", "1"⟩, ⟨.simple "b", "2"⟩],
      .closing (.simple "a"), .endDocument] := by
  decide +kernel

end StreamTransform
