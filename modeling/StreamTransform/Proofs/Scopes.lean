import StreamTransform.Proofs.Accounting

/-!
# Output scopes balance

The scopes that are open are those of the constructs that are open, each of its
kind, with the main output at the bottom. So the end of a container finds the
scope that its start opened on top, whatever was suspended in between and
whatever sinks and resolvers refuse; and when the document has ended only the
main output is left.
-/

namespace StreamTransform

open Output

/-- What a target is for. -/
def Output.Target.kind : Target → ScopeKind
  | .sink _ => .document
  | .capture _ => .capture

/-- To whom a scope belongs, and its kind. -/
def Output.Scope.shape (t : Scope) : Option NodeId × ScopeKind := (t.owner, t.target.kind)

/-- The scope that a construct is. -/
def Construct.shape? : Construct → Option (Option NodeId × ScopeKind)
  | .scope b k => some (some b, k)
  | .element _ => none

/-- The scopes at a stage, the main output at the bottom. -/
def Stage.shapes : Stage → List (Option NodeId × ScopeKind)
  | .within cs => cs.filterMap Construct.shape? ++ [(none, .document)]
  | .before | .after => [(none, .document)]

/-- A scope is closed that is not on top, or not of the kind that is closed. -/
def Fault.OfScopes (f : Fault) : Prop := f = .unbalancedScopes ∨ f = .notACapture

theorem Fault.ofScopes_isStructural {f : Fault} (h : f.OfScopes) : f.isStructural := by
  rcases h with rfl | rfl <;> rfl

/-- The scopes are those of a stage, and no fault of scopes was reported unless it was the answer of
a sink or of the resolver. -/
structure FitsScopes (st : Stage) (o : Outlet) : Prop where
  shapes : o.scopes.map Scope.shape = st.shapes
  main : ∀ t ∈ o.scopes, t.owner = none → t.target = .sink .main
  refused : o.record.OnlyRefused Fault.OfScopes

namespace FitsScopes

variable {st : Stage} {o : Outlet} {cs : List Construct}

theorem happened (hs : FitsScopes st o) {h : Happening} (hh : ∀ d answer, h ≠ .reported d answer) :
    FitsScopes st (o.after h) := ⟨hs.shapes, hs.main, hs.refused.cons hh⟩

theorem reported (hs : FitsScopes st o) {d : Diagnostic} (answer : Option Fault)
    (hd : d.fault.OfScopes → o.record.Refused d.fault) :
    FitsScopes st (o.after (.reported d answer)) := ⟨hs.shapes, hs.main, hs.refused.reported hd⟩

theorem sameShapes {st' : Stage} (hs : FitsScopes st o) (h : st'.shapes = st.shapes) :
    FitsScopes st' o := ⟨hs.shapes.trans h.symm, hs.main, hs.refused⟩

theorem excused_of_ne {f : Fault} (h₁ : f ≠ .unbalancedScopes) (h₂ : f ≠ .notACapture) :
    f.OfScopes → o.record.Refused f := by
  rintro (h | h)
  · exact absurd h h₁
  · exact absurd h h₂

/-- A change of the innermost scope that keeps its owner and its kind. -/
theorem changed (hs : FitsScopes st o) {t t' : Scope} {r : List Scope} (ht : o.scopes = t :: r)
    (howner : t'.owner = t.owner) (hkind : t'.target.kind = t.target.kind)
    (hmain : t'.owner = none → t'.target = .sink .main) :
    FitsScopes st { o with scopes := t' :: o.scopes.tail } := by
  have hshapes := hs.shapes
  have hrest := hs.main
  rw [ht] at hshapes hrest
  refine ⟨?_, ?_, hs.refused⟩
  · rw [ht, List.tail_cons, ← hshapes, List.map_cons, List.map_cons, Scope.shape, Scope.shape,
      howner, hkind]
  · rw [ht, List.tail_cons]
    exact List.forall_mem_cons.mpr ⟨hmain, (List.forall_mem_cons.mp hrest).2⟩

theorem attempted {α : Type} {w : Writing α} (h : w.Leaves Fault.OfScopes (FitsScopes st) o) :
    w.Attempted o fun _ => FitsScopes st :=
  h.attempted fun _ _ answer hs hd => hs.reported answer hd

variable {s : Surroundings}

/-- The innermost scope is read. That there is none is no fault of scopes. -/
theorem leaves_top {α : Type} {k : Scope → Writing α} (hs : FitsScopes st o)
    (hk : ∀ t r, o.scopes = t :: r → (k t).Leaves Fault.OfScopes (FitsScopes st) o) :
    (Writing.top >>= k).Leaves Fault.OfScopes (FitsScopes st) o := by
  unfold Writing.Leaves
  rw [Writing.ensures_bind, Writing.ensures_top]
  cases ht : o.scopes with
  | nil => exact ⟨hs, excused_of_ne (by simp) (by simp)⟩
  | cons t r => exact hk t r ht

/-- The innermost scope is changed, and the write goes on. -/
theorem leaves_setTop {α : Type} {k : Unit → Writing α} {t t' : Scope} {r : List Scope}
    (hs : FitsScopes st o) (ht : o.scopes = t :: r) (howner : t'.owner = t.owner)
    (htarget : t'.target = t.target)
    (hk : ∀ o, FitsScopes st o → (k ()).Leaves Fault.OfScopes (FitsScopes st) o) :
    (Writing.setTop t' >>= k).Leaves Fault.OfScopes (FitsScopes st) o := by
  unfold Writing.Leaves
  rw [Writing.ensures_bind, Writing.ensures_setTop]
  refine hk _ (hs.changed ht howner (by rw [htarget]) fun hnone => ?_)
  rw [htarget]
  exact hs.main t (by simp [ht]) (howner.symm.trans hnone)

theorem leaves_send (hs : FitsScopes st o) (d : Destination) (e : Output.Event) :
    (Writing.send s d e).Leaves Fault.OfScopes (FitsScopes st) o := by
  unfold Writing.Leaves
  rw [Writing.ensures_send]
  split
  · rename_i f _
    exact ⟨hs.happened (by simp), fun _ => ⟨_, rfl, rfl⟩⟩
  · exact hs.happened (by simp)

theorem leaves_deliver (hs : FitsScopes st o) (e : Output.Event) :
    (Writing.deliver s e).Leaves Fault.OfScopes (FitsScopes st) o := by
  unfold Writing.deliver
  refine leaves_top hs fun t r ht => ?_
  split
  · exact leaves_send hs _ e
  · rename_i c hc
    split
    · rename_i f hf
      obtain ⟨what, rfl⟩ := TextSink.rejected_of_refusal hf
      exact ⟨hs, excused_of_ne (by simp) (by simp)⟩
    · have hkind : t.target.kind = .capture := by rw [hc]; rfl
      refine hs.changed ht rfl hkind.symm fun howner => ?_
      rw [hs.main t (by simp [ht]) howner] at hc
      cases hc

theorem leaves_flush (hs : FitsScopes st o) :
    (Writing.flush s).Leaves Fault.OfScopes (FitsScopes st) o := by
  unfold Writing.flush
  refine leaves_top hs fun t r ht => ?_
  split
  · exact leaves_setTop hs ht rfl rfl fun _ hs' => leaves_deliver hs' _
  · exact hs

/-- No event changes the scopes. -/
theorem leaves_emit (hs : FitsScopes st o) (e : Output.Event) :
    (Writing.emit s e).Leaves Fault.OfScopes (FitsScopes st) o := by
  unfold Writing.emit
  refine Writing.Leaves.bind (leaves_flush hs) fun _ o' hs' => leaves_top hs' fun t r ht => ?_
  split
  · exact hs'.changed ht rfl rfl (hs'.main t (by simp [ht]))
  · split
    · split
      · exact leaves_setTop hs' ht rfl rfl fun _ hs'' => leaves_deliver hs'' _
      · exact ⟨hs', excused_of_ne (by simp) (by simp)⟩
    · exact ⟨hs', excused_of_ne (by simp) (by simp)⟩
  · unfold Writing.Leaves
    rw [Writing.ensures_bind, Writing.ensures_checkClosed]
    split
    · exact ⟨hs', excused_of_ne (by simp) (by simp)⟩
    · exact leaves_deliver hs' _
  · exact leaves_deliver hs' _

theorem attempted_emit (hs : FitsScopes st o) (e : Output.Event) :
    (Writing.emit s e).Attempted o fun _ => FitsScopes st := attempted (leaves_emit hs e)

theorem attempted_addAttribute (hs : FitsScopes st o) (a : Attribute) :
    (Writing.addAttribute a).Attempted o fun _ => FitsScopes st := by
  unfold Writing.addAttribute
  refine attempted (leaves_top hs fun t r ht => ?_)
  split
  · exact hs.changed ht rfl rfl (hs.main t (by simp [ht]))
  · exact ⟨hs, excused_of_ne (by simp) (by simp)⟩

/-! ## Scopes that are opened and closed -/

theorem pushed (hs : FitsScopes (.within cs) o) (target : Target) (b : NodeId) :
    FitsScopes (.within (.scope b target.kind :: cs))
      { o with scopes := .fresh target (some b) :: o.scopes } := by
  refine ⟨?_, ?_, hs.refused⟩
  · rw [List.map_cons, hs.shapes]
    rfl
  · exact List.forall_mem_cons.mpr ⟨by simp [Scope.fresh], hs.main⟩

/-- The scope of the innermost construct is on top. -/
theorem top_of_scope {b : NodeId} {k : ScopeKind} (hs : FitsScopes (.within (.scope b k :: cs)) o) :
    ∃ t r, o.scopes = t :: r ∧ t.owner = some b ∧ t.target.kind = k ∧
      FitsScopes (.within cs) { o with scopes := r } := by
  have hshapes := hs.shapes
  have hmain := hs.main
  cases ht : o.scopes with
  | nil =>
    rw [ht] at hshapes
    cases hshapes
  | cons t r =>
    rw [ht] at hshapes hmain
    obtain ⟨htop, hrest⟩ := List.cons.inj hshapes
    obtain ⟨howner, hkind⟩ := Prod.mk.inj htop
    exact ⟨t, r, rfl, howner, hkind, hrest, (List.forall_mem_cons.mp hmain).2, hs.refused⟩

theorem attempted_openCapture (hs : FitsScopes (.within cs) o) (b : NodeId) (context : String) :
    (Writing.openCapture b context).Attempted o fun opened =>
      FitsScopes (.within (if opened.isSome then .scope b .capture :: cs else cs)) := by
  unfold Writing.Attempted Writing.openCapture
  simp only [Writing.ensures_bind, Writing.ensures_get]
  split
  · intro d answer hd
    exact hs.reported answer (by rw [hd]; exact excused_of_ne (by simp) (by simp))
  · exact Writing.ensures_push.mpr (hs.pushed (.capture _) b)

theorem attempted_closeCapture {b : NodeId}
    (hs : FitsScopes (.within (.scope b .capture :: cs)) o) :
    (Writing.closeCapture b).Attempted o fun text o' =>
      text.isSome ∧ FitsScopes (.within cs) o' := by
  obtain ⟨t, r, ht, howner, hkind, hrest⟩ := hs.top_of_scope
  unfold Writing.Attempted Writing.closeCapture
  rw [Writing.ensures_bind, Writing.ensures_popOwned ht howner]
  split
  · exact ⟨rfl, hrest⟩
  · rename_i d hd
    rw [hd] at hkind
    cases hkind

theorem attempted_openDocument (hs : FitsScopes (.within cs) o) (b : NodeId) (href : String) :
    (Writing.openDocument s b href).Attempted o fun opened =>
      FitsScopes (.within (if opened.isSome then .scope b .document :: cs else cs)) := by
  have failed : ∀ {f : Fault} {o' : Outlet}, FitsScopes (.within cs) o' →
      (f.OfScopes → o'.record.Refused f) → ∀ d answer, d.fault = f →
      FitsScopes (.within cs) (o'.after (.reported d answer)) :=
    fun hs' hf d answer hd => hs'.reported answer (by rw [hd]; exact hf)
  unfold Writing.Attempted Writing.openDocument
  rw [Writing.ensures_bind, Writing.ensures_resolve]
  split
  · exact failed hs (excused_of_ne (by simp) (by simp))
  · split
    · exact failed (hs.happened (by simp)) fun _ => ⟨_, rfl, rfl⟩
    · have hresolved := hs.happened (h := .resolved href none) (by simp)
      simp only [Writing.ensures_bind, Writing.ensures_get]
      split
      · exact failed hresolved (excused_of_ne (by simp) (by simp))
      · refine Writing.ensures_bind.mpr ((leaves_send hresolved _ _).mono ?_ fun _ _ hs' => ?_)
        · exact fun _ _ hs' => Writing.ensures_push.mpr (hs'.pushed (.sink _) b)
        · exact failed hs'.1 hs'.2

theorem attempted_closeDocument {b : NodeId}
    (hs : FitsScopes (.within (.scope b .document :: cs)) o) :
    (Writing.closeDocument s b).Attempted o fun _ => FitsScopes (.within cs) := by
  obtain ⟨t, r, ht, howner, hkind, hrest⟩ := hs.top_of_scope
  have finish : ∀ d o', FitsScopes (.within cs) o' →
      (do Writing.checkClosed t; Writing.send s d .endDocument : Writing Unit).Leaves
        Fault.OfScopes (FitsScopes (.within cs)) o' := by
    intro d o' hs'
    unfold Writing.Leaves
    rw [Writing.ensures_bind, Writing.ensures_checkClosed]
    split
    · exact ⟨hs', excused_of_ne (by simp) (by simp)⟩
    · exact leaves_send hs' d _
  refine attempted ?_
  unfold Writing.Leaves Writing.closeDocument
  rw [Writing.ensures_bind, Writing.ensures_popOwned ht howner]
  split
  · rename_i c hc
    rw [hc] at hkind
    cases hkind
  · rename_i d _
    cases t.pending with
    | none => exact finish d _ hrest
    | some held => exact (leaves_send hrest d _).bind fun _ => finish d

end FitsScopes

/-- The scopes are those of the constructs that are open. -/
theorem account_scopes (env : Environment) : Account env FitsScopes where
  noted _ hs := hs.happened (by simp)
  reported _ answer hd hs := hs.reported answer fun hk =>
    absurd (Fault.ofScopes_isStructural hk) (by simp [hd])
  plain e _ hs := FitsScopes.attempted_emit hs e
  addAttribute attr hs := FitsScopes.attempted_addAttribute hs attr
  opening n as hs := (FitsScopes.attempted_emit hs _).mono fun _ _ hs' => hs'.sameShapes rfl
  closing n hs := (FitsScopes.attempted_emit hs _).mono fun _ _ hs' => hs'.sameShapes rfl
  single _ _ _ e hs := FitsScopes.attempted_emit hs e
  openCapture b context hs := FitsScopes.attempted_openCapture hs b context
  closeCapture b hs := FitsScopes.attempted_closeCapture hs
  openDocument b href hs := FitsScopes.attempted_openDocument hs b href
  closeDocument b hs := FitsScopes.attempted_closeDocument hs
  started hs := (FitsScopes.attempted_emit hs _).mono fun _ _ hs' => hs'.sameShapes rfl
  ended hs := (FitsScopes.attempted_emit hs _).mono fun _ _ hs' => hs'.sameShapes rfl
  initial := ⟨rfl, by simp [Outlet.initial, Scope.fresh], Record.onlyRefused_nil _⟩

/-! ## Balance -/

/-- The next step executes the end of a container whose content writes to a scope. -/
def Moment.Closes (env : Environment) (m : Moment) (b : NodeId) (k : ScopeKind) : Prop :=
  ∃ a rest f fs n o c, m.agenda = .run a :: rest ∧ a.frames = f :: fs ∧
    env.program.code[f.cursor]? = some n ∧ n.instruction = .closing b ∧
    env.program.code[b]? = some o ∧ o.instruction = .container c ∧ c.scope? = some k

structure ScopesBalanced (env : Environment) : Prop where
  /-- At every moment the scopes are those that the activations under way have open. -/
  nested : ∀ m, Reached env m →
    ∃ st, m.IsAt env st ∧ m.state.outlet.scopes.map Scope.shape = st.shapes
  /-- The end of a container finds its scope on top. -/
  paired : ∀ m b k, Reached env m → m.Closes env b k →
    ∃ t r, m.state.outlet.scopes = t :: r ∧ t.owner = some b ∧ t.target.kind = k
  /-- No scope is ever found missing, or of the wrong kind. -/
  unreported : ∀ fuel is, Record.OnlyRefused Fault.OfScopes
    ((State.initial env.program).afterCalls env fuel is).record
  /-- After the end of the document only the main output is left. -/
  ended : ∀ fuel is s, ((State.initial env.program).afterCalls env fuel is).receive env fuel
      .endDocument = (.completed, s) →
    ∃ t, s.outlet.scopes = [t] ∧ t.owner = none ∧ t.target = .sink .main

/-- Whatever is suspended and whatever is refused, the output scopes balance. -/
theorem scopes_balance {ds : List Script.Declaration} {env : Environment}
    (h : Script.build ds = .ok env.program) : ScopesBalanced env := by
  have hw : env.program.WellNested := Script.wellNested_of_build h
  have haccount := account_scopes env
  constructor
  case nested =>
    intro m hm
    obtain ⟨st, hst, hs⟩ := haccount.fits_of_reached hw hm
    exact ⟨st, hst, hs.shapes⟩
  case paired =>
    rintro m b k hm ⟨a, rest, f, fs, n, o, c, ha, hf, hn, hb, ho, hc, hk⟩
    obtain ⟨cs, hs⟩ := haccount.fits_of_run hw hm ha hf
    rw [Frame.constructs_closing hw.code hn hb ho hc, Container.opened_of_scope hk] at hs
    obtain ⟨t, r, ht, howner, hkind, -⟩ := hs.top_of_scope
    exact ⟨t, r, ht, howner, hkind⟩
  case unreported =>
    intro fuel is
    obtain ⟨st, hs⟩ := haccount.accounted_afterCalls hw fuel is
    exact hs.refused
  case ended =>
    intro fuel is s hc
    have hs := haccount.fits_after hw hc
    have hshapes : s.outlet.scopes.map Scope.shape = [(none, .document)] := hs.shapes
    obtain ⟨t, ht, hshape⟩ := List.map_eq_singleton_iff.mp hshapes
    have howner : t.owner = none := (Prod.mk.inj hshape).1
    exact ⟨t, ht, howner, hs.main t (by simp [ht]) howner⟩

/-- What comes next is the end of a container if the cursor is at it. -/
theorem Moment.closes_of_cursor? {env : Environment} {m : Moment} {i b : NodeId} {n o : Node}
    {c : Container} {k : ScopeKind} (hi : m.cursor? = some i) (hn : env.program.code[i]? = some n)
    (hb : n.instruction = .closing b) (ho : env.program.code[b]? = some o)
    (hc : o.instruction = .container c) (hk : c.scope? = some k) : m.Closes env b k := by
  obtain ⟨a, rest, f, fs, hd, hf, rfl⟩ := Moment.run_of_cursor? hi
  exact ⟨a, rest, f, fs, n, o, c, hd, hf, hn, hb, ho, hc, hk⟩

/-- One template, for the root, with an element for the text that its children write. -/
def gatheringProgram : Program where
  code := (⟨.unknown, [.enclose .unknown (.literal (.simple "r") [])
    [.enclose .unknown (.variable "v" .written .body)
      [.act .unknown (.process .children ⟨none, []⟩)] .unknown,
    .act .unknown (.valueOf (.reference "v") (.fixed ""))] .unknown], .unknown⟩ : Body).code 0
      |>.toArray
  templates := #[⟨⟨true, []⟩, "/", 0, .group, false, 0, .unknown, 0⟩]
  procedures := #[]
  groups := #[{ (default : Group) with
    templates := [0], candidates := [0], ancestry := [Program.rootGroup] }]
  globals := []

/-- The text is captured by a variable, during whose content the template is suspended. -/
def gatheringScript : List Script.Declaration :=
  [.template "/" { priority := some 0 } [.literal "r" []
    [.variableContent "v" [.process .children {}], .valueOf "$v" ""]]]

theorem build_gathering : Script.build gatheringScript = .ok gatheringProgram :=
  (Script.build_eq _).trans (by with_unfolding_all rfl)

def gathering : Environment := ⟨gatheringProgram, { passThrough := .text }, .plain fun _ => none⟩

/-- Calls for one element with a text. -/
def gatheringCalls : List Input :=
  [.opening (.simple "a") [], .characters "x", .closing (.simple "a")]

/-- The scope is there while the activation that opened it is suspended and the child is processed,
and is on top when the activation comes to the end of the variable. -/
theorem scopes_balance_gathering : ScopesBalanced gathering ∧
    (∃ m, Reached gathering m ∧ m.state.parked.length = 2 ∧
      m.state.outlet.scopes.map Output.Scope.shape = [(some 2, .capture), (none, .document)]) ∧
    ∃ m, Reached gathering m ∧ m.state.parked = [] ∧ m.Closes gathering 2 .capture := by
  have hm (n : Nat) : Reached gathering ((Moment.take .startDocument
      (.initial gatheringProgram)).advance gathering n (gatheringCalls ++ [.endDocument])) :=
    .advance (.first .startDocument rfl) n _
  refine ⟨scopes_balance build_gathering, ⟨_, hm 20, by decide +kernel, by decide +kernel⟩,
    _, hm 31, List.length_eq_zero_iff.mp (by decide +kernel), ?_⟩
  exact Moment.closes_of_cursor? (i := 4) (by decide +kernel) rfl rfl rfl rfl rfl

end StreamTransform
