import StreamTransform.Proofs.Assembly
import StreamTransform.Proofs.Suspension

/-!
# What is open in the output

A frame has open what the contents around its cursor opened: output scopes and
result elements. An element with a computed name finds it among the names owed,
a copied one at the event of its activation. So the constructs that are open can
be read off the activations under way, wherever they are suspended.
-/

namespace StreamTransform

inductive ScopeKind where
  | capture | document
  deriving DecidableEq

inductive Construct where
  | scope (owner : NodeId) (kind : ScopeKind)
  | element (name : QName)

namespace Container

/-- The scope that the content of a container writes to. -/
def scope? : Container → Option ScopeKind
  | attr _ .written | comment | processingInstruction _ | cdata | message .written _
  | .variable _ .written _ | parameter _ (some .written) _ | assign _ .written => some .capture
  | document _ => some .document
  | literal .. | element _ | attr _ (.selected _) | copy _ | message (.selected _) _
  | .variable _ (.selected _) _ | parameter _ none _ | parameter _ (some (.selected _)) _
  | assign _ (.selected _) | loop _ | each .. => none

/-- A selected value stands for the content, which is never entered. -/
def isEntered : Container → Bool
  | attr _ (.selected _) | message (.selected _) _ | .variable _ (.selected _) _
  | parameter _ none _ | parameter _ (some (.selected _)) _ | assign _ (.selected _) => false
  | literal .. | element _ | attr _ .written | copy _ | comment | processingInstruction _ | cdata
  | document _ | message .written _ | .variable _ .written _ | parameter _ (some .written) _
  | assign _ .written | loop _ | each .. => true

/-- A name is owed to the end of the content. -/
def owes : Container → Bool
  | element _ | attr .. | processingInstruction _ => true
  | literal .. | copy _ | comment | cdata | document _ | message .. | .variable .. | parameter ..
  | assign .. | loop _ | each .. => false

/-- What the content of a container at a node has open, with names owed, for an event. -/
def opened (b : NodeId) (e : Option Event) (owed : List QName) : Container → List Construct
  | literal name _ => [.element name]
  | element _ => (owed.head?.map Construct.element).toList
  | copy _ =>
    match e.map Event.content with
    | some (.element name _) => [.element name]
    | _ => []
  | c => (c.scope?.map (Construct.scope b)).toList

theorem isEntered_of_scope {c : Container} {k : ScopeKind} (h : c.scope? = some k) :
    c.isEntered := by
  unfold scope? at h
  split at h <;> first | rfl | simp at h

theorem opened_of_scope {c : Container} {k : ScopeKind} (h : c.scope? = some k) {b : NodeId}
    {e : Option Event} {owed : List QName} : c.opened b e owed = [.scope b k] := by
  unfold opened
  split
  · simp [scope?] at h
  · simp [scope?] at h
  · simp [scope?] at h
  · rw [h]
    rfl

end Container

/-- What contents have open, the innermost first. -/
def openConstructs (code : Array Node) (e : Option Event) :
    List NodeId → List QName → List Construct
  | [], _ => []
  | b :: bs, owed =>
    match code[b]?.map Node.instruction with
    | some (.container c) =>
      c.opened b e owed ++ openConstructs code e bs (if c.owes then owed.tail else owed)
    | _ => openConstructs code e bs owed

namespace Frame

def constructs (code : Array Node) (e : Option Event) (f : Frame) : List Construct :=
  openConstructs code e (enclosing code f.cursor) f.owed

/-- The cursor stands at a node, in contents that can be entered. -/
structure Placed (code : Array Node) (f : Frame) : Prop where
  inside : f.cursor < code.size
  entered : ∀ b ∈ enclosing code f.cursor, ∀ n c, code[b]? = some n →
    n.instruction = .container c → c.isEntered

end Frame

/-- The built-in rule owes an end tag; other activations have open what their frames have. -/
def Activation.constructs (code : Array Node) (e : Option Event) (a : Activation) :
    List Construct :=
  match a.role with
  | .builtIn (some name) => [.element name]
  | .builtIn none => []
  | .template _ | .initialiser _ => a.frames.flatMap (Frame.constructs code e)

def Entry.constructs (code : Array Node) (e : Entry) : List Construct :=
  e.activation.constructs code e.path.head?

def Entry.Placed (code : Array Node) (e : Entry) : Prop :=
  ∀ f ∈ e.activation.frames, f.Placed code

/-! ## Frames that move -/

section
variable {code : Array Node} {f : Frame} {n : Node} {c : NodeId} {e : Option Event}

theorem enclosing_of_opening (hn : code[f.cursor]? = some n) (hc : n.close = some c) :
    enclosing code (f.cursor + 1) = f.cursor :: enclosing code f.cursor := by
  rw [enclosing_succ hn, Node.after, hc]

theorem close_of_not_isOpening (hw : WellNested code) {i : NodeId} (hn : code[i]? = some n)
    (ho : n.instruction.isOpening = false) : n.close = none := by
  have hopen := (hw.lawful _ _ hn).isOpening
  rw [ho, eq_comm, Option.isSome_eq_false_iff] at hopen
  exact Option.isNone_iff_eq_none.mp hopen

theorem enclosing_of_act (hw : WellNested code) (hn : code[f.cursor]? = some n) {action : Action}
    (ha : n.instruction = .act action) :
    enclosing code (f.cursor + 1) = enclosing code f.cursor := by
  rw [enclosing_succ hn, Node.after, close_of_not_isOpening hw hn (by rw [ha]; rfl), ha]

/-- A closing node lies in the content that it ends, and what follows it does not. -/
theorem enclosing_of_closing (hw : WellNested code) {i b : NodeId} {m : Node}
    (hm : code[i]? = some m) (hb : m.instruction = .closing b) :
    enclosing code i = b :: enclosing code b ∧ enclosing code (i + 1) = enclosing code b ∧
      ∃ o, code[b]? = some o ∧ o.close = some i := by
  obtain ⟨o, ho, hc⟩ := (hw.lawful _ _ hm).closing b hb
  have hin := ((hw.lawful _ _ ho).close i hc).1
  refine ⟨hin, ?_, o, ho, hc⟩
  rw [enclosing_succ hm, Node.after, close_of_not_isOpening hw hm (by rw [hb]; rfl), hb, hin]
  rfl

/-- What follows the end of a content lies where its start lies. -/
theorem enclosing_after_close (hw : WellNested code) {i : NodeId} (hn : code[i]? = some n)
    (hc : n.close = some c) : enclosing code (c + 1) = enclosing code i := by
  obtain ⟨-, m, hm, hb⟩ := (hw.lawful _ _ hn).close c hc
  exact (enclosing_of_closing hw hm hb).2.1

theorem Frame.placed_start (group : GroupId) (passed : Bindings) {b : NodeId}
    (hw : WellNested code) (hb : StartsBody code b) : (Frame.start group b passed).Placed code := by
  have hnil := hb.enclosing_eq_nil hw
  obtain ⟨n, hn, -⟩ := hb
  refine ⟨(Array.getElem?_eq_some_iff.mp hn).1, fun c hc => ?_⟩
  simp [Frame.start, hnil] at hc

theorem Frame.constructs_start (group : GroupId) (passed : Bindings) {b : NodeId}
    (hw : WellNested code) (hb : StartsBody code b) :
    (Frame.start group b passed).constructs code e = [] := by
  simp [Frame.constructs, Frame.start, hb.enclosing_eq_nil hw, openConstructs]

/-- A frame whose cursor lies in the same contents, with the same names owed, has the same open. -/
theorem Frame.constructs_congr {g : Frame} (h : enclosing code g.cursor = enclosing code f.cursor)
    (ho : g.owed = f.owed) : g.constructs code e = f.constructs code e := by
  rw [Frame.constructs, Frame.constructs, h, ho]

theorem Frame.Placed.of_cursor {g : Frame} (hp : f.Placed code) (h : g.cursor = f.cursor) :
    g.Placed code := ⟨h ▸ hp.inside, h ▸ hp.entered⟩

/-- A position in contents that a frame has open is a place for it. -/
theorem Frame.Placed.of_suffix {g : Frame} (hw : WellNested code) (hp : f.Placed code)
    (hne : enclosing code g.cursor ≠ [])
    (h : enclosing code g.cursor <:+ enclosing code f.cursor) : g.Placed code :=
  ⟨hw.lt_size hne, fun b hb => hp.entered b (h.subset hb)⟩

theorem enclosing_ne_nil (hw : WellNested code) {i : NodeId} (hn : code[i]? = some n)
    (hb : n.instruction ≠ .body) : enclosing code i ≠ [] :=
  fun h => hb ((hw.lawful _ _ hn).body.mpr h)

theorem close_of_isOpening (hw : WellNested code) {i : NodeId} (hn : code[i]? = some n)
    (ho : n.instruction.isOpening) : ∃ c, n.close = some c := by
  rw [← Option.isSome_iff_exists, ← (hw.lawful _ _ hn).isOpening, ho]

/-! ### Into a content -/

section
variable (hw : WellNested code) (hn : code[f.cursor]? = some n)
include hw hn

theorem Frame.enclosing_enter (ho : n.instruction.isOpening) :
    enclosing code f.enter.cursor = f.cursor :: enclosing code f.cursor := by
  obtain ⟨c, hc⟩ := close_of_isOpening hw hn ho
  exact enclosing_of_opening hn hc

theorem Frame.placed_enter (hp : f.Placed code) (ho : n.instruction.isOpening)
    (hentered : ∀ c, n.instruction = .container c → c.isEntered) : f.enter.Placed code := by
  have hin := Frame.enclosing_enter hw hn ho
  refine ⟨hw.lt_size (by simp [hin]), fun b hb => ?_⟩
  rw [hin] at hb
  rcases List.mem_cons.mp hb with rfl | hb
  · intro m c hm hc
    obtain rfl := Option.some.inj (hn.symm.trans hm)
    exact hentered c hc
  · exact hp.entered b hb

/-- Content that is entered has its container open as well. -/
theorem Frame.constructs_enter {g : Frame} {c : Container} (hg : g.cursor = f.cursor + 1)
    (hc : n.instruction = .container c) :
    g.constructs code e = c.opened f.cursor e g.owed ++
      openConstructs code e (enclosing code f.cursor) (if c.owes then g.owed.tail else g.owed) := by
  have hin : enclosing code g.cursor = f.cursor :: enclosing code f.cursor := by
    rw [hg]
    exact Frame.enclosing_enter hw hn (by rw [hc]; rfl)
  rw [Frame.constructs, hin, openConstructs, hn, Option.map_some, hc]

/-- Other content opens nothing. -/
theorem Frame.constructs_enter_plain (ho : n.instruction.isOpening)
    (hc : ∀ c, n.instruction ≠ .container c) :
    f.enter.constructs code e = f.constructs code e := by
  rw [Frame.constructs, Frame.enclosing_enter hw hn ho, openConstructs, hn, Option.map_some]
  cases hi : n.instruction with
  | container c => exact absurd hi (hc c)
  | _ => rfl

/-! ### Past a node -/

theorem Frame.enclosing_skip (ho : n.instruction.isOpening) :
    enclosing code (f.skip n).cursor = enclosing code f.cursor := by
  obtain ⟨c, hc⟩ := close_of_isOpening hw hn ho
  change enclosing code (n.close.getD f.cursor + 1) = _
  rw [hc]
  exact enclosing_after_close hw hn hc

/-! ### Out of a content -/

/-- What a frame at a closing node has open. -/
theorem Frame.constructs_closing {b : NodeId} (hb : n.instruction = .closing b) {o : Node}
    {c : Container} (ho : code[b]? = some o) (hc : o.instruction = .container c) :
    f.constructs code e = c.opened b e f.owed ++
      openConstructs code e (enclosing code b) (if c.owes then f.owed.tail else f.owed) := by
  rw [Frame.constructs, (enclosing_of_closing hw hn hb).1, openConstructs, ho, Option.map_some, hc]

theorem Frame.constructs_closing_plain {b : NodeId} (hb : n.instruction = .closing b) {o : Node}
    (ho : code[b]? = some o) (hc : ∀ c, o.instruction ≠ .container c) :
    f.constructs code e = openConstructs code e (enclosing code b) f.owed := by
  rw [Frame.constructs, (enclosing_of_closing hw hn hb).1, openConstructs, ho, Option.map_some]
  cases hi : o.instruction with
  | container c => exact absurd hi (hc c)
  | _ => rfl

/-- A position outside of the content that ends, in what is around it. -/
theorem Frame.placed_outside {g : Frame} (hp : f.Placed code) {b : NodeId}
    (hb : n.instruction = .closing b) {o : Node} (ho : code[b]? = some o)
    (hbody : o.instruction ≠ .body) (h : enclosing code g.cursor = enclosing code b) :
    g.Placed code := by
  refine hp.of_suffix hw (h ▸ enclosing_ne_nil hw ho hbody) ?_
  rw [h, (enclosing_of_closing hw hn hb).1]
  exact List.suffix_cons _ _

end

end

end StreamTransform
