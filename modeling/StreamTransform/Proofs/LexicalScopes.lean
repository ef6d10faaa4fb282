import StreamTransform.Proofs.DeclaredOnce
import StreamTransform.Proofs.Locals
import StreamTransform.Proofs.OwedNames

/-!
# Scopes follow contents

A body in execution has one scope for each content around its cursor. Whatever jumps, loops and
suspensions led there, a scope binds no name but those that its content has declared on the way, and
in the content of a loop over items the name of the items. A loop goes back only after the scope of
its content is gone, so nothing is declared there yet when its content begins again.
-/

namespace StreamTransform

/-! ## Names that a scope may bind -/

/-- In these contents the name is declared by a node that ends before the position. -/
def DeclaredBefore (code : Array Node) (st : List NodeId) (i : NodeId) (x : Home × String) : Prop :=
  ∃ k n c, code[k]? = some n ∧ n.close = some c ∧ c < i ∧ enclosing code k = st ∧
    DeclaredAt code x k

/-- The content at a node is that of a loop over items of this name. -/
def IsItem (code : Array Node) (b : NodeId) (name : String) : Prop :=
  ∃ n select, code[b]? = some n ∧ n.instruction = .container (.each name select)

/-- What the scope of the content at `b` may bind while control is at `i`. -/
def MayBind (code : Array Node) (i b : NodeId) (name : String) : Prop :=
  DeclaredBefore code (b :: enclosing code b) i (.body, name) ∨ IsItem code b name

/-- The scopes are those of the contents, and bind no more than they may. -/
def Lexical (code : Array Node) (i : NodeId) (bs : List NodeId) (scopes : List Bindings) : Prop :=
  List.Forall₂ (fun b (holds : String → Bool) => ∀ name, holds name → MayBind code i b name) bs
    (scopes.map Bindings.holds)

def Frame.Lexical (code : Array Node) (f : Frame) : Prop :=
  StreamTransform.Lexical code f.cursor (enclosing code f.cursor) f.scopes

section
variable {code : Array Node} {b b' i j k : NodeId} {bs st : List NodeId} {n : Node} {c : NodeId}
  {x : Home × String} {name : String} {s : Bindings} {scopes : List Bindings}

theorem DeclaredBefore.mono (h : DeclaredBefore code st i x) (hij : i ≤ j) :
    DeclaredBefore code st j x := by
  obtain ⟨k, n, c, hn, hc, hci, hst, hx⟩ := h
  exact ⟨k, n, c, hn, hc, Nat.lt_of_lt_of_le hci hij, hst, hx⟩

theorem MayBind.mono (h : MayBind code i b name) (hij : i ≤ j) : MayBind code j b name :=
  h.imp_left fun h => h.mono hij

theorem lexical_cons : Lexical code i (b :: bs) (s :: scopes) ↔
    (∀ name, s.holds name → MayBind code i b name) ∧ Lexical code i bs scopes :=
  List.forall₂_cons

/-- In these contents there is a scope for the innermost. -/
theorem Lexical.exists_cons (h : Lexical code i (b :: bs) scopes) : ∃ s r, scopes = s :: r ∧
    (∀ name, s.holds name → MayBind code i b name) ∧ Lexical code i bs r := by
  cases scopes with
  | nil => cases h
  | cons s r => exact ⟨s, r, rfl, lexical_cons.mp h⟩

theorem Lexical.imp (h : Lexical code i bs scopes)
    (hij : ∀ b ∈ bs, ∀ name, MayBind code i b name → MayBind code j b name) :
    Lexical code j bs scopes := by
  induction bs generalizing scopes with
  | nil => cases scopes with
    | nil => exact .nil
    | cons => cases h
  | cons b bs ih =>
    obtain ⟨s, r, rfl, hs, hr⟩ := h.exists_cons
    obtain ⟨hb, hbs⟩ := List.forall_mem_cons.mp hij
    exact lexical_cons.mpr ⟨fun name hname => hb name (hs name hname), ih hr hbs⟩

theorem Lexical.mono (h : Lexical code i bs scopes) (hij : i ≤ j) : Lexical code j bs scopes :=
  h.imp fun _ _ _ hname => hname.mono hij

/-- A container that binds what is declared by now in the innermost content. -/
theorem Lexical.bind {c : Container} (v : Value) (h : Lexical code i bs scopes)
    (hc : ∀ b r name, bs = b :: r → c.declared? = some (.body, name) → MayBind code i b name) :
    Lexical code i bs (c.bind v scopes) := by
  have declared : ∀ (home : Home) name, c.declared? = some (home, name) →
      Lexical code i bs (home.bind name v scopes) := by
    rintro (_ | g) name hname
    · cases bs with
      | nil => cases scopes with
        | nil => exact h
        | cons => cases h
      | cons b r =>
        obtain ⟨s, r', rfl, hs, hr⟩ := h.exists_cons
        refine lexical_cons.mpr ⟨fun other hother => ?_, hr⟩
        rw [Bindings.holds_insert, Bool.or_eq_true, beq_iff_eq] at hother
        rcases hother with rfl | hother
        · exact hc b r other rfl hname
        · exact hs other hother
    · exact h
  cases c with
  | «variable» name _ home => exact declared home name rfl
  | parameter name _ home => exact declared home name rfl
  | assign name origin =>
    change Lexical code i bs ((assignInScopes name v scopes).getD scopes)
    cases hassign : assignInScopes name v scopes with
    | none => exact h
    | some s' =>
      rw [Option.getD_some, Lexical, holds_assignInScopes hassign]
      exact h
  | _ => exact h

/-- What a node declares is not declared before its end. -/
theorem not_declaredBefore (honce : DeclaresOnce code) (hn : code[k]? = some n)
    (hc : n.close = some c) (hx : DeclaredAt code x k) (hi : i ≤ c) :
    ¬ DeclaredBefore code (enclosing code k) i x := by
  rintro ⟨k', n', c', hn', hc', hlt, hst, hx'⟩
  obtain rfl := honce.once x k' k hx' hx hst
  obtain rfl := Option.some.inj (hn.symm.trans hn')
  obtain rfl := Option.some.inj (hc.symm.trans hc')
  exact Nat.lt_irrefl _ (Nat.lt_of_lt_of_le hlt hi)

section
variable (hw : WellNested code)

include hw

/-- What was declared before the end of a content further inside was so before its start. -/
theorem DeclaredBefore.back (h : DeclaredBefore code (b' :: st) i x) (hn : code[b]? = some n)
    (hc : n.close = some i) (hb' : b' ∈ enclosing code b) :
    DeclaredBefore code (b' :: st) b x := by
  obtain ⟨k, m, c, hm, hmc, hci, hst, hx⟩ := h
  refine ⟨k, m, c, hm, hmc, ?_, hst, hx⟩
  rcases Nat.lt_trichotomy k b with hk | rfl | hk
  · rcases Nat.lt_trichotomy c b with hcb | rfl | hcb
    · exact hcb
    · -- a start is no end
      obtain ⟨-, o, ho, hclosing⟩ := (hw.lawful k m hm).close c hmc
      obtain rfl := Option.some.inj (hn.symm.trans ho)
      have hopen := (hw.lawful c n hn).isOpening
      rw [hclosing, hc] at hopen
      cases hopen
    · exact absurd hci (Nat.lt_asymm (close_lt_close hw hm hmc hn hc hk hcb))
  · obtain rfl := Option.some.inj (hn.symm.trans hm)
    obtain rfl := Option.some.inj (hc.symm.trans hmc)
    exact absurd hci (Nat.lt_irrefl i)
  · -- in a content further inside nothing is declared for the one around it
    have hin : b ∈ enclosing code k := (liesIn_of_between hw hn hc hk
      (Nat.le_of_lt (Nat.lt_trans (lt_close hw hm hmc) hci))).mem List.mem_cons_self
    obtain rfl := enclosing_cons hw hst
    rw [hst] at hin
    have hlt := lt_of_mem_enclosing hb'
    rcases List.mem_cons.mp hin with rfl | hin
    · exact absurd hlt (Nat.lt_irrefl b)
    · exact absurd hlt (Nat.lt_asymm (lt_of_mem_enclosing hin))

/-- Back at the start of a content, the scopes around it bind no more than before. -/
theorem Lexical.back (h : Lexical code i (enclosing code b) scopes) (hn : code[b]? = some n)
    (hc : n.close = some i) (hj : b ≤ j) : Lexical code j (enclosing code b) scopes :=
  h.imp fun _ hb' _ hname => MayBind.mono (hname.imp_left fun h => h.back hw hn hc hb') hj

/-- The innermost scope where a node stands does not bind the name that it is to declare. -/
theorem Lexical.fresh (h : Lexical code i (enclosing code k) scopes) (honce : DeclaresOnce code)
    (hn : code[k]? = some n) (hc : n.close = some c) (hx : DeclaredAt code (.body, name) k)
    (hi : i ≤ c) : ∃ s r, scopes = s :: r ∧ s.holds name = false := by
  cases hst : enclosing code k with
  | nil =>
    obtain ⟨c, hcontainer, -⟩ := declared_of_at hn hx
    have hbody := (hw.lawful k n hn).body.mpr hst
    rw [hcontainer] at hbody
    cases hbody
  | cons b st =>
    rw [hst] at h
    obtain ⟨s, r, rfl, hs, -⟩ := h.exists_cons
    obtain rfl := enclosing_cons hw hst
    refine ⟨s, r, rfl, Bool.eq_false_iff.mpr fun hname => ?_⟩
    rcases hs name hname with hbefore | ⟨o, select, ho, hitem⟩
    · rw [← hst] at hbefore
      exact not_declaredBefore honce hn hc hx hi hbefore
    · exact honce.item b o name select k ho hitem hst hx

end

end

/-! ## What a deed does to the scopes -/

/-- Where a deed leaves its frame, and with which scopes. -/
inductive Deed.Shifts (env : Environment) (d : Deed) (g : Frame) : Prop
  /-- The scope of a content is empty at first, but for the item of a loop. -/
  | enters {s : Bindings} : d.node.instruction.isOpening → g.cursor = d.frame.cursor + 1 →
      g.scopes = s :: d.frame.scopes → (s = [] ∨ ∃ name select item, d.node.instruction =
        .container (.each name select) ∧ s = Bindings.insert [] name ⟨[item]⟩) → Shifts env d g
  | goesOn : enclosing env.program.code g.cursor = enclosing env.program.code d.frame.cursor →
      d.frame.cursor ≤ g.cursor → g.scopes = d.frame.scopes → Shifts env d g
  | passes {c : Container} {close : NodeId} (v : Value) : d.node.instruction = .container c →
      d.node.close = some close → g.cursor = close + 1 → g.scopes = c.bind v d.frame.scopes →
      Shifts env d g
  | leaves {b : NodeId} : d.node.instruction = .closing b →
      enclosing env.program.code g.cursor = enclosing env.program.code b → b ≤ g.cursor →
      g.scopes = d.frame.scopes.tail → Shifts env d g
  | ends {b : NodeId} {o : Node} {c : Container} (v : Value) : d.node.instruction = .closing b →
      env.program.code[b]? = some o → o.instruction = .container c →
      g.cursor = d.frame.cursor + 1 → g.scopes = c.bind v d.frame.scopes.tail → Shifts env d g

namespace Deed

variable {env : Environment} {d : Deed} {g : Frame} {b : NodeId}

/-- A loop over items goes on with a scope that binds the next item alone, or past its end. -/
theorem Happens.goes_round {name : String} {select : Path.Expr} {close : NodeId}
    (hd : d.Happens env) (hi : d.node.instruction = .container (.each name select))
    (hclose : d.node.close = some close) :
    ∃ g, d.flow.frame? = some g ∧ (g.cursor = close + 1 ∧ g.scopes = d.frame.scopes ∨
      g.cursor = d.frame.cursor + 1 ∧
        ∃ item, g.scopes = Bindings.insert [] name ⟨[item]⟩ :: d.frame.scopes) := by
  obtain ⟨f, s₁, hf, hy⟩ := Operation.yields_bind.mp (hd.startContainer hi)
  obtain ⟨left, rfl⟩ := Operation.gives_enterLoop select _ _ _ hf
  unfold Operation.nextItem at hy
  split at hy
  next item _ _ _ =>
    exact ⟨_, congrArg Flow.frame? (Operation.yields_pure.mp hy).1, .inr ⟨rfl, item, rfl⟩⟩
  next =>
    refine ⟨_, congrArg Flow.frame? (Operation.yields_pure.mp hy).1, .inl ⟨?_, rfl⟩⟩
    simp [Frame.skip, Frame.moveTo, hclose]

section
variable (hw : env.program.WellNested) (hd : d.Happens env)

include hw hd

/-- Into a content with an empty scope, or past it. -/
theorem Happens.shifts_of_opening {close : NodeId} (hclose : d.node.close = some close)
    (h : d.flow.Goes d.frame (d.frame.cursor + 1) ([] :: d.frame.scopes) d.frame.loops ∨
      d.flow.Goes d.frame (close + 1) d.frame.scopes d.frame.loops)
    (hg : d.flow.frame? = some g) : d.Shifts env g := by
  rcases h with ⟨owed, hf⟩ | ⟨owed, hf⟩
  · obtain rfl := Option.some.inj (hf.symm.trans hg)
    have hopen : d.node.instruction.isOpening := by
      rw [(hw.code.lawful _ _ hd.node).isOpening, hclose]
      rfl
    exact .enters hopen rfl rfl (.inl rfl)
  · obtain rfl := Option.some.inj (hf.symm.trans hg)
    have hlt := lt_close hw.code hd.node hclose
    exact .goesOn (enclosing_after_close hw.code hd.node hclose)
      (Nat.le_succ_of_le (Nat.le_of_lt hlt)) rfl

theorem Happens.shifts_of_container {c : Container} (hi : d.node.instruction = .container c)
    (hg : d.flow.frame? = some g) : d.Shifts env g := by
  obtain ⟨close, hclose⟩ := close_of_isOpening hw.code hd.node (by rw [hi]; rfl)
  have hy := hd.startContainer hi
  cases hr : c.isRepeated with
  | false =>
    cases hs : c.isSelected d.frame.passed with
    | true =>
      obtain ⟨v, owed, hf⟩ := Operation.passes_startContainer hclose c hs _ _ _ hy
      obtain rfl := Option.some.inj (hf.symm.trans hg)
      exact .passes v hi hclose rfl rfl
    | false =>
      refine hd.shifts_of_opening hw hclose ?_ hg
      exact (Operation.unless_startContainer hclose c hr hs _ _ _ hy).imp_right And.left
  | true =>
    cases c with
    | loop test =>
      have hruns : d.Runs d.frame.cursor (.container (.loop test)) d.node.location d.frame.scopes :=
        ⟨rfl, hi, rfl, rfl⟩
      exact hd.shifts_of_opening hw hclose
        ((tested hd hruns rfl hclose).imp And.right And.right) hg
    | each name select =>
      obtain ⟨g', hg', hround⟩ := hd.goes_round hi hclose
      obtain rfl := Option.some.inj (hg'.symm.trans hg)
      rcases hround with ⟨hcursor, hscopes⟩ | ⟨hcursor, item, hscopes⟩
      · exact .passes .empty hi hclose hcursor hscopes
      · exact .enters (by rw [hi]; rfl) hcursor hscopes (.inr ⟨name, select, item, hi, rfl⟩)
    | _ => cases hr

/-- At the end of a content its scope goes, whether control goes on after it or back to its
start. -/
theorem Happens.shifts_of_closing (hp : Pointed env.program.code)
    (hb : d.node.instruction = .closing b) (hg : d.flow.frame? = some g) : d.Shifts env g := by
  obtain ⟨-, -, o, ho, hclose⟩ := enclosing_of_closing hw.code hd.node hb
  have hlt := lt_close hw.code ho hclose
  have hout := hd.outside hw hb ho hg
  have hy := hd.closeAt hb
  simp only [Operation.closeAt, ho] at hy
  have left : ∀ {f : Frame}, (pure (.on f) : Operation Flow).Yields d.before d.flow d.after →
      f.scopes = d.frame.scopes.tail → b ≤ f.cursor → d.Shifts env g := by
    intro f hy hscopes hcursor
    rw [(Operation.yields_pure.mp hy).1] at hg
    obtain rfl := Option.some.inj hg
    exact .leaves hb hout hcursor hscopes
  cases hi : o.instruction with
  | body =>
    simp only [hi] at hy
    rw [(Operation.yields_pure.mp hy).1] at hg
    cases hg
  | container c =>
    simp only [hi] at hy
    cases hr : c.isRepeated with
    | true =>
      cases c with
      | loop | each => exact left hy rfl (Nat.le_refl b)
      | _ => cases hr
    | false =>
      rcases Operation.unless_finishContainer b c hr _ _ _ hy with ⟨v, owed, hf⟩ | ⟨⟨owed, hf⟩, -⟩
      · obtain rfl := Option.some.inj (hf.symm.trans hg)
        exact .ends v hb ho hi rfl rfl
      · obtain rfl := Option.some.inj (hf.symm.trans hg)
        exact .leaves hb hout (Nat.le_succ_of_le (Nat.le_of_lt hlt)) rfl
  | condition test other =>
    simp only [hi] at hy
    cases other with
    | none => exact left hy rfl (Nat.le_succ_of_le (Nat.le_of_lt hlt))
    | some other =>
      simp only [Operation.leaveTo_eq] at hy
      refine left hy rfl ?_
      obtain ⟨c, m, hc, rfl, hm, halternative⟩ :=
        (hp o (Array.mem_toList_iff.mpr (Array.mem_of_getElem? ho))).alternative test other hi
      obtain rfl := Option.some.inj (hclose.symm.trans hc)
      obtain ⟨e, he⟩ := close_of_isOpening hw.code hm (by rw [halternative]; rfl)
      change b ≤ closeFrom env.program.code d.frame.cursor (d.frame.cursor + 1) + 1
      simp only [closeFrom, hm, he, Option.getD_some]
      exact Nat.le_succ_of_le (Nat.le_of_lt (Nat.lt_trans (Nat.lt_succ_of_lt hlt)
        (lt_close hw.code hm he)))
  | when test choice =>
    simp only [hi, Operation.leaveTo_eq] at hy
    refine left hy rfl ?_
    obtain ⟨st, ⟨m, e, hm, he, -, -⟩, hst⟩ := (hw.code.lawful b o ho).choice test choice hi
    change b ≤ closeFrom env.program.code d.frame.cursor choice
    simp only [closeFrom, hm, he, Option.getD_some]
    exact le_close_of_mem hw.code hm he (hst ▸ List.mem_cons_self)
  | _ =>
    simp only [hi] at hy
    exact left hy rfl (Nat.le_succ_of_le (Nat.le_of_lt hlt))

theorem Happens.shifts (hp : Pointed env.program.code) (hg : d.flow.frame? = some g) :
    d.Shifts env g := by
  have hruns : d.Runs d.frame.cursor d.node.instruction d.node.location d.frame.scopes :=
    ⟨rfl, rfl, rfl, rfl⟩
  have hopening : ∀ hi : d.node.instruction.isOpening, ∃ close, d.node.close = some close :=
    fun hi => close_of_isOpening hw.code hd.node hi
  cases hi : d.node.instruction with
  | act action =>
    obtain ⟨owed, hf⟩ := Operation.goes_act action _ _ _ (hd.act hi)
    obtain rfl := Option.some.inj (hf.symm.trans hg)
    exact .goesOn (enclosing_of_act hw.code hd.node hi) (Nat.le_succ _) rfl
  | container c => exact hd.shifts_of_container hw hi hg
  | closing b => exact hd.shifts_of_closing hw hp hi hg
  | condition | when =>
    obtain ⟨close, hclose⟩ := hopening (by rw [hi]; rfl)
    exact hd.shifts_of_opening hw hclose
      ((tested hd hruns (by rw [hi]; rfl) hclose).imp And.right And.right) hg
  | body | alternative | choice | «otherwise» =>
    obtain ⟨close, hclose⟩ := hopening (by rw [hi]; rfl)
    exact hd.shifts_of_opening hw hclose (.inl (enters hd hruns (by rw [hi]; rfl))) hg

/-- A deed keeps the scopes of its frame those of the contents around it. -/
theorem Happens.lexical (hp : Pointed env.program.code) (h : d.frame.Lexical env.program.code)
    (hg : d.flow.frame? = some g) : g.Lexical env.program.code := by
  unfold Frame.Lexical at h ⊢
  cases hd.shifts hw hp hg with
  | @enters s ho hcursor hscopes hs =>
    rw [hd.enclosing_of_entered hw hcursor ho, hcursor, hscopes]
    refine lexical_cons.mpr ⟨fun name hname => ?_, h.mono (Nat.le_succ _)⟩
    rcases hs with rfl | ⟨item, select, v, hi, rfl⟩
    · cases hname
    · rw [Bindings.holds_insert, Bool.or_eq_true, beq_iff_eq] at hname
      rcases hname with rfl | hname
      · exact .inr ⟨_, select, hd.node, hi⟩
      · cases hname
  | goesOn henclosing hcursor hscopes =>
    rw [henclosing, hscopes]
    exact h.mono hcursor
  | @passes c close v hi hclose hcursor hscopes =>
    rw [hcursor, hscopes, enclosing_after_close hw.code hd.node hclose]
    have hlt := lt_close hw.code hd.node hclose
    refine (h.mono (Nat.le_succ_of_le (Nat.le_of_lt hlt))).bind v fun b r name hin hc => .inl ?_
    obtain rfl := enclosing_cons hw.code hin
    exact ⟨_, _, close, hd.node, hclose, Nat.lt_succ_self _, hin, _, _, hd.node, hi, hc⟩
  | @leaves b hb henclosing hcursor hscopes =>
    obtain ⟨hin, -, o, ho, hclose⟩ := enclosing_of_closing hw.code hd.node hb
    rw [hin] at h
    obtain ⟨s, r, hr, -, h⟩ := h.exists_cons
    rw [henclosing, hscopes, hr]
    exact h.back hw.code ho hclose hcursor
  | @ends b o c v hb ho hi hcursor hscopes =>
    obtain ⟨hin, hafter, o', ho', hclose⟩ := enclosing_of_closing hw.code hd.node hb
    obtain rfl := Option.some.inj (ho.symm.trans ho')
    rw [hin] at h
    obtain ⟨s, r, hr, -, h⟩ := h.exists_cons
    rw [hcursor, hscopes, hr, hafter]
    refine (h.mono (Nat.le_succ _)).bind v fun b' r' name hin' hc => .inl ?_
    obtain rfl := enclosing_cons hw.code hin'
    exact ⟨b, o, _, ho, hclose, Nat.lt_succ_self _, hin', _, _, ho, hi, hc⟩

end

end Deed

/-! ## Runs -/

/-- At every moment the scopes of all bodies in execution are those of the contents around their
cursors. -/
theorem lexical_of_reached {env : Environment} {m : Moment} (hw : env.program.WellNested)
    (hp : Pointed env.program.code) (hm : Reached env m) :
    ∀ f ∈ m.bodies, f.Lexical env.program.code := by
  refine forall_bodies_of_reached hw (fun g b passed hb => ?_) (fun _ ho hown hg => ?_) hm
  · change Lexical _ b (enclosing env.program.code b) []
    rw [hb.enclosing_eq_nil hw.code]
    exact .nil
  · exact ho.happens.lexical hw hp hown hg

end StreamTransform
