import Mathlib.Data.Nat.Init
import StreamTransform.Proofs.Moves
import StreamTransform.Proofs.Outlines
import StreamTransform.Proofs.Trees

/-!
# Contents

In well-nested code the contents that a position lies in are told by the positions of their starts
and ends: two contents are apart, or one of them lies in the other. So a body goes on, node by node, up
to its own end, which no content inside of it reaches. A condition with an alternative and a branch of
a choice point to what they belong to.
-/

namespace StreamTransform

/-! ## Starts and ends -/

/-- A position lies between the start at a node and the end of it. -/
def Encloses (code : Array Node) (b i : NodeId) : Prop :=
  ∃ n c, code[b]? = some n ∧ n.close = some c ∧ b < i ∧ i < c

section
variable {code : Array Node} {b c e i j : NodeId} {n m : Node}

theorem Node.mem_after {st : List NodeId} (h : b ∈ n.after i st) : b = i ∨ b ∈ st := by
  unfold Node.after at h
  split at h
  · exact List.mem_cons.mp h
  · split at h
    · exact .inr (List.mem_of_mem_tail h)
    · exact .inr h

theorem enclosing_succ_of_none (h : code[i]? = none) :
    enclosing code (i + 1) = enclosing code i := by
  have hi : code.toList.length ≤ i := by simpa using h
  rw [enclosing, enclosing, List.take_of_length_le hi,
    List.take_of_length_le (Nat.le_succ_of_le hi)]

theorem mem_enclosing_succ (h : b ∈ enclosing code (i + 1)) : b = i ∨ b ∈ enclosing code i := by
  cases hn : code[i]? with
  | none => exact .inr (enclosing_succ_of_none hn ▸ h)
  | some n => exact Node.mem_after (enclosing_succ hn ▸ h)

theorem lt_of_mem_enclosing (h : b ∈ enclosing code i) : b < i := by
  induction i with
  | zero => exact absurd h List.not_mem_nil
  | succ i ih =>
    rcases mem_enclosing_succ h with rfl | h
    · exact Nat.lt_succ_self b
    · exact Nat.lt_succ_of_lt (ih h)

/-- The innermost content starts last. -/
theorem pairwise_enclosing (code : Array Node) (i : NodeId) :
    (enclosing code i).Pairwise fun a b => b < a := by
  induction i with
  | zero => exact List.Pairwise.nil
  | succ i ih =>
    cases hn : code[i]? with
    | none => exact enclosing_succ_of_none hn ▸ ih
    | some n =>
      rw [enclosing_succ hn]
      unfold Node.after
      split
      · exact List.pairwise_cons.mpr ⟨fun b hb => lt_of_mem_enclosing hb, ih⟩
      · split
        · exact ih.tail
        · exact ih

section
variable (hw : WellNested code) (hn : code[b]? = some n) (hc : n.close = some c)

include hw hn hc

theorem lt_close : b < c := by
  have hin := ((hw.lawful _ _ hn).close c hc).1
  exact lt_of_mem_enclosing (hin ▸ List.mem_cons_self)

/-- Behind its end a content is left for good. -/
theorem not_mem_enclosing (hi : c < i) : b ∉ enclosing code i := by
  induction i, hi using Nat.le_induction with
  | base =>
    rw [enclosing_after_close hw hn hc]
    exact fun h => Nat.lt_irrefl b (lt_of_mem_enclosing h)
  | succ i hi ih =>
    intro h
    rcases mem_enclosing_succ h with rfl | h
    · exact Nat.lt_asymm hi (lt_close hw hn hc)
    · exact ih h

/-- From its start up to its end all positions lie in a content. -/
theorem liesIn_of_between (hb : b < i) (hi : i ≤ c) : LiesIn code b i := by
  induction i, hb using Nat.le_induction with
  | base => exact liesIn_of_opening hn hc
  | succ i hb ih =>
    have hin : LiesIn code b i := ih (Nat.le_of_succ_le hi)
    have hsize : c < code.size := by
      obtain ⟨m, hm, -⟩ := ((hw.lawful _ _ hn).close c hc).2
      exact (Array.getElem?_eq_some_iff.mp hm).1
    obtain ⟨m, hm⟩ : ∃ m, code[i]? = some m :=
      ⟨_, Array.getElem?_eq_getElem (Nat.lt_trans hi hsize)⟩
    have hstep := enclosing_succ hm
    cases hclose : m.close with
    | some e => exact hin.deeper (by rw [hstep, Node.after, hclose])
    | none =>
      simp only [Node.after, hclose] at hstep
      split at hstep
      next b' hb' =>
        obtain ⟨hi', hafter, o, ho, hclose'⟩ := enclosing_of_closing hw hm hb'
        refine hin.outward hi' ?_ hafter
        -- only the end of the content itself leaves it
        rintro rfl
        obtain rfl := Option.some.inj (hn.symm.trans ho)
        obtain rfl := Option.some.inj (hc.symm.trans hclose')
        exact Nat.lt_irrefl _ hi
      next => exact hin.congr hstep

/-- A content that starts in another one ends in it. -/
theorem close_lt_close (hm : code[i]? = some m) (he : m.close = some e) (hbi : b < i)
    (hi : i < c) : e < c := by
  have hin := (hw.lawful _ _ hn).close c hc
  rcases Nat.lt_trichotomy e c with h | rfl | h
  · exact h
  · obtain ⟨-, x, hx, hb⟩ := hin
    obtain ⟨-, y, hy, hb'⟩ := (hw.lawful _ _ hm).close e he
    obtain rfl := Option.some.inj (hx.symm.trans hy)
    obtain rfl := Instruction.closing.inj (hb.symm.trans hb')
    exact absurd hbi (Nat.lt_irrefl b)
  · have hmem : i ∈ enclosing code c :=
      (liesIn_of_between hw hm he hi (Nat.le_of_lt h)).mem List.mem_cons_self
    rw [hin.1] at hmem
    rcases List.mem_cons.mp hmem with rfl | hmem
    · exact absurd hbi (Nat.lt_irrefl i)
    · exact absurd hbi (Nat.lt_asymm (lt_of_mem_enclosing hmem))

end

/-- The innermost content around a position is told by the starts and ends. -/
theorem encloses_of_enclosing (hw : WellNested code) {st : List NodeId}
    (h : enclosing code i = b :: st) (hn : code[b]? = some n) (hc : n.close = some c)
    (hm : code[i]? = some m) (hi : m.instruction ≠ .closing b) :
    Encloses code b i ∧ ∀ j, Encloses code j i → j ≤ b := by
  have hmem : b ∈ enclosing code i := h ▸ List.mem_cons_self
  have hle : i ≤ c := Nat.le_of_not_lt fun hlt => not_mem_enclosing hw hn hc hlt hmem
  have hne : i ≠ c := by
    rintro rfl
    obtain ⟨-, x, hx, hb⟩ := (hw.lawful _ _ hn).close i hc
    obtain rfl := Option.some.inj (hm.symm.trans hx)
    exact hi hb
  refine ⟨⟨n, c, hn, hc, lt_of_mem_enclosing hmem, Nat.lt_of_le_of_ne hle hne⟩, ?_⟩
  rintro j ⟨o, e, ho, he, hj, hie⟩
  have hjmem : j ∈ enclosing code i :=
    (liesIn_of_between hw ho he hj (Nat.le_of_lt hie)).mem List.mem_cons_self
  rw [h] at hjmem
  rcases List.mem_cons.mp hjmem with rfl | hjmem
  · exact Nat.le_refl j
  · exact Nat.le_of_lt ((List.pairwise_cons.mp (h ▸ pairwise_enclosing code i)).1 j hjmem)

end

/-! ## Alternatives and choices -/

/-- The node points to what it belongs to: a condition to the alternative that directly follows its
end, a branch to a choice. -/
structure Node.Points (code : Array Node) (n : Node) : Prop where
  alternative : ∀ test a, n.instruction = .condition test (some a) →
    ∃ c m, n.close = some c ∧ a = c + 1 ∧ code[a]? = some m ∧ m.instruction = .alternative
  choice : ∀ test c, n.instruction = .when test c →
    ∃ m, code[c]? = some m ∧ m.instruction = .choice

section
variable {code : Array Node} {start choice : NodeId} {xs ys : List Node} {n : Node}

theorem points_append (h : ∀ n ∈ xs, n.Points code) (h' : ∀ n ∈ ys, n.Points code) :
    ∀ n ∈ xs ++ ys, n.Points code := List.forall_mem_append.mpr ⟨h, h'⟩

theorem points_encloseCode {i : Instruction} {l l' : Location} {content : List Node}
    (hfirst : Node.Points code ⟨i, l, some (start + 1 + content.length)⟩)
    (h : ∀ n ∈ content, n.Points code) : ∀ n ∈ encloseCode start i l content l', n.Points code :=
  List.forall_mem_cons.mpr ⟨hfirst, points_append h
    (List.forall_mem_singleton.mpr ⟨nofun, nofun⟩)⟩

mutual

theorem Statement.points (start : NodeId) : ∀ s : Statement, Sits code start (s.code start) →
    ∀ n ∈ s.code start, n.Points code
  | .act l a, _ => List.forall_mem_singleton.mpr ⟨nofun, nofun⟩
  | .enclose l c content l', hs =>
    points_encloseCode ⟨nofun, nofun⟩ (points_codeOf _ content hs.tail.append.1)
  | .condition l test yes l', hs =>
    points_encloseCode ⟨nofun, nofun⟩ (points_codeOf _ yes hs.tail.append.1)
  | .either l test yes between no l', hs => by
    obtain ⟨hfirst, hsecond⟩ := Sits.append hs
    rw [length_encloseCode] at hsecond
    refine points_append (points_encloseCode ⟨?_, nofun⟩
      (points_codeOf _ yes hfirst.tail.append.1))
      (points_encloseCode ⟨nofun, nofun⟩ (points_codeOf _ no hsecond.tail.append.1))
    rintro _ _ ⟨⟩
    exact ⟨_, _, rfl, congrArg (· + 1) (Nat.add_right_comm start _ 1), hsecond.head, rfl⟩
  | .choose l branches l', hs =>
    points_encloseCode ⟨nofun, nofun⟩
      (points_branchesCode start _ branches hs.tail.append.1 ⟨_, hs.head, rfl⟩)

theorem Branch.points (choice start : NodeId) : ∀ b : Branch,
    Sits code start (b.code choice start) →
    (∃ m, code[choice]? = some m ∧ m.instruction = .choice) →
    ∀ n ∈ b.code choice start, n.Points code
  | .when l test content l', hs, hc => by
    refine points_encloseCode ⟨nofun, ?_⟩ (points_codeOf _ content hs.tail.append.1)
    rintro _ _ ⟨⟩
    exact hc
  | .otherwise l content l', hs, _ =>
    points_encloseCode ⟨nofun, nofun⟩ (points_codeOf _ content hs.tail.append.1)

theorem points_codeOf (start : NodeId) : ∀ ss : List Statement, Sits code start (codeOf start ss) →
    ∀ n ∈ codeOf start ss, n.Points code
  | [], _ => List.forall_mem_nil _
  | s :: ss, hs =>
    points_append (s.points start (Sits.append hs).1) (points_codeOf _ ss (Sits.append hs).2)

theorem points_branchesCode (choice start : NodeId) : ∀ bs : List Branch,
    Sits code start (branchesCode choice start bs) →
    (∃ m, code[choice]? = some m ∧ m.instruction = .choice) →
    ∀ n ∈ branchesCode choice start bs, n.Points code
  | [], _, _ => List.forall_mem_nil _
  | b :: bs, hs, hc => points_append (b.points choice start (Sits.append hs).1 hc)
    (points_branchesCode choice _ bs (Sits.append hs).2 hc)

end

theorem Body.points (b : Body) (hs : Sits code start (b.code start)) :
    ∀ n ∈ b.code start, n.Points code :=
  points_encloseCode ⟨nofun, nofun⟩ (points_codeOf _ b.statements hs.tail.append.1)

theorem Node.Points.append (h : n.Points code) (ns : List Node) : n.Points (code ++ ns) where
  alternative test a ha := by
    obtain ⟨c, m, hc, rfl, hm, hi⟩ := h.alternative test a ha
    exact ⟨c, m, hc, rfl, getElem?_append_of_some hm, hi⟩
  choice test c hc := by
    obtain ⟨m, hm, hi⟩ := h.choice test c hc
    exact ⟨m, getElem?_append_of_some hm, hi⟩

end

/-- All nodes point to what they belong to. -/
def Pointed (code : Array Node) : Prop := ∀ n ∈ code.toList, n.Points code

theorem Pointed.layOut {code : Array Node} (h : Pointed code) (b : Body) :
    Pointed (code ++ b.code code.size) := by
  intro n hn
  rw [Array.toList_appendList] at hn
  rcases List.mem_append.mp hn with hn | hn
  · exact (h n hn).append _
  · exact b.points (sits_append code _) n hn

/-- In a program that is built all nodes point to what they belong to. -/
theorem Script.pointed_of_build {ds : List Declaration} {p : Program} (h : build ds = .ok p) :
    Pointed p.code := by
  have hkept : Assemble.Kept fun d => Pointed d.code :=
    Assemble.kept_of_code fun _ b hp => hp.layOut b
  obtain ⟨d, hd, rfl⟩ := hkept.of_build (List.forall_mem_nil _) h
  exact hd

/-! ## Ends of bodies -/

/-- The own end of a body stands at a position. -/
def EndsBody (code : Array Node) (i : NodeId) : Prop :=
  ∃ n b, code[i]? = some n ∧ n.instruction = .closing b ∧ StartsBody code b

section
variable {code : Array Node} {b c i : NodeId} {n : Node}

theorem endsBody_iff (hn : code[i]? = some n) :
    EndsBody code i ↔ ∃ b, n.instruction = .closing b ∧ StartsBody code b := by
  constructor
  · rintro ⟨m, b, hm, hb, hs⟩
    obtain rfl := Option.some.inj (hn.symm.trans hm)
    exact ⟨b, hb, hs⟩
  · rintro ⟨b, hb, hs⟩
    exact ⟨n, b, hn, hb, hs⟩

section
variable (hw : WellNested code) (hn : code[b]? = some n) (hc : n.close = some c)

include hw hn hc

/-- Before its end no content meets the end of a body. -/
theorem not_endsBody (hb : b ≤ i) (hi : i < c) : ¬ EndsBody code i := by
  rintro ⟨m, b', hm, hb', hs⟩
  obtain ⟨hin, -, o, ho, hclose⟩ := enclosing_of_closing hw hm hb'
  rw [hs.enclosing_eq_nil hw] at hin
  -- the content that ends here is a body, and it is the one that the position lies in
  rcases Nat.eq_or_lt_of_le hb with rfl | hb
  · obtain rfl := Option.some.inj (hn.symm.trans hm)
    have hopens := close_of_not_isOpening hw hm (by rw [hb']; rfl)
    cases hc.symm.trans hopens
  · have hmem : b ∈ enclosing code i :=
      (liesIn_of_between hw hn hc hb (Nat.le_of_lt hi)).mem List.mem_cons_self
    rw [hin] at hmem
    obtain rfl := List.mem_singleton.mp hmem
    obtain rfl := Option.some.inj (hn.symm.trans ho)
    obtain rfl := Option.some.inj (hc.symm.trans hclose)
    exact Nat.lt_irrefl _ hi

theorem endsBody_close (hbody : n.instruction = .body) : EndsBody code c := by
  obtain ⟨-, m, hm, hi⟩ := (hw.lawful _ _ hn).close c hc
  exact ⟨m, b, hm, hi, n, hn, hbody⟩

end

end

/-! ## Execution -/

namespace Deed

variable {env : Environment} {d : Deed}

/-- A body is done with at its own end, and only there. -/
theorem Happens.done_iff (hw : WellNested env.program.code) (hd : d.Happens env) :
    d.flow = .done ↔ EndsBody env.program.code d.frame.cursor := by
  rw [endsBody_iff hd.node]
  constructor
  · intro hdone
    cases hd.moves hw with
    | ends hb hs => exact ⟨_, hb, hs⟩
    | enters hf _ | stays hf _ | leaves _ hf _ =>
      rw [hdone] at hf
      cases hf
  · rintro ⟨b, hb, o, ho, hbody⟩
    have hy := hd.closeAt hb
    simp only [Operation.closeAt, ho, hbody] at hy
    exact (Operation.yields_pure.mp hy).1

/-- An instruction that leads nowhere else leads to the node behind it. -/
theorem Happens.follows (hd : d.Happens env)
    (h : (∃ a, d.node.instruction = .act a) ∨ d.node.instruction.isPlain) :
    ∃ f, d.flow.frame? = some f ∧ f.cursor = d.frame.cursor + 1 := by
  rcases h with ⟨a, ha⟩ | hplain
  · obtain ⟨owed, hf⟩ := Operation.goes_act a _ _ _ (hd.act ha)
    exact ⟨_, hf, rfl⟩
  · obtain ⟨owed, hf⟩ := enters hd ⟨rfl, rfl, rfl, rfl⟩ hplain
    exact ⟨_, hf, rfl⟩

end Deed

end StreamTransform
