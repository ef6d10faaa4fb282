import StreamTransform.Proofs.UniqueNames

/-!
# Declarations in code

A declaration belongs to the innermost content that its node lies in. In code that is laid out from
trees in which names are declared once, no two nodes of one content declare the same name, and none
in the content of a loop over items declares the name of its items.
-/

namespace StreamTransform

/-- A declaration of a name starts at a node. -/
def DeclaredAt (code : Array Node) (x : Home × String) (k : NodeId) : Prop :=
  ∃ n c, code[k]? = some n ∧ n.instruction = .container c ∧ c.declared? = some x

/-- Every content declares a name once. -/
structure DeclaresOnce (code : Array Node) : Prop where
  once : ∀ x j k, DeclaredAt code x j → DeclaredAt code x k →
    enclosing code j = enclosing code k → j = k
  /-- A loop over items binds the name of its items before. -/
  item : ∀ (b : NodeId) (n : Node) name select k, code[b]? = some n →
    n.instruction = .container (.each name select) → enclosing code k = b :: enclosing code b →
    ¬ DeclaredAt code (.body, name) k

/-! ## Contents around a position -/

section
variable {code : Array Node} {b c i k : NodeId} {n : Node}

theorem exists_close_of_mem (h : b ∈ enclosing code i) :
    ∃ n c, code[b]? = some n ∧ n.close = some c := by
  induction i with
  | zero => exact absurd h List.not_mem_nil
  | succ i ih =>
    cases hn : code[i]? with
    | none => exact ih (enclosing_succ_of_none hn ▸ h)
    | some n =>
      rw [enclosing_succ hn] at h
      unfold Node.after at h
      split at h
      next c hc =>
        rcases List.mem_cons.mp h with rfl | h
        · exact ⟨n, c, hn, hc⟩
        · exact ih h
      next =>
        split at h
        · exact ih (List.mem_of_mem_tail h)
        · exact ih h

section
variable (hw : WellNested code)

include hw

theorem le_close_of_mem (hn : code[b]? = some n) (hc : n.close = some c)
    (h : b ∈ enclosing code i) : i ≤ c :=
  Nat.le_of_not_lt fun hlt => not_mem_enclosing hw hn hc hlt h

theorem liesIn_of_mem (h : b ∈ enclosing code i) : LiesIn code b i := by
  obtain ⟨n, c, hn, hc⟩ := exists_close_of_mem h
  exact liesIn_of_between hw hn hc (lt_of_mem_enclosing h) (le_close_of_mem hw hn hc h)

/-- The innermost content lies in the others. -/
theorem enclosing_cons {st : List NodeId} (h : enclosing code i = b :: st) :
    st = enclosing code b := by
  have hin : LiesIn code b i := liesIn_of_mem hw (h ▸ List.mem_cons_self)
  rw [LiesIn, h] at hin
  rcases List.suffix_cons_iff.mp hin with heq | hsuffix
  · exact (List.cons.inj heq).2.symm
  · have hordered := List.pairwise_cons.mp (h ▸ pairwise_enclosing code i)
    exact absurd (hordered.1 b (hsuffix.mem List.mem_cons_self)) (Nat.lt_irrefl b)

/-- Of a start and its content only the start lies in the same contents as the start. -/
theorem eq_start_of_enclosing (hn : code[b]? = some n) (hc : n.close = some c) (hb : b ≤ i)
    (hi : i ≤ c) (h : enclosing code i = enclosing code b) : i = b := by
  rcases Nat.eq_or_lt_of_le hb with rfl | hlt
  · rfl
  · have hmem : b ∈ enclosing code i :=
      (liesIn_of_between hw hn hc hlt hi).mem List.mem_cons_self
    rw [h] at hmem
    exact absurd (lt_of_mem_enclosing hmem) (Nat.lt_irrefl b)

/-- Every node belongs to a body. -/
theorem exists_body (hn : code[i]? = some n) :
    ∃ b, StartsBody code b ∧ (i = b ∨ b ∈ enclosing code i) := by
  induction i using Nat.strong_induction_on generalizing n with
  | _ i ih =>
    cases hin : enclosing code i with
    | nil => exact ⟨i, ⟨n, hn, (hw.lawful i n hn).body.mpr hin⟩, .inl rfl⟩
    | cons b st =>
      have hmem : b ∈ enclosing code i := hin ▸ List.mem_cons_self
      obtain ⟨o, _, ho, -⟩ := exists_close_of_mem hmem
      obtain ⟨b', hstarts, hb'⟩ := ih b (lt_of_mem_enclosing hmem) ho
      refine ⟨b', hstarts, .inr ?_⟩
      rcases hb' with rfl | hb'
      · exact List.mem_cons_self
      · exact List.mem_cons_of_mem b (enclosing_cons hw hin ▸ hb')

end

end

/-! ## Statements -/

/-- Of the nodes from one position up to another one, those that lie in just these contents declare
names once, and none that are taken. -/
structure Sole (code : Array Node) (st : List NodeId) (i j : NodeId)
    (taken : List (Home × String)) : Prop where
  free : ∀ x k, i ≤ k → k < j → enclosing code k = st → DeclaredAt code x k → x ∉ taken
  once : ∀ x k k', i ≤ k → k < j → enclosing code k = st → DeclaredAt code x k → i ≤ k' → k' < j →
    enclosing code k' = st → DeclaredAt code x k' → k = k'

section
variable {code : Array Node} {start k : NodeId} {x : Home × String} {n : Node}
  {instruction : Instruction} {l l' : Location} {content : List Node}

theorem declared_of_at (hn : code[k]? = some n) (h : DeclaredAt code x k) :
    ∃ c, n.instruction = .container c ∧ c.declared? = some x := by
  obtain ⟨m, c, hm, hi, hc⟩ := h
  obtain rfl := Option.some.inj (hn.symm.trans hm)
  exact ⟨c, hi, hc⟩

/-- A statement declares something only where it starts. -/
def OnlyDeclares (code : Array Node) (start : NodeId) (s : Statement) : Prop :=
  ∀ x k, start ≤ k → k < start + (s.code start).length → enclosing code k = enclosing code start →
    DeclaredAt code x k → k = start ∧ s.declared? = some x

section
variable (hw : WellNested code)

include hw

/-- Of a start, its content and its end, only the start can declare something where it stands. -/
theorem declared_encloseCode (hs : Sits code start (encloseCode start instruction l content l'))
    (hk : start ≤ k) (hlt : k < start + (encloseCode start instruction l content l').length)
    (h : enclosing code k = enclosing code start) (hx : DeclaredAt code x k) :
    k = start ∧ ∃ c, instruction = .container c ∧ c.declared? = some x := by
  have hclose : k ≤ start + 1 + content.length := by
    rw [length_encloseCode] at hlt
    rw [Nat.add_right_comm]
    exact Nat.le_of_lt_succ hlt
  obtain rfl := eq_start_of_enclosing hw hs.head rfl hk hclose h
  exact ⟨rfl, declared_of_at hs.head hx⟩

theorem Statement.onlyDeclares (s : Statement) (hs : Sits code start (s.code start)) :
    OnlyDeclares code start s := by
  intro x k hk hlt h hx
  -- What is no container declares nothing, where it starts too.
  have never : ∀ {start : NodeId} {i : Instruction} {l l' : Location} {content : List Node},
      Sits code start (encloseCode start i l content l') → (∀ c, i ≠ .container c) → start ≤ k →
      k < start + (encloseCode start i l content l').length →
      enclosing code k = enclosing code start → False := fun hs hi hk hlt h =>
    let ⟨_, c, hc, _⟩ := declared_encloseCode hw hs hk hlt h hx
    hi c hc
  cases s with
  | act l a =>
    obtain rfl : k = start := Nat.le_antisymm (Nat.le_of_lt_succ hlt) hk
    obtain ⟨c, hc, -⟩ := declared_of_at hs.head hx
    cases hc
  | enclose l c content l' =>
    obtain ⟨rfl, c', hc, hx⟩ := declared_encloseCode hw hs hk hlt h hx
    cases hc
    exact ⟨rfl, hx⟩
  | condition l test yes l' => exact (never hs nofun hk hlt h).elim
  | choose l branches l' => exact (never hs nofun hk hlt h).elim
  | either l test yes between no l' =>
    obtain ⟨hfirst, hsecond⟩ := Sits.append hs
    have hbetween := enclosing_of_sits hfirst
    rw [scan_encloseCode l between (scan_codeOf _ _ yes)] at hbetween
    by_cases hin : k < start + (encloseCode start (.condition test
        (some (start + (codeOf (start + 1) yes).length + 2))) l (codeOf (start + 1) yes)
        between).length
    · exact (never hfirst nofun hk hin h).elim
    · have hle := Nat.le_of_not_lt hin
      rw [← hbetween] at h
      rw [length_encloseCode] at hsecond hle h
      refine (never hsecond nofun hle ?_ h).elim
      simpa [Statement.code, Nat.add_assoc] using hlt

theorem sole_codeOf : ∀ (ss : List Statement) (start : NodeId) (taken : List (Home × String)),
    UniqueContent taken ss → Sits code start (codeOf start ss) →
    Sole code (enclosing code start) start (start + (codeOf start ss).length) taken
  | [], start, _, _, _ =>
    ⟨fun _ _ hk hlt => absurd hlt (Nat.not_lt_of_le hk),
      fun _ _ _ hk hlt => absurd hlt (Nat.not_lt_of_le hk)⟩
  | s :: ss, start, taken, ⟨hfree, _, hrest⟩, hs => by
    rw [codeOf] at hs ⊢
    obtain ⟨hfirst, hsecond⟩ := hs.append
    have ih := sole_codeOf ss _ _ hrest hsecond
    rw [enclosing_of_sits hfirst, Statement.scan_code] at ih
    rw [List.length_append, ← Nat.add_assoc]
    have first := s.onlyDeclares hw hfirst
    have later : ∀ x k, start + (s.code start).length ≤ k →
        k < start + (s.code start).length + (codeOf _ ss).length →
        enclosing code k = enclosing code start → DeclaredAt code x k → s.declared? ≠ some x :=
      fun x k hk hlt h hx hd =>
        ih.free x k hk hlt h hx (List.mem_append_left _ (Option.mem_toList.mpr hd))
    constructor
    case free =>
      intro x k hk hlt h hx
      rcases Nat.lt_or_ge k (start + (s.code start).length) with hin | hout
      · exact hfree x (first x k hk hin h hx).2
      · exact fun hmem => ih.free x k hout hlt h hx (List.mem_append_right _ hmem)
    case once =>
      intro x k k' hk hlt h hx hk' hlt' h' hx'
      rcases Nat.lt_or_ge k (start + (s.code start).length) with hin | hout <;>
        rcases Nat.lt_or_ge k' (start + (s.code start).length) with hin' | hout'
      · exact (first x k hk hin h hx).1.trans (first x k' hk' hin' h' hx').1.symm
      · exact absurd (first x k hk hin h hx).2 (later x k' hout' hlt' h' hx')
      · exact absurd (first x k' hk' hin' h' hx').2 (later x k hout hlt h hx)
      · exact ih.once x k k' hout hlt h hx hout' hlt' h' hx'

/-- Branches are no declarations. -/
theorem sole_branchesCode (choice : NodeId) : ∀ (bs : List Branch) (start : NodeId),
    Sits code start (branchesCode choice start bs) →
    ∀ x k, start ≤ k → k < start + (branchesCode choice start bs).length →
      enclosing code k = enclosing code start → ¬ DeclaredAt code x k
  | [], start, _, x, k, hk, hlt, _ => absurd hlt (Nat.not_lt_of_le hk)
  | b :: bs, start, hs, x, k, hk, hlt, h => by
    rw [branchesCode] at hs hlt
    obtain ⟨hfirst, hsecond⟩ := hs.append
    rcases Nat.lt_or_ge k (start + (b.code choice start).length) with hin | hout
    · intro hx
      cases b <;>
      · obtain ⟨-, c, hc, -⟩ := declared_encloseCode hw hfirst hk hin h hx
        cases hc
    · rw [List.length_append, ← Nat.add_assoc] at hlt
      refine sole_branchesCode choice bs _ hsecond x k hout hlt ?_
      rw [enclosing_of_sits hfirst, Branch.scan_code, h]

end

end

/-! ## Nodes -/

def Instruction.taken : Instruction → List (Home × String)
  | .container c => c.taken
  | .act _ | .body | .condition .. | .alternative | .choice | .when .. | .otherwise | .closing _ =>
    []

/-- The content that starts at a node declares names once. -/
def Node.DeclaresOnce (code : Array Node) (i : NodeId) (n : Node) : Prop :=
  ∀ c, n.close = some c → Sole code (i :: enclosing code i) (i + 1) c n.instruction.taken

section
variable {code : Array Node} {start choice : NodeId} {i : Instruction} {l l' : Location}

theorem once_encloseCode {content : List Node}
    (hs : Sits code start (encloseCode start i l content l'))
    (h : Sole code (enclosing code (start + 1)) (start + 1) (start + 1 + content.length) i.taken)
    (hc : Throughout (Node.DeclaresOnce code) (start + 1) content) :
    Throughout (Node.DeclaresOnce code) start (encloseCode start i l content l') := by
  refine (throughout_single ?_).append (hc.append (throughout_single nofun))
  intro c hclose
  obtain rfl := Option.some.inj hclose
  rwa [enclosing_succ hs.head] at h

mutual

theorem Statement.declaresOnce (hw : WellNested code) : ∀ (s : Statement) (start : NodeId),
    s.Unique → Sits code start (s.code start) →
    Throughout (Node.DeclaresOnce code) start (s.code start)
  | .act l a, _, _, _ => throughout_single nofun
  | .enclose l c content l', _, h, hs =>
    once_encloseCode hs (sole_codeOf hw content _ _ h hs.tail.append.1)
      (declaresOnce_codeOf hw content _ _ h hs.tail.append.1)
  | .condition l _ yes l', _, h, hs =>
    once_encloseCode hs (sole_codeOf hw yes _ _ h hs.tail.append.1)
      (declaresOnce_codeOf hw yes _ _ h hs.tail.append.1)
  | .either l _ yes between no l', _, ⟨hyes, hno⟩, hs => by
    obtain ⟨hfirst, hsecond⟩ := Sits.append hs
    refine Throughout.append (once_encloseCode hfirst
      (sole_codeOf hw yes _ _ hyes hfirst.tail.append.1)
      (declaresOnce_codeOf hw yes _ _ hyes hfirst.tail.append.1)) ?_
    rw [length_encloseCode] at hsecond ⊢
    exact once_encloseCode hsecond (sole_codeOf hw no _ _ hno hsecond.tail.append.1)
      (declaresOnce_codeOf hw no _ _ hno hsecond.tail.append.1)
  | .choose l branches l', start, h, hs =>
    have none := sole_branchesCode hw start branches _ hs.tail.append.1
    once_encloseCode hs
      ⟨fun x k hk hlt he hx => (none x k hk hlt he hx).elim,
        fun x k _ hk hlt he hx => (none x k hk hlt he hx).elim⟩
      (declaresOnce_branchesCode hw branches start _ h hs.tail.append.1)

theorem Branch.declaresOnce (hw : WellNested code) : ∀ (b : Branch) (choice start : NodeId),
    UniqueBranches [b] → Sits code start (b.code choice start) →
    Throughout (Node.DeclaresOnce code) start (b.code choice start)
  | .when _ _ content _, _, _, h, hs | .otherwise _ content _, _, _, h, hs =>
    once_encloseCode hs (sole_codeOf hw content _ _ h.1 hs.tail.append.1)
      (declaresOnce_codeOf hw content _ _ h.1 hs.tail.append.1)

theorem declaresOnce_codeOf (hw : WellNested code) : ∀ (ss : List Statement) (start : NodeId)
    (taken : List (Home × String)), UniqueContent taken ss → Sits code start (codeOf start ss) →
    Throughout (Node.DeclaresOnce code) start (codeOf start ss)
  | [], _, _, _, _ => nofun
  | s :: ss, _, _, ⟨_, hs, hss⟩, hsits => by
    rw [codeOf] at hsits ⊢
    exact (s.declaresOnce hw _ hs hsits.append.1).append
      (declaresOnce_codeOf hw ss _ _ hss hsits.append.2)

theorem declaresOnce_branchesCode (hw : WellNested code) : ∀ (bs : List Branch)
    (choice start : NodeId), UniqueBranches bs → Sits code start (branchesCode choice start bs) →
    Throughout (Node.DeclaresOnce code) start (branchesCode choice start bs)
  | [], _, _, _, _ => nofun
  | b :: bs, _, _, h, hsits => by
    rw [branchesCode] at hsits ⊢
    have hb : UniqueBranches [b] ∧ UniqueBranches bs := by
      cases b <;> exact ⟨⟨h.1, trivial⟩, h.2⟩
    exact (b.declaresOnce hw _ _ hb.1 hsits.append.1).append
      (declaresOnce_branchesCode hw bs _ _ hb.2 hsits.append.2)

end

theorem Body.declaresOnce (hw : WellNested code) (b : Body) (h : b.Unique)
    (hs : Sits code start (b.code start)) :
    Throughout (Node.DeclaresOnce code) start (b.code start) :=
  once_encloseCode hs (sole_codeOf hw b.statements _ _ h hs.tail.append.1)
    (declaresOnce_codeOf hw b.statements _ _ h hs.tail.append.1)

end

/-! ## Whole code -/

/-- The nodes inside of a body are those that it is laid out as. -/
theorem Body.getElem?_of_mem {code : Array Node} {b i : NodeId} {n : Node} (body : Body)
    (hw : WellNested code) (hs : Sits code b (body.code b)) (hi : i = b ∨ b ∈ enclosing code i)
    (hn : code[i]? = some n) : ∃ k, i = b + k ∧ (body.code b)[k]? = some n := by
  obtain ⟨k, rfl, hk⟩ : ∃ k, i = b + k ∧ k < (body.code b).length := by
    rcases hi with rfl | hi
    · exact ⟨0, rfl, Nat.succ_pos _⟩
    · obtain ⟨k, rfl⟩ := Nat.exists_eq_add_of_le (Nat.le_of_lt (lt_of_mem_enclosing hi))
      have hle := le_close_of_mem hw hs.head rfl hi
      rw [Nat.add_assoc, Nat.add_comm 1] at hle
      refine ⟨k, rfl, ?_⟩
      rw [Body.code, length_encloseCode]
      exact Nat.lt_succ_of_le (Nat.le_of_add_le_add_left hle)
  have hnode := List.getElem?_eq_getElem hk
  obtain rfl := Option.some.inj (hn.symm.trans (hs k _ hnode))
  exact ⟨k, rfl, hnode⟩

section
variable {code : Array Node} (hw : WellNested code) (hgrown : Script.GrownUnique code)

include hw hgrown

theorem node_declaresOnce {i : NodeId} {n : Node} (hn : code[i]? = some n) :
    n.DeclaresOnce code i := by
  obtain ⟨b, hb, hi⟩ := exists_body hw hn
  obtain ⟨body, hs, hunique⟩ := hgrown b hb
  obtain ⟨k, rfl, hnode⟩ := body.getElem?_of_mem hw hs hi hn
  exact body.declaresOnce hw hunique hs k n hnode

/-- In code that is laid out from trees with unique names, every content declares a name once. -/
theorem declaresOnce_of_grown : DeclaresOnce code := by
  -- A declaration lies in the content of a node, strictly before its end.
  have inside : ∀ {x b k n c}, DeclaredAt code x k → b ∈ enclosing code k → code[b]? = some n →
      n.close = some c → b + 1 ≤ k ∧ k < c := by
    intro x b k n c hx hmem hn hc
    have hne : k ≠ c := by
      rintro rfl
      obtain ⟨-, m, hm, hi⟩ := (hw.lawful b n hn).close k hc
      obtain ⟨d, hd, -⟩ := declared_of_at hm hx
      rw [hi] at hd
      cases hd
    exact ⟨lt_of_mem_enclosing hmem, Nat.lt_of_le_of_ne (le_close_of_mem hw hn hc hmem) hne⟩
  constructor
  case once =>
    intro x j k hj hk h
    cases hin : enclosing code k with
    | nil =>
      obtain ⟨n, c, hn, hi, -⟩ := hk
      have hbody := (hw.lawful k n hn).body.mpr hin
      rw [hi] at hbody
      cases hbody
    | cons b st =>
      obtain rfl := enclosing_cons hw hin
      have hmem : b ∈ enclosing code k := hin ▸ List.mem_cons_self
      obtain ⟨n, c, hn, hc⟩ := exists_close_of_mem hmem
      obtain ⟨hbj, hjc⟩ := inside hj (h ▸ hmem) hn hc
      obtain ⟨hbk, hkc⟩ := inside hk hmem hn hc
      exact (node_declaresOnce hw hgrown hn c hc).once x j k hbj hjc (h.trans hin) hj hbk hkc hin hk
  case item =>
    intro b n name select k hn hi h hx
    have hmem : b ∈ enclosing code k := h ▸ List.mem_cons_self
    obtain ⟨n', c, hn', hc⟩ := exists_close_of_mem hmem
    obtain rfl := Option.some.inj (hn.symm.trans hn')
    obtain ⟨hbk, hkc⟩ := inside hx hmem hn hc
    have hfree := (node_declaresOnce hw hgrown hn c hc).free _ k hbk hkc h hx
    rw [hi] at hfree
    exact hfree List.mem_cons_self

end

end StreamTransform
