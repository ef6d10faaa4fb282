import StreamTransform.Proofs.Statements

/-!
# Laid-out code is well nested

`enclosing` reads off the code before a position which contents the position
lies in. In code that bodies were laid out to, a start and its end agree on
this, and so do the places that a jump connects.
-/

namespace StreamTransform

/-- The contents a position lies in after a node, if `st` are those before it. -/
def Node.after (n : Node) (i : NodeId) (st : List NodeId) : List NodeId :=
  match n.close with
  | some _ => i :: st
  | none =>
    match n.instruction with
    | .closing _ => st.tail
    | _ => st

/-- The contents after nodes that start at `i`. -/
def scan (st : List NodeId) (i : NodeId) : List Node → List NodeId
  | [] => st
  | n :: ns => scan (n.after i st) (i + 1) ns

/-- The start nodes of the contents that a position lies in, the innermost first. -/
def enclosing (code : Array Node) (i : NodeId) : List NodeId := scan [] 0 (code.toList.take i)

theorem scan_append (st : List NodeId) (i : NodeId) (xs ys : List Node) :
    scan st i (xs ++ ys) = scan (scan st i xs) (i + xs.length) ys := by
  induction xs generalizing st i with
  | nil => rfl
  | cons x xs ih =>
    simp only [List.cons_append, scan, ih, List.length_cons]
    rw [Nat.add_assoc, Nat.add_comm 1]

theorem enclosing_succ {code : Array Node} {i : NodeId} {n : Node} (h : code[i]? = some n) :
    enclosing code (i + 1) = n.after i (enclosing code i) := by
  have hi : i < code.toList.length := by
    obtain ⟨hi, -⟩ := Array.getElem?_eq_some_iff.mp h
    simpa using hi
  have hn : code.toList[i]? = some n := by simpa using h
  rw [enclosing, List.take_add_one, hn, Option.toList_some, scan_append, List.length_take,
    Nat.min_eq_left (Nat.le_of_lt hi), Nat.zero_add]
  rfl

/-! ## Pieces of code -/

/-- The nodes stand in the code from a position on. -/
def Sits (code : Array Node) (start : NodeId) (ns : List Node) : Prop :=
  ∀ i n, ns[i]? = some n → code[start + i]? = some n

section
variable {code : Array Node} {start : NodeId} {xs ys : List Node} {n : Node}

theorem Sits.append (h : Sits code start (xs ++ ys)) :
    Sits code start xs ∧ Sits code (start + xs.length) ys := by
  constructor
  · intro i n hn
    have hi : i < xs.length := (List.getElem?_eq_some_iff.mp hn).1
    exact h i n (by rw [List.getElem?_append_left hi, hn])
  · intro i n hn
    rw [Nat.add_assoc]
    refine h _ n ?_
    rw [List.getElem?_append_right (Nat.le_add_right _ _), Nat.add_sub_cancel_left, hn]

theorem Sits.head (h : Sits code start (n :: xs)) : code[start]? = some n := h 0 n rfl

theorem Sits.tail (h : Sits code start (n :: xs)) : Sits code (start + 1) xs := by
  intro i m hm
  rw [Nat.add_assoc, Nat.add_comm 1]
  exact h (i + 1) m hm

theorem enclosing_of_sits (h : Sits code start xs) :
    enclosing code (start + xs.length) = scan (enclosing code start) start xs := by
  induction xs generalizing start with
  | nil => rfl
  | cons x xs ih =>
    rw [scan, ← enclosing_succ h.head, ← ih h.tail, List.length_cons, Nat.add_assoc,
      Nat.add_comm 1]

end

/-- An instruction with content. -/
def Instruction.isOpening : Instruction → Bool
  | .act _ | .closing _ => false
  | .body | .container _ | .condition .. | .alternative | .choice | .when .. | .otherwise => true

theorem scan_encloseCode {st : List NodeId} {start : NodeId} {i : Instruction} {content : List Node}
    (l l' : Location)
    (hc : scan (start :: st) (start + 1) content = start :: st) :
    scan st start (encloseCode start i l content l') = st := by
  rw [encloseCode, List.cons_append, scan, scan_append]
  change scan (scan (start :: st) (start + 1) content) _ [⟨.closing start, l', none⟩] = st
  rw [hc]
  rfl

mutual

/-- The code of a statement leaves the contents that it starts in. -/
theorem Statement.scan_code (st : List NodeId) (start : NodeId) :
    ∀ s : Statement, scan st start (s.code start) = st
  | .act l a => rfl
  | .enclose l c content l' => scan_encloseCode l l' (scan_codeOf _ _ content)
  | .condition l _ yes l' => scan_encloseCode l l' (scan_codeOf _ _ yes)
  | .either l _ yes between no l' => by
    simp only [Statement.code]
    rw [scan_append, scan_encloseCode l between (scan_codeOf _ _ yes), length_encloseCode]
    exact scan_encloseCode between l' (scan_codeOf _ _ no)
  | .choose l branches l' => scan_encloseCode l l' (scan_branchesCode _ _ _ branches)

theorem Branch.scan_code (st : List NodeId) (choice start : NodeId) :
    ∀ b : Branch, scan st start (b.code choice start) = st
  | .when l _ content l' => scan_encloseCode l l' (scan_codeOf _ _ content)
  | .otherwise l content l' => scan_encloseCode l l' (scan_codeOf _ _ content)

theorem scan_codeOf (st : List NodeId) (start : NodeId) :
    ∀ ss : List Statement, scan st start (codeOf start ss) = st
  | [] => rfl
  | s :: ss => by
    simp only [codeOf]
    rw [scan_append, Statement.scan_code st start s, scan_codeOf]

theorem scan_branchesCode (st : List NodeId) (choice start : NodeId) :
    ∀ bs : List Branch, scan st start (branchesCode choice start bs) = st
  | [] => rfl
  | b :: bs => by
    simp only [branchesCode]
    rw [scan_append, Branch.scan_code st choice start b, scan_branchesCode]

end

/-! ## Lawful positions -/

/-- A start node whose content is not a whole body, with the contents it lies in. -/
def OpensIn (code : Array Node) (i : NodeId) (st : List NodeId) : Prop :=
  ∃ n c, code[i]? = some n ∧ n.close = some c ∧ n.instruction ≠ .body ∧ enclosing code i = st

/-- A node agrees with the code around it. -/
structure Node.Lawful (code : Array Node) (i : NodeId) (n : Node) : Prop where
  isOpening : n.instruction.isOpening = n.close.isSome
  close : ∀ c, n.close = some c → enclosing code c = i :: enclosing code i ∧
    ∃ m, code[c]? = some m ∧ m.instruction = .closing i
  closing : ∀ b, n.instruction = .closing b → ∃ m, code[b]? = some m ∧ m.close = some i
  body : n.instruction = .body ↔ enclosing code i = []
  alternative : ∀ test a, n.instruction = .condition test (some a) →
    OpensIn code a (enclosing code i)
  choice : ∀ test c, n.instruction = .when test c →
    ∃ st, OpensIn code c st ∧ enclosing code i = c :: st

/-- What holds of all nodes of a piece at their positions. -/
def Throughout (P : NodeId → Node → Prop) (start : NodeId) (ns : List Node) : Prop :=
  ∀ (i : Nat) (n : Node), ns[i]? = some n → P (start + i) n

section
variable {P : NodeId → Node → Prop} {start : NodeId} {xs ys : List Node}

theorem Throughout.append (h : Throughout P start xs)
    (h' : Throughout P (start + xs.length) ys) : Throughout P start (xs ++ ys) := by
  intro i n hn
  by_cases hi : i < xs.length
  · rw [List.getElem?_append_left hi] at hn
    exact h i n hn
  · have hle := Nat.le_of_not_lt hi
    rw [List.getElem?_append_right hle] at hn
    have hl := h' (i - xs.length) n hn
    rwa [Nat.add_assoc, Nat.add_sub_cancel' hle] at hl

theorem throughout_single {n : Node} (h : P start n) : Throughout P start [n] := by
  intro i m hm
  cases i with
  | zero =>
    obtain rfl := Option.some.inj hm
    exact h
  | succ i => cases hm

end

/-- The nodes of a piece are lawful. -/
def Laid (code : Array Node) (start : NodeId) (ns : List Node) : Prop :=
  ∀ (i : Nat) (n : Node), ns[i]? = some n → n.Lawful code (start + i)

section
variable {code : Array Node} {start : NodeId}

theorem Laid.append {xs ys : List Node} (h : Laid code start xs)
    (h' : Laid code (start + xs.length) ys) : Laid code start (xs ++ ys) :=
  Throughout.append h h'

theorem laid_single {n : Node} (h : n.Lawful code start) : Laid code start [n] :=
  throughout_single h

/-- What holds of the start node and of the content holds of a whole piece with content. -/
theorem laid_encloseCode {i : Instruction} {content : List Node} {l l' : Location}
    (hs : Sits code start (encloseCode start i l content l')) (hi : i.isOpening)
    (hscan : ∀ st, scan st (start + 1) content = st)
    (hbody : i = .body ↔ enclosing code start = [])
    (halternative : ∀ test a, i = .condition test (some a) →
      OpensIn code a (enclosing code start))
    (hchoice : ∀ test c, i = .when test c →
      ∃ st, OpensIn code c st ∧ enclosing code start = c :: st)
    (hcontent : Sits code (start + 1) content →
      enclosing code (start + 1) = start :: enclosing code start →
      Laid code (start + 1) content) :
    Laid code start (encloseCode start i l content l') := by
  have hhead := hs.head
  have hopen : enclosing code (start + 1) = start :: enclosing code start :=
    enclosing_succ hhead
  obtain ⟨hinner, hlast⟩ := hs.tail.append
  have hclose : enclosing code (start + 1 + content.length) = start :: enclosing code start := by
    rw [enclosing_of_sits hinner, hscan, hopen]
  have hfirst : Laid code start [⟨i, l, some (start + 1 + content.length)⟩] :=
    laid_single ⟨hi,
      fun c hc => by obtain rfl := Option.some.inj hc; exact ⟨hclose, _, hlast.head, rfl⟩,
      fun b hb => by subst hb; simp [Instruction.isOpening] at hi, hbody, halternative, hchoice⟩
  have hend : Laid code (start + 1 + content.length) [⟨.closing start, l', none⟩] := by
    refine laid_single ⟨rfl, by simp, fun b hb => ?_, by simp [hclose], by simp, by simp⟩
    obtain rfl : start = b := by simpa using hb
    exact ⟨_, hhead, rfl⟩
  have hmiddle := hcontent hinner hopen
  exact hfirst.append (hmiddle.append hend)

theorem OpensIn.of_sits {i : Instruction} {content : List Node} {l l' : Location}
    (hs : Sits code start (encloseCode start i l content l')) (hb : i ≠ .body) :
    OpensIn code start (enclosing code start) :=
  ⟨_, _, hs.head, rfl, hb, rfl⟩

mutual

theorem Statement.laid {start : NodeId} : ∀ s : Statement, Sits code start (s.code start) →
    enclosing code start ≠ [] → Laid code start (s.code start)
  | .act l a, _, hne => laid_single ⟨rfl, by simp, by simp, by simp [hne], by simp, by simp⟩
  | .enclose l c content l', hs, hne =>
    laid_encloseCode hs rfl (fun _ => scan_codeOf _ _ content) (by simp [hne]) (by simp) (by simp)
      fun hs' he => laid_codeOf content hs' (by simp [he])
  | .condition l _ yes l', hs, hne =>
    laid_encloseCode hs rfl (fun _ => scan_codeOf _ _ yes) (by simp [hne]) (by simp) (by simp)
      fun hs' he => laid_codeOf yes hs' (by simp [he])
  | .either l test yes between no l', hs, hne => by
    obtain ⟨hfirst, hsecond⟩ := Sits.append hs
    rw [length_encloseCode] at hsecond
    have hbetween := enclosing_of_sits hfirst
    rw [scan_encloseCode l between (scan_codeOf _ _ yes), length_encloseCode] at hbetween
    have hother : OpensIn code (start + (codeOf (start + 1) yes).length + 2)
        (enclosing code start) := by
      rw [← hbetween]
      exact .of_sits hsecond (by simp)
    have hyes := laid_encloseCode hfirst rfl (fun _ => scan_codeOf _ _ yes) (by simp [hne])
      (fun test a h => by
        obtain ⟨-, rfl⟩ : _ ∧ _ = a := by simpa using h
        exact hother)
      (by simp) fun hs' he => laid_codeOf yes hs' (by simp [he])
    refine hyes.append ?_
    rw [length_encloseCode]
    exact laid_encloseCode hsecond rfl (fun _ => scan_codeOf _ _ no)
      (by rw [← hbetween] at hne; simpa using hne) (by simp) (by simp)
      fun hs' he => laid_codeOf no hs' (by simp [he])
  | .choose l branches l', hs, hne =>
    laid_encloseCode hs rfl (fun _ => scan_branchesCode _ _ _ branches) (by simp [hne]) (by simp)
      (by simp) fun hs' he => laid_branchesCode branches hs' ⟨_, .of_sits hs (by simp), he⟩

theorem Branch.laid {choice start : NodeId} : ∀ b : Branch, Sits code start (b.code choice start) →
    (∃ st, OpensIn code choice st ∧ enclosing code start = choice :: st) →
    Laid code start (b.code choice start)
  | .when l _ content l', hs, hc =>
    laid_encloseCode hs rfl (fun _ => scan_codeOf _ _ content)
      (by obtain ⟨st, -, he⟩ := hc; simp [he]) (by simp)
      (fun test c h => by
        obtain ⟨-, rfl⟩ : _ ∧ _ = c := by simpa using h
        exact hc)
      fun hs' he => laid_codeOf content hs' (by simp [he])
  | .otherwise l content l', hs, hc =>
    laid_encloseCode hs rfl (fun _ => scan_codeOf _ _ content)
      (by obtain ⟨st, -, he⟩ := hc; simp [he]) (by simp) (by simp)
      fun hs' he => laid_codeOf content hs' (by simp [he])

theorem laid_codeOf {start : NodeId} : ∀ ss : List Statement, Sits code start (codeOf start ss) →
    enclosing code start ≠ [] → Laid code start (codeOf start ss)
  | [], _, _ => by simp [codeOf, Laid]
  | s :: ss, hs, hne => by
    simp only [codeOf] at hs ⊢
    obtain ⟨hfirst, hrest⟩ := hs.append
    refine (Statement.laid s hfirst hne).append (laid_codeOf ss hrest ?_)
    rwa [enclosing_of_sits hfirst, Statement.scan_code]

theorem laid_branchesCode {choice start : NodeId} : ∀ bs : List Branch,
    Sits code start (branchesCode choice start bs) →
    (∃ st, OpensIn code choice st ∧ enclosing code start = choice :: st) →
    Laid code start (branchesCode choice start bs)
  | [], _, _ => by simp [branchesCode, Laid]
  | b :: bs, hs, hc => by
    simp only [branchesCode] at hs ⊢
    obtain ⟨hfirst, hrest⟩ := hs.append
    refine (Branch.laid b hfirst hc).append (laid_branchesCode bs hrest ?_)
    rwa [enclosing_of_sits hfirst, Branch.scan_code]

end

/-- A body that is laid out where no content is open is lawful throughout. -/
theorem Body.laid (b : Body) (hs : Sits code start (b.code start))
    (h : enclosing code start = []) : Laid code start (b.code start) :=
  laid_encloseCode hs rfl (fun _ => scan_codeOf _ _ b.statements) (by simp [h]) (by simp) (by simp)
    fun hs' he => laid_codeOf b.statements hs' (by simp [he])

theorem Body.scan_code (st : List NodeId) (b : Body) : scan st start (b.code start) = st :=
  scan_encloseCode b.opening b.closing (scan_codeOf _ _ b.statements)

end

/-! ## Whole code -/

/-- Code in which every content ends. -/
structure WellNested (code : Array Node) : Prop where
  lawful : ∀ (i : NodeId) (n : Node), code[i]? = some n → n.Lawful code i
  ended : enclosing code code.size = []

/-- A body starts at the position. -/
def StartsBody (code : Array Node) (i : NodeId) : Prop :=
  ∃ n, code[i]? = some n ∧ n.instruction = .body

/-- A body lies in no content. -/
theorem StartsBody.enclosing_eq_nil {code : Array Node} {i : NodeId} (h : StartsBody code i)
    (hw : WellNested code) : enclosing code i = [] := by
  obtain ⟨n, hn, hbody⟩ := h
  exact (hw.lawful i n hn).body.mp hbody

theorem wellNested_empty : WellNested #[] := ⟨by simp, rfl⟩

section
variable {code : Array Node} {i : NodeId}

/-- Content lies inside the code. -/
theorem WellNested.lt_size (h : WellNested code) (hi : enclosing code i ≠ []) :
    i < code.size := by
  refine Nat.lt_of_not_le fun hle => hi ?_
  have hsize : enclosing code i = enclosing code code.size := by
    rw [enclosing, enclosing, List.take_of_length_le (by simpa using hle),
      List.take_of_length_le (by simp)]
  rw [hsize, h.ended]

theorem enclosing_append {ns : List Node} (hi : i ≤ code.size) :
    enclosing (code ++ ns) i = enclosing code i := by
  rw [enclosing, enclosing, Array.toList_appendList,
    List.take_append_of_le_length (by simpa using hi)]

theorem getElem?_appendList (ns : List Node) :
    (code ++ ns)[i]? = (code.toList ++ ns)[i]? := by
  rw [← Array.getElem?_toList, Array.toList_appendList]

theorem getElem?_append_of_lt {ns : List Node} (h : i < code.size) :
    (code ++ ns)[i]? = code[i]? := by
  rw [getElem?_appendList, List.getElem?_append_left (by simpa using h), Array.getElem?_toList]

theorem getElem?_append_of_some {ns : List Node} {n : Node} (h : code[i]? = some n) :
    (code ++ ns)[i]? = some n := by
  rw [getElem?_append_of_lt (Array.getElem?_eq_some_iff.mp h).1, h]

theorem getElem?_append_of_le {ns : List Node} (h : code.size ≤ i) :
    (code ++ ns)[i]? = ns[i - code.size]? := by
  rw [getElem?_appendList, List.getElem?_append_right (by simpa using h), Array.length_toList]

/-- What is appended stands after the code so far. -/
theorem sits_append (code : Array Node) (ns : List Node) : Sits (code ++ ns) code.size ns := by
  intro i n hn
  rwa [getElem?_append_of_le (Nat.le_add_right _ _), Nat.add_sub_cancel_left]

theorem OpensIn.append {ns : List Node} {st : List NodeId} (h : OpensIn code i st) :
    OpensIn (code ++ ns) i st := by
  obtain ⟨n, c, hn, hc, hb, he⟩ := h
  have hi := (Array.getElem?_eq_some_iff.mp hn).1
  exact ⟨n, c, getElem?_append_of_some hn, hc, hb, (enclosing_append (Nat.le_of_lt hi)).trans he⟩

theorem StartsBody.append {ns : List Node} (h : StartsBody code i) : StartsBody (code ++ ns) i := by
  obtain ⟨n, hn, hb⟩ := h
  exact ⟨n, getElem?_append_of_some hn, hb⟩

theorem Node.Lawful.append {ns : List Node} {n : Node} (hw : WellNested code)
    (hn : code[i]? = some n) (h : n.Lawful code i) : n.Lawful (code ++ ns) i := by
  have hi := Nat.le_of_lt (Array.getElem?_eq_some_iff.mp hn).1
  refine ⟨h.isOpening, fun c hc => ?_, fun b hb => ?_, ?_, fun test a ha => ?_, fun test c hc => ?_⟩
  · obtain ⟨hclose, m, hm, hb⟩ := h.close c hc
    have hc := hw.lt_size (i := c) (by simp [hclose])
    rw [enclosing_append (Nat.le_of_lt hc), enclosing_append hi]
    exact ⟨hclose, m, getElem?_append_of_some hm, hb⟩
  · obtain ⟨m, hm, hc⟩ := h.closing b hb
    exact ⟨m, getElem?_append_of_some hm, hc⟩
  · rw [enclosing_append hi]
    exact h.body
  · rw [enclosing_append hi]
    exact (h.alternative test a ha).append
  · rw [enclosing_append hi]
    obtain ⟨st, ho, he⟩ := h.choice test c hc
    exact ⟨st, ho.append, he⟩

/-- Laying a body out after well-nested code keeps it so. -/
theorem WellNested.layOut (h : WellNested code) (b : Body) :
    WellNested (code ++ b.code code.size) ∧ StartsBody (code ++ b.code code.size) code.size := by
  have hsits := sits_append code (b.code code.size)
  have hstart : enclosing (code ++ b.code code.size) code.size = [] := by
    rw [enclosing_append (Nat.le_refl _), h.ended]
  refine ⟨⟨fun i n hn => ?_, ?_⟩, _, hsits.head, rfl⟩
  · by_cases hi : i < code.size
    · rw [getElem?_append_of_lt hi] at hn
      exact (h.lawful i n hn).append h hn
    · rw [getElem?_append_of_le (Nat.le_of_not_lt hi)] at hn
      have hl := b.laid hsits hstart _ n hn
      rwa [Nat.add_sub_cancel' (Nat.le_of_not_lt hi)] at hl
  · have hsize : (code ++ b.code code.size).size = code.size + (b.code code.size).length := by
      rw [← Array.length_toList, Array.toList_appendList, List.length_append, Array.length_toList]
    rw [hsize, enclosing_of_sits hsits, hstart, b.scan_code]

end

end StreamTransform
