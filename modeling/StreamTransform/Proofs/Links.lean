import Mathlib.Data.List.Forall2
import Mathlib.Data.List.Induction
import StreamTransform.Proofs.BodyWriting

/-!
# Links

The nodes that follow each other from the start of a body on are the code of its tree. A node that is
linked to the start of others leads on to them. Along the links all bodies are laid out as their
trees are, one after the other, whatever their nodes are numbered.
-/

namespace StreamTransform

/-! ## Code at another position -/

/-- So many nodes from a position on get the numbers from another position on. -/
def Shifts (f : NodeId → NodeId) (start start' k : Nat) : Prop :=
  ∀ j < k, f (start + j) = start' + j

section
variable {f : NodeId → NodeId} {start start' k k' : Nat}

theorem Shifts.left (h : Shifts f start start' (k + k')) : Shifts f start start' k :=
  fun j hj => h j (Nat.lt_of_lt_of_le hj (Nat.le_add_right k k'))

theorem Shifts.right (h : Shifts f start start' (k + k')) :
    Shifts f (start + k) (start' + k) k' := fun j hj => by
  rw [Nat.add_assoc, Nat.add_assoc]
  exact h (k + j) (Nat.add_lt_add_left hj k)

theorem Shifts.head (h : Shifts f start start' (k + 1)) : f start = start' := h 0 k.succ_pos

theorem Shifts.inner (h : Shifts f start start' (k + 2)) : Shifts f (start + 1) (start' + 1) k := by
  rw [Nat.add_comm k 2, Nat.add_assoc 1 1 k] at h
  have hinner := h.right
  rw [Nat.add_comm 1 k] at hinner
  exact hinner.left

/-- Code with content gets other numbers if its content does. -/
theorem renumber_encloseCode {i i' : Instruction} {l l' : Location} {content content' : List Node}
    (h : Shifts f start start' (content.length + 2)) (hi : i.renumber f = i')
    (hcontent : Shifts f (start + 1) (start' + 1) content.length →
      content.map (Node.renumber f) = content') :
    (encloseCode start i l content l').map (Node.renumber f) =
      encloseCode start' i' l content' l' := by
  obtain rfl := hi
  obtain rfl := hcontent h.inner
  have hclose : f (start + 1 + content.length) = start' + 1 + content.length := by
    rw [Nat.add_assoc, Nat.add_assoc, Nat.add_comm 1]
    exact h _ (Nat.lt_succ_self _)
  have hstart : f start = start' := h.head
  simp [encloseCode, Node.renumber, Instruction.renumber, hstart, hclose]

end

mutual

theorem Statement.renumber_code {f : NodeId → NodeId} {start start' : Nat} :
    ∀ s : Statement, Shifts f start start' (s.code start).length →
      (s.code start).map (Node.renumber f) = s.code start'
  | .act l a, _ => rfl
  | .enclose l c content l', h => by
    simp only [Statement.code, length_encloseCode] at h ⊢
    exact renumber_encloseCode h rfl (renumber_codeOf content)
  | .condition l test yes l', h => by
    simp only [Statement.code, length_encloseCode] at h ⊢
    exact renumber_encloseCode h rfl (renumber_codeOf yes)
  | .either l test yes between no l', h => by
    simp only [Statement.code, List.length_append, length_encloseCode] at h ⊢
    have hlength := congrArg List.length (renumber_codeOf yes h.left.inner)
    rw [List.length_map] at hlength
    have hno : Shifts f (start + (codeOf (start + 1) yes).length + 2)
        (start' + (codeOf (start' + 1) yes).length + 2)
        ((codeOf (start + (codeOf (start + 1) yes).length + 2 + 1) no).length + 2) := by
      rw [← hlength]
      exact h.right
    have hcondition : (Instruction.condition test
        (some (start + (codeOf (start + 1) yes).length + 2))).renumber f = .condition test
          (some (start' + (codeOf (start' + 1) yes).length + 2)) :=
      congrArg (fun a => Instruction.condition test (some a)) hno.head
    rw [List.map_append, renumber_encloseCode h.left hcondition (renumber_codeOf yes),
      renumber_encloseCode hno rfl (renumber_codeOf no)]
    rfl
  | .choose l branches l', h => by
    simp only [Statement.code, length_encloseCode] at h ⊢
    exact renumber_encloseCode h rfl (renumber_branchesCode branches h.head)

theorem Branch.renumber_code {f : NodeId → NodeId} {choice choice' start start' : Nat} :
    ∀ b : Branch, f choice = choice' → Shifts f start start' (b.code choice start).length →
      (b.code choice start).map (Node.renumber f) = b.code choice' start'
  | .when l test content l', hc, h => by
    simp only [Branch.code, length_encloseCode] at h ⊢
    exact renumber_encloseCode h (congrArg _ hc) (renumber_codeOf content)
  | .otherwise l content l', _, h => by
    simp only [Branch.code, length_encloseCode] at h ⊢
    exact renumber_encloseCode h rfl (renumber_codeOf content)

theorem renumber_codeOf {f : NodeId → NodeId} {start start' : Nat} :
    ∀ ss : List Statement, Shifts f start start' (codeOf start ss).length →
      (codeOf start ss).map (Node.renumber f) = codeOf start' ss
  | [], _ => rfl
  | s :: ss, h => by
    simp only [codeOf, List.length_append] at h ⊢
    have hs := s.renumber_code h.left
    have hlength := congrArg List.length hs
    rw [List.length_map] at hlength
    rw [List.map_append, hs, renumber_codeOf ss h.right, hlength]

theorem renumber_branchesCode {f : NodeId → NodeId} {choice choice' start start' : Nat} :
    ∀ bs : List Branch, f choice = choice' →
      Shifts f start start' (branchesCode choice start bs).length →
      (branchesCode choice start bs).map (Node.renumber f) = branchesCode choice' start' bs
  | [], _, _ => rfl
  | b :: bs, hc, h => by
    simp only [branchesCode, List.length_append] at h ⊢
    have hb := b.renumber_code hc h.left
    have hlength := congrArg List.length hb
    rw [List.length_map] at hlength
    rw [List.map_append, hb, renumber_branchesCode bs hc h.right, hlength]

end

theorem Body.renumber_code {f : NodeId → NodeId} {start start' : Nat} (b : Body)
    (h : Shifts f start start' (b.code start).length) :
    (b.code start).map (Node.renumber f) = b.code start' := by
  simp only [Body.code, length_encloseCode] at h ⊢
  exact renumber_encloseCode h rfl (renumber_codeOf b.statements)

theorem Body.length_code (b : Body) (start start' : Nat) :
    (b.code start).length = (b.code start').length := by
  have hcode : (b.code start).map (Node.renumber fun i => start' + (i - start)) = b.code start' :=
    b.renumber_code fun j _ => congrArg (start' + ·) (Nat.add_sub_cancel_left start j)
  rw [← hcode, List.length_map]

theorem Node.renumber_renumber (f f' : NodeId → NodeId) (n : Node) :
    (n.renumber f).renumber f' = n.renumber (f' ∘ f) := by
  obtain ⟨i, l, close⟩ := n
  cases i <;> simp [Node.renumber, Instruction.renumber]

/-! ## What follows -/

/-- These nodes follow each other, and none follows the last one. -/
inductive Follows (nodes : Array LinkedNode) : List NodeId → Prop
  | last {i : NodeId} {n : LinkedNode} : nodes[i]? = some n → n.next = none → Follows nodes [i]
  | step {i j : NodeId} {n : LinkedNode} {is : List NodeId} : nodes[i]? = some n →
      n.next = some j → Follows nodes (j :: is) → Follows nodes (i :: j :: is)

section
variable {nodes nodes' : Array LinkedNode} {is : List NodeId}

theorem Follows.congr (h : Follows nodes is) (hsame : ∀ i ∈ is, nodes'[i]? = nodes[i]?) :
    Follows nodes' is := by
  induction h with
  | last hn hnext => exact .last ((hsame _ List.mem_cons_self).trans hn) hnext
  | step hn hnext _ ih =>
    exact .step ((hsame _ List.mem_cons_self).trans hn) hnext
      (ih fun i hi => hsame i (List.mem_cons_of_mem _ hi))

/-- What follows a node is found along the links. -/
theorem Follows.follow (h : Follows nodes is) {k : Nat} (hk : is.length ≤ k) :
    follow nodes k is.head? = is := by
  induction h generalizing k with
  | last hn hnext =>
    cases k with
    | zero => exact absurd hk (Nat.not_succ_le_zero _)
    | succ k =>
      simp only [List.head?_cons, StreamTransform.follow, hn, hnext]
      cases k <;> rfl
  | step hn hnext _ ih =>
    cases k with
    | zero => exact absurd hk (Nat.not_succ_le_zero _)
    | succ k =>
      have hrest := ih (Nat.le_of_succ_le_succ hk)
      rw [List.head?_cons] at hrest
      simp only [List.head?_cons, StreamTransform.follow, hn, hnext, hrest]

/-- A node is linked to the next one in the list. -/
theorem Follows.next_eq (h : Follows nodes is) {k : Nat} {i : NodeId} {n : LinkedNode}
    (hi : is[k]? = some i) (hn : nodes[i]? = some n) : n.next = is[k + 1]? := by
  induction h generalizing k with
  | @last j m hm hnext =>
    cases k with
    | zero =>
      obtain rfl := Option.some.inj hi
      obtain rfl := Option.some.inj (hm.symm.trans hn)
      exact hnext
    | succ k => cases hi
  | @step j j' m is hm hnext _ ih =>
    cases k with
    | zero =>
      obtain rfl := Option.some.inj hi
      obtain rfl := Option.some.inj (hm.symm.trans hn)
      exact hnext
    | succ k => exact ih hi

theorem Follows.lt_size (h : Follows nodes is) : ∀ i ∈ is, i < nodes.size := by
  induction h with
  | last hn _ => exact List.forall_mem_singleton.mpr (Array.getElem?_eq_some_iff.mp hn).1
  | step hn _ _ ih => exact List.forall_mem_cons.mpr ⟨(Array.getElem?_eq_some_iff.mp hn).1, ih⟩

/-- When the last node is linked to the first one of others, these follow too. -/
theorem Follows.join {j last : NodeId} {js : List NodeId} (h : Follows nodes is)
    (hj : Follows nodes (j :: js)) (hlast : is.getLast? = some last)
    (hnodup : (is ++ j :: js).Nodup) :
    Follows (nodes.modify last fun n => { n with next := some j }) (is ++ j :: js) := by
  induction h with
  | @last i n hn hnext =>
    obtain rfl : i = last := Option.some.inj hlast
    have hnode : (nodes.modify i fun n => { n with next := some j })[i]? =
        some { n with next := some j } := by
      rw [Array.getElem?_modify, if_pos rfl, hn]
      rfl
    refine .step hnode rfl (hj.congr fun k hk => ?_)
    rw [Array.getElem?_modify, if_neg]
    rintro rfl
    exact (List.nodup_cons.mp hnodup).1 hk
  | @step i k n is hn hnext _ ih =>
    have hrest := ih (by simpa using hlast) (List.nodup_cons.mp hnodup).2
    refine .step ?_ hnext hrest
    rw [Array.getElem?_modify, if_neg]
    · exact hn
    · rintro rfl
      have hmem : last ∈ k :: is := List.mem_of_getLast? (by simpa using hlast)
      exact (List.nodup_cons.mp hnodup).1 (List.mem_append_left _ hmem)

end

/-- Nodes that stand one after the other follow each other if their links say so. -/
theorem follows_range {nodes : Array LinkedNode} {start k : Nat} (h : ∀ j ≤ k, ∃ n,
    nodes[start + j]? = some n ∧ n.next = if j < k then some (start + j + 1) else none) :
    Follows nodes (List.range' start (k + 1)) := by
  induction k generalizing start with
  | zero =>
    obtain ⟨n, hn, hnext⟩ := h 0 (Nat.le_refl 0)
    exact .last hn hnext
  | succ k ih =>
    obtain ⟨n, hn, hnext⟩ := h 0 (Nat.zero_le _)
    refine .step hn hnext (ih fun j hj => ?_)
    obtain ⟨n, hn, hnext⟩ := h (j + 1) (Nat.succ_le_succ hj)
    rw [← Nat.add_assoc, Nat.add_right_comm] at hn
    rw [← Nat.add_assoc, Nat.add_right_comm start] at hnext
    simp only [Nat.add_lt_add_iff_right] at hnext
    exact ⟨n, hn, hnext⟩

/-! ## Linked bodies -/

/-- The node is there, whatever follows it. -/
def HasNode (nodes : Array LinkedNode) (i : NodeId) (n : Node) : Prop :=
  nodes[i]?.map LinkedNode.toNode = some n

theorem filterMap_hasNode {nodes : Array LinkedNode} {is : List NodeId} {ns : List Node}
    (h : List.Forall₂ (HasNode nodes) is ns) (f : Node → Node) :
    is.filterMap (fun i => nodes[i]?.map fun n => f n.toNode) = ns.map f := by
  induction h with
  | nil => rfl
  | cons hi _ ih =>
    obtain ⟨n, hn, rfl⟩ := Option.map_eq_some_iff.mp hi
    rw [List.filterMap_cons_some (by rw [hn]; rfl), ih, List.map_cons]

/-- The nodes of a body along the links, and the tree that they are the code of. -/
structure LinkedBody where
  ids : List NodeId
  body : Body

namespace LinkedBody

/-- The nodes follow each other, and are the code of the tree but for their numbers. -/
structure Stands (nodes : Array LinkedNode) (c : LinkedBody) : Prop where
  follows : Follows nodes c.ids
  code : List.Forall₂ (HasNode nodes) c.ids
    ((c.body.code 0).map (Node.renumber fun j => c.ids.getD j 0))

theorem Stands.congr {nodes nodes' : Array LinkedNode} {c : LinkedBody} (h : c.Stands nodes)
    (hsame : ∀ i ∈ c.ids, nodes'[i]? = nodes[i]?) : c.Stands nodes' where
  follows := h.follows.congr hsame
  code := by
    refine ((List.forall₂_and_left _ _).mpr ⟨hsame, h.code⟩).imp fun i n hi => ?_
    rw [HasNode, hi.1]
    exact hi.2

theorem Stands.length_eq {nodes : Array LinkedNode} {c : LinkedBody} (h : c.Stands nodes) (start : Nat) :
    c.ids.length = (c.body.code start).length := by
  have hlength := h.code.length_eq
  rwa [List.length_map, c.body.length_code 0 start] at hlength

end LinkedBody

/-- The nodes of bodies along their links. -/
def ordered (cs : List LinkedBody) : List NodeId := cs.flatMap LinkedBody.ids

/-- The code of bodies, one after the other. -/
def codeOfAll (cs : List LinkedBody) : List Node :=
  cs.foldl (fun code c => code ++ c.body.code code.length) []

section
variable {nodes : Array LinkedNode} {cs : List LinkedBody} {c : LinkedBody} {order : List NodeId}

theorem ordered_concat : ordered (cs ++ [c]) = ordered cs ++ c.ids := by simp [ordered]

theorem codeOfAll_concat :
    codeOfAll (cs ++ [c]) = codeOfAll cs ++ c.body.code (codeOfAll cs).length := by
  simp [codeOfAll]

/-- The code of one body among others stands behind that of the ones before. -/
theorem codeOfAll_split (before after : List LinkedBody) (c : LinkedBody) : ∃ rest,
    codeOfAll (before ++ c :: after) =
      codeOfAll before ++ c.body.code (codeOfAll before).length ++ rest := by
  induction after using List.reverseRecOn with
  | nil => exact ⟨[], by rw [codeOfAll_concat, List.append_nil]⟩
  | append_singleton after c' ih =>
    obtain ⟨rest, hrest⟩ := ih
    rw [← List.cons_append, ← List.append_assoc, codeOfAll_concat, hrest]
    exact ⟨_, List.append_assoc ..⟩

theorem length_codeOfAll (h : ∀ c ∈ cs, c.Stands nodes) :
    (codeOfAll cs).length = (ordered cs).length := by
  induction cs using List.reverseRecOn with
  | nil => rfl
  | append_singleton cs c ih =>
    obtain ⟨hcs, hc⟩ := List.forall_mem_append.mp h
    rw [codeOfAll_concat, ordered_concat, List.length_append, List.length_append, ih hcs,
      ← (hc c List.mem_cons_self).length_eq]

/-- The nodes of a body have consecutive places. -/
theorem place_ids {before ids after : List NodeId} (hnodup : (before ++ ids ++ after).Nodup)
    {j : Nat} (hj : j < ids.length) :
    (before ++ ids ++ after).idxOf (ids.getD j 0) = before.length + j := by
  have hget : (before ++ ids ++ after)[before.length + j]? = some (ids.getD j 0) := by
    rw [List.append_assoc, List.getElem?_append_right (Nat.le_add_right _ _),
      Nat.add_sub_cancel_left, List.getElem?_append_left hj, List.getD_eq_getElem?_getD,
      List.getElem?_eq_getElem hj]
    rfl
  obtain ⟨hlt, hget⟩ := List.getElem?_eq_some_iff.mp hget
  rw [← hget]
  exact hnodup.idxOf_getElem _ hlt

/-- Laid out along the links, a body is the code of its tree. -/
theorem LinkedBody.Stands.laidOut (h : c.Stands nodes) {before after : List NodeId}
    (hnodup : (before ++ c.ids ++ after).Nodup) :
    c.ids.filterMap (fun i => nodes[i]?.map fun n =>
      n.renumber fun i => (before ++ c.ids ++ after).idxOf i) = c.body.code before.length := by
  have hshifts : Shifts ((fun i => (before ++ c.ids ++ after).idxOf i) ∘ fun j => c.ids.getD j 0) 0
      before.length (c.body.code 0).length := by
    intro j hj
    rw [Nat.zero_add]
    exact place_ids hnodup (h.length_eq 0 ▸ hj)
  have hcode := filterMap_hasNode h.code (Node.renumber fun i => (before ++ c.ids ++ after).idxOf i)
  rw [hcode, List.map_map, ← c.body.renumber_code hshifts]
  exact List.map_congr_left fun n _ => n.renumber_renumber _ _

/-- Laid out along the links, bodies are the code of their trees. -/
theorem filterMap_ordered (h : ∀ c ∈ cs, c.Stands nodes) {after : List NodeId}
    (hnodup : (ordered cs ++ after).Nodup) :
    (ordered cs).filterMap (fun i => nodes[i]?.map fun n =>
      n.renumber fun i => (ordered cs ++ after).idxOf i) = codeOfAll cs := by
  induction cs using List.reverseRecOn generalizing after with
  | nil => rfl
  | append_singleton cs c ih =>
    obtain ⟨hcs, hc⟩ := List.forall_mem_append.mp h
    have hstands := hc c List.mem_cons_self
    rw [ordered_concat] at hnodup ⊢
    have hfirst := ih hcs (List.append_assoc .. ▸ hnodup)
    rw [← List.append_assoc] at hfirst
    rw [codeOfAll_concat, List.filterMap_append, hfirst, hstands.laidOut hnodup,
      length_codeOfAll hcs]

/-- Followed from their starts, bodies are found in the order in which they were added. -/
theorem linkOrder_eq (h : ∀ c ∈ cs, c.Stands nodes)
    (hstarts : bodyStarts nodes = cs.filterMap fun c => c.ids.head?)
    (hwhole : (ordered cs).Perm (List.range nodes.size)) : linkOrder nodes = ordered cs := by
  have hlength : ∀ c ∈ cs, c.ids.length ≤ nodes.size := by
    intro c hc
    have hle := (List.sublist_flatten_of_mem (List.mem_map_of_mem (f := LinkedBody.ids) hc)).length_le
    rwa [← List.flatMap_def, ← ordered, hwhole.length_eq, List.length_range] at hle
  rw [linkOrder, hstarts, ordered]
  clear hstarts hwhole
  induction cs with
  | nil => rfl
  | cons c cs ih =>
    obtain ⟨hc, hcs⟩ := List.forall_mem_cons.mp h
    obtain ⟨hlength, hlengths⟩ := List.forall_mem_cons.mp hlength
    have hfollow := hc.follows.follow hlength
    have hrest := ih hcs hlengths
    rw [List.flatMap_cons, ← hrest]
    cases hids : c.ids with
    | nil => cases hids ▸ hc.follows
    | cons b is =>
      rw [hids, List.head?_cons] at hfollow
      rw [List.filterMap_cons_some (by rw [hids]; rfl), List.flatMap_cons, hfollow]

end

/-! ## Starts of bodies -/

section
variable {nodes nodes' : Array LinkedNode}

/-- Links do not tell where bodies start. -/
theorem bodyStarts_congr
    (h : nodes'.map LinkedNode.toNode = nodes.map LinkedNode.toNode) :
    bodyStarts nodes' = bodyStarts nodes := by
  have hstarts (nodes : Array LinkedNode) : bodyStarts nodes =
      (List.range (nodes.map LinkedNode.toNode).size).filter fun i =>
        (nodes.map LinkedNode.toNode)[i]?.any Node.startsBody := by
    simp only [bodyStarts, Array.size_map, Array.getElem?_map, Option.any_map]
  rw [hstarts, hstarts, h]

theorem bodyStarts_push (n : LinkedNode) : bodyStarts (nodes.push n) =
    bodyStarts nodes ++ if n.startsBody then [nodes.size] else [] := by
  have hold : (List.range nodes.size).filter (fun i => (nodes.push n)[i]?.any fun n => n.startsBody) =
      bodyStarts nodes := by
    refine List.filter_congr fun i hi => ?_
    rw [Array.getElem?_push, if_neg (Nat.ne_of_lt (List.mem_range.mp hi))]
  rw [bodyStarts, Array.size_push, List.range_succ, List.filter_append, hold, List.filter_singleton,
    Array.getElem?_push, if_pos rfl, Option.any_some, cond_eq_ite]

theorem bodyStarts_append (ns : List LinkedNode) (h : ∀ n ∈ ns, n.startsBody = false) :
    bodyStarts (nodes ++ ns) = bodyStarts nodes := by
  induction ns generalizing nodes with
  | nil => rw [Array.appendList_nil]
  | cons n ns ih =>
    obtain ⟨hn, hns⟩ := List.forall_mem_cons.mp h
    rw [Array.appendList_cons, ih hns, bodyStarts_push, hn]
    exact List.append_nil _

end

/-! ## Bodies of new nodes -/

theorem Node.startsBody_eq_false {n : Node} (h : n.instruction ≠ .body) : n.startsBody = false := by
  unfold Node.startsBody
  split
  next hbody => exact absurd hbody h
  next => rfl

theorem chained_cons (start : Nat) (n : Node) (ns : List Node) : chained start (n :: ns) =
    ⟨n, if 0 < ns.length then some (start + 1) else none⟩ :: chained (start + 1) ns := by
  simp only [chained, List.mapIdx_cons, List.length_cons, Nat.add_lt_add_iff_right, Nat.zero_add,
    Nat.add_assoc, Nat.add_comm 1]

theorem inside_chained {start : Nat} {ns : List Node} (h : Inside ns) :
    ∀ n ∈ chained start ns, n.startsBody = false := by
  intro n hn
  obtain ⟨k, hk⟩ := List.getElem?_of_mem hn
  rw [getElem?_chained] at hk
  obtain ⟨m, hm, rfl⟩ := Option.map_eq_some_iff.mp hk
  exact Node.startsBody_eq_false (h m (List.mem_of_getElem? hm))

theorem hasNode_range {nodes : Array LinkedNode} {start : Nat} {ns : List Node}
    (h : ∀ (j : Nat) (n : Node), ns[j]? = some n → HasNode nodes (start + j) n) :
    List.Forall₂ (HasNode nodes) (List.range' start ns.length) ns := by
  induction ns generalizing start with
  | nil => exact .nil
  | cons n ns ih =>
    refine .cons (h 0 n rfl) (ih fun j m hm => ?_)
    rw [Nat.add_assoc, Nat.add_comm 1]
    exact h (j + 1) m hm

section
variable {nodes : Array LinkedNode} {body : Body}

theorem getElem?_appendChained {ns : List Node} {j : Nat} {n : Node} (h : ns[j]? = some n) :
    (nodes ++ chained nodes.size ns)[nodes.size + j]? =
      some ⟨n, if j + 1 < ns.length then some (nodes.size + j + 1) else none⟩ := by
  rw [getElem?_appendList_right, getElem?_chained, h]
  rfl

/-- Nodes that were added one after the other are a body. -/
theorem stands_chained : LinkedBody.Stands (nodes ++ chained nodes.size (body.code nodes.size))
    ⟨List.range' nodes.size (body.code nodes.size).length, body⟩ := by
  constructor
  case follows =>
    have hlength : (body.code nodes.size).length =
        (codeOf (nodes.size + 1) body.statements).length + 1 + 1 := length_encloseCode _ _ _ _ _
    rw [hlength]
    refine follows_range fun j hj => ?_
    have hlt : j < (body.code nodes.size).length := by
      rw [hlength]
      exact Nat.lt_succ_of_le hj
    refine ⟨_, getElem?_appendChained (List.getElem?_eq_getElem hlt), ?_⟩
    rw [hlength]
    simp only [Nat.add_lt_add_iff_right]
  case code =>
    have hshifts : Shifts (fun j => (List.range' nodes.size (body.code nodes.size).length).getD j 0)
        0 nodes.size (body.code 0).length := by
      intro j hj
      rw [body.length_code 0 nodes.size] at hj
      simp [List.getD_eq_getElem?_getD, hj]
    rw [body.renumber_code hshifts]
    refine hasNode_range fun j n hn => ?_
    rw [HasNode, getElem?_appendChained hn]
    rfl

theorem bodyStarts_chained : bodyStarts (nodes ++ chained nodes.size (body.code nodes.size)) =
    bodyStarts nodes ++ [nodes.size] := by
  have hinside : Inside (codeOf (nodes.size + 1) body.statements ++
      [⟨.closing nodes.size, body.closing, none⟩]) :=
    inside_append (inside_codeOf _ _) (inside_closing _ _)
  rw [Body.code, encloseCode, List.cons_append, chained_cons, Array.appendList_cons,
    bodyStarts_append _ (inside_chained hinside), bodyStarts_push]
  rfl

end

end StreamTransform
