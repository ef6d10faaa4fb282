import StreamTransform.Proofs.Drafts

/-!
# Bodies written call by call

A body that is written command by command is the code of the tree that its commands are resolved to,
with each node linked to the one behind it. The nodes of a body are added one after the other, so
they stand where the tree would be laid out.
-/

namespace StreamTransform

/-- Nodes that are to stand from a position on, each linked to the one behind it. -/
def chained (start : Nat) (ns : List Node) : List LinkedNode :=
  ns.mapIdx fun k n => ⟨n, if k + 1 < ns.length then some (start + k + 1) else none⟩

section
variable {start : Nat} {ns : List Node} {n : Node} {k : Nat}

@[simp] theorem length_chained : (chained start ns).length = ns.length := List.length_mapIdx

theorem getElem?_chained : (chained start ns)[k]? =
    ns[k]?.map fun n => ⟨n, if k + 1 < ns.length then some (start + k + 1) else none⟩ :=
  List.getElem?_mapIdx

/-- One more node follows the last one. -/
theorem chained_concat (h : ns ≠ []) : chained start (ns ++ [n]) =
    (chained start ns ++ [LinkedNode.mk n none]).modify (ns.length - 1) fun x =>
      { x with next := some (start + ns.length) } := by
  have hlength := List.length_pos_iff.mpr h
  refine List.ext_getElem? fun k => ?_
  rw [List.getElem?_modify, getElem?_chained, List.length_append, List.length_singleton]
  rcases Nat.lt_trichotomy k ns.length with hk | rfl | hk
  · rw [List.getElem?_append_left hk, List.getElem?_append_left (by simpa using hk),
      getElem?_chained, List.getElem?_eq_getElem hk, if_pos (Nat.succ_lt_succ hk)]
    by_cases hlast : k + 1 < ns.length
    · simp [hlast, show ns.length - 1 ≠ k by omega]
    · simp [hlast, show ns.length - 1 = k by omega, show start + k + 1 = start + ns.length by omega]
  · simp [show ns.length - 1 ≠ ns.length by omega]
  · rw [List.getElem?_eq_none (by simp; omega), List.getElem?_eq_none (by simp; omega)]
    rfl

/-- A change of a node that leaves its link alone. -/
theorem chained_modify (f : Node → Node) (k : Nat) : chained start (ns.modify k f) =
    (chained start ns).modify k fun x => ⟨f x.toNode, x.next⟩ := by
  refine List.ext_getElem? fun j => ?_
  rw [List.getElem?_modify, getElem?_chained, getElem?_chained, List.length_modify,
    List.getElem?_modify]
  cases ns[j]? with
  | none => rfl
  | some n =>
    simp only [Option.map_some, Option.map_eq_map]
    split <;> rfl

end

/-- A change behind the first nodes. -/
theorem modify_append {α : Type} (xs ys : List α) (k : Nat) (f : α → α) :
    (xs ++ ys).modify (xs.length + k) f = xs ++ ys.modify k f := by
  induction xs with
  | nil => rw [List.nil_append, List.length_nil, Nat.zero_add, List.nil_append]
  | cons x xs ih =>
    rw [List.length_cons, Nat.add_right_comm, List.cons_append, List.modify_succ_cons, ih,
      List.cons_append]

theorem modify_append_cons {α : Type} (xs ys : List α) (y : α) (f : α → α) :
    (xs ++ y :: ys).modify xs.length f = xs ++ f y :: ys := modify_append xs (y :: ys) 0 f

theorem modify_appendList {α : Type} (xs : Array α) (ys : List α) (k : Nat) (f : α → α) :
    (xs ++ ys).modify (xs.size + k) f = xs ++ ys.modify k f := by
  refine Array.ext' ?_
  rw [Array.toList_modify, Array.toList_appendList, Array.toList_appendList, ← Array.length_toList,
    modify_append]

theorem push_appendList {α : Type} (xs : Array α) (ys : List α) (y : α) :
    (xs ++ ys).push y = xs ++ (ys ++ [y]) := by
  refine Array.ext' ?_
  rw [Array.toList_push, Array.toList_appendList, Array.toList_appendList, List.append_assoc]

theorem getElem?_appendList_left {α : Type} {as : Array α} {bs : List α} {i : Nat}
    (h : i < as.size) : (as ++ bs)[i]? = as[i]? := by
  rw [← Array.getElem?_toList, Array.toList_appendList,
    List.getElem?_append_left (by simpa using h), Array.getElem?_toList]

theorem getElem?_appendList_right {α : Type} (as : Array α) (bs : List α) (i : Nat) :
    (as ++ bs)[as.size + i]? = bs[i]? := by
  rw [← Array.getElem?_toList, Array.toList_appendList, ← Array.length_toList,
    List.getElem?_append_right (Nat.le_add_right _ _), Nat.add_sub_cancel_left]

theorem size_appendList {α : Type} (xs : Array α) (ys : List α) :
    (xs ++ ys).size = xs.size + ys.length := by
  rw [← Array.length_toList, Array.toList_appendList, List.length_append, Array.length_toList]

namespace Script

/-- A body in the making: so much has been read, and these nodes have been added to a program. -/
def Builder.writing (b : Builder) (r : Reading) (ns : List Node) (scopes : List (List String)) :
    BodyBuilder :=
  ⟨{ b with reading := r, nodes := b.nodes ++ chained b.nodes.size ns },
    b.nodes.size + (ns.length - 1), scopes⟩

section
variable {σ α β : Type} {m : StateM σ α} {k : α → StateM σ β} {s : σ}

theorem run_bind : (m >>= k).run s = (k (m.run s).1).run (m.run s).2 := rfl

theorem run_modify {f : σ → σ} : (modify f : StateM σ PUnit).run s = (⟨⟩, f s) := rfl

theorem run_discard : (discard m).run s = (⟨⟩, (m.run s).2) := rfl

theorem run_pure {a : α} : (pure a : StateM σ α).run s = (a, s) := rfl

end

namespace Write

variable {b : Builder} {r r' : Reading} {ns inner : List Node} {scopes : List (List String)}
  {names : List String} {i : Instruction}

/-- One more node stands behind the others. -/
theorem run_push (h : ns ≠ []) : (push i).run (b.writing r ns scopes) =
    (b.nodes.size + ns.length, b.writing r (ns ++ [⟨i, r.location, none⟩]) scopes) := by
  have hsize : (b.nodes ++ chained b.nodes.size ns).size = b.nodes.size + ns.length := by
    rw [size_appendList, length_chained]
  have hlast : b.nodes.size + ((ns ++ [Node.mk i r.location none]).length - 1) =
      b.nodes.size + ns.length := by
    rw [List.length_append, List.length_singleton, Nat.add_sub_cancel]
  unfold Builder.writing
  rw [hlast, chained_concat h, ← modify_appendList, ← push_appendList, ← hsize]
  rfl

/-- A change of a node that leaves its link alone. -/
theorem run_modifyNode (f' : Node → Node) {f : LinkedNode → LinkedNode}
    (hf : f = fun x => ⟨f' x.toNode, x.next⟩) (k : Nat) :
    (building (Build.modifyNode (b.nodes.size + k) f)).run (b.writing r ns scopes) =
      (⟨⟩, b.writing r (ns.modify k f') scopes) := by
  unfold Builder.writing
  rw [chained_modify, ← hf, List.length_modify, ← modify_appendList]
  rfl

theorem run_enclose (h : ns ≠ []) {content : NodeId → Write Unit}
    (hcontent : (content (b.nodes.size + ns.length)).run
      (b.writing r (ns ++ [⟨i, r.location, none⟩]) ([] :: scopes)) =
        (⟨⟩, b.writing r' (ns ++ [⟨i, r.location, none⟩] ++ inner) (names :: scopes))) :
    (enclose i content).run (b.writing r ns scopes) = (b.nodes.size + ns.length,
      b.writing r' (ns ++ encloseCode (b.nodes.size + ns.length) i r.location inner r'.location)
        scopes) := by
  have hopen : (modify fun w : BodyBuilder => { w with scopes := [] :: w.scopes } : Write Unit).run
      (b.writing r (ns ++ [⟨i, r.location, none⟩]) scopes) =
        (⟨⟩, b.writing r (ns ++ [⟨i, r.location, none⟩]) ([] :: scopes)) := rfl
  have hclose : (modify fun w : BodyBuilder => { w with scopes := w.scopes.tail } : Write Unit).run
      (b.writing r' (ns ++ [⟨i, r.location, none⟩] ++ inner) (names :: scopes)) =
        (⟨⟩, b.writing r' (ns ++ [⟨i, r.location, none⟩] ++ inner) scopes) := rfl
  have hlength : b.nodes.size + (ns ++ [Node.mk i r.location none] ++ inner).length =
      b.nodes.size + ns.length + 1 + inner.length := by
    simp only [List.length_append, List.length_singleton, Nat.add_assoc]
  simp only [enclose, run_bind, run_pure, run_push h, hopen, hcontent, hclose]
  rw [run_push (by simp), Build.setClose, hlength,
    run_modifyNode (fun n => { n with close := _ }) rfl ns.length, List.append_assoc,
    List.append_assoc, List.singleton_append, modify_append_cons]
  rfl

end Write

/-! ## Commands -/

/-- The code of a statement, if there is one. -/
def codeOf? (start : NodeId) : Option Statement → List Node
  | none => []
  | some s => s.code start

theorem codeOf_toList (start : NodeId) (s : Option Statement) (ss : List Statement) :
    codeOf start (s.toList ++ ss) =
      codeOf? start s ++ codeOf (start + (codeOf? start s).length) ss := by
  cases s with
  | none => rfl
  | some s => rfl

/-- Where these names are declared, calls write the code of the statement that is resolved. -/
def Writes (names : List String) (r : Resolve (List String × Option Statement))
    (w : Write Unit) : Prop :=
  ∀ (b : Builder) (x : Reading) (ns : List Node) (scopes : List (List String)), ns ≠ [] →
    w.run (b.writing x ns (names :: scopes)) = (⟨⟩, b.writing (r.run x).2
      (ns ++ codeOf? (b.nodes.size + ns.length) (r.run x).1.2) ((r.run x).1.1 :: scopes))

/-- Where these names are declared, calls write the code of what is resolved, and may declare more. -/
def WritesOut {α : Type} (code : NodeId → α → List Node) (names : List String) (r : Resolve α)
    (w : Write Unit) : Prop :=
  ∀ (b : Builder) (x : Reading) (ns : List Node) (scopes : List (List String)), ns ≠ [] →
    ∃ names', w.run (b.writing x ns (names :: scopes)) = (⟨⟩, b.writing (r.run x).2
      (ns ++ code (b.nodes.size + ns.length) (r.run x).1) (names' :: scopes))

section
variable {α : Type} {names : List String} {w : Write Unit} {r : Resolve α}
  {k : α → Resolve (List String × Option Statement)} {k' : α → Write Unit}
  {content : Resolve (List Statement)}

theorem writes_resolving (r : Resolve α) (h : ∀ a, Writes names (k a) (k' a)) :
    Writes names (r >>= k) (Write.resolving r >>= k') := fun b x ns scopes hne =>
  h (r.run x).1 b (r.run x).2 ns scopes hne

theorem writes_declare (n : String) {k : List String → Resolve (List String × Option Statement)}
    (h : ∀ names, Writes names (k names) w) :
    Writes names (Resolve.declare names n >>= k) (Write.declare n >>= fun _ => w) :=
  fun b _ ns scopes hne => h _ b _ ns scopes hne

theorem writes_act (a : Action) :
    Writes names (do pure (names, some (← Resolve.act a))) (Write.act a) := by
  intro b x ns scopes hne
  rw [Write.act, run_discard, Write.run_push hne]
  rfl

/-- What is enclosed is written behind its start. -/
theorem run_enclosing {content : Resolve α} {code : NodeId → α → List Node}
    {w : NodeId → Write Unit} {b : Builder} {x : Reading} {ns : List Node} (i : Instruction)
    (scopes : List (List String)) (h : WritesOut code [] content (w (b.nodes.size + ns.length)))
    (hne : ns ≠ []) : (discard (Write.enclose i w)).run (b.writing x ns scopes) =
      (⟨⟩, b.writing (content.run x).2 (ns ++ encloseCode (b.nodes.size + ns.length) i x.location
        (code (b.nodes.size + ns.length + 1) (content.run x).1) (content.run x).2.location)
          scopes) := by
  obtain ⟨names', hw⟩ := h b x (ns ++ [⟨i, x.location, none⟩]) scopes (by simp)
  rw [List.length_append, ← Nat.add_assoc] at hw
  rw [run_discard, Write.run_enclose hne hw]
  rfl

theorem writes_contain (c : Container) (h : WritesOut codeOf [] content w) :
    Writes names (do pure (names, some (← Resolve.enclose c content))) (Write.contain c w) := by
  intro b x ns scopes hne
  rw [Write.contain, run_enclosing (.container c) (names :: scopes) h hne]
  rfl

theorem writes_condition (e : Path.Expr) (h : WritesOut codeOf [] content w) :
    Writes names (do
      let opening ← Resolve.location
      let yes ← content
      pure (names, some (.condition opening e yes (← Resolve.location))))
      (discard (Write.enclose (.condition e none) fun _ => w)) := by
  intro b x ns scopes hne
  rw [run_enclosing (.condition e none) (names :: scopes) h hne]
  rfl

theorem writes_choice {content : Resolve (List StreamTransform.Branch)} {w : NodeId → Write Unit}
    (h : ∀ choice, WritesOut (branchesCode choice) [] content (w choice)) :
    Writes names (do
      let opening ← Resolve.location
      let branches ← content
      pure (names, some (.choose opening branches (← Resolve.location))))
      (discard (Write.enclose .choice w)) := by
  intro b x ns scopes hne
  rw [run_enclosing .choice (names :: scopes) (h _) hne]
  rfl

/-- The condition is given its alternative when both contents are written. -/
theorem writes_either (e : Path.Expr) {other : Resolve (List Statement)} {w' : Write Unit}
    (h : WritesOut codeOf [] content w) (h' : WritesOut codeOf [] other w') :
    Writes names (do
      let opening ← Resolve.location
      let yes ← content
      let between ← Resolve.location
      let no ← other
      pure (names, some (.either opening e yes between no (← Resolve.location))))
      (do
        let start ← Write.enclose (.condition e none) fun _ => w
        let alternative ← Write.enclose .alternative fun _ => w'
        Write.building (Build.setAlternative start alternative)) := by
  intro b x ns scopes hne
  obtain ⟨names₁, hw⟩ := h b x (ns ++ [⟨.condition e none, x.location, none⟩]) (names :: scopes)
    (by simp)
  rw [List.length_append, ← Nat.add_assoc] at hw
  let y := (content.run x).2
  let start := b.nodes.size + ns.length
  let yes := codeOf (start + 1) (content.run x).1
  let first := encloseCode start (.condition e none) x.location yes y.location
  obtain ⟨names₂, hw'⟩ := h' b y (ns ++ first ++ [⟨.alternative, y.location, none⟩])
    (names :: scopes) (by simp)
  rw [List.length_append, ← Nat.add_assoc] at hw'
  have halternative : b.nodes.size + (ns ++ first).length = start + yes.length + 2 := by
    rw [List.length_append, length_encloseCode, ← Nat.add_assoc, ← Nat.add_assoc]
  have hfirst : (Write.enclose (.condition e none) fun _ => w).run
      (b.writing x ns (names :: scopes)) = (start, b.writing y (ns ++ first) (names :: scopes)) :=
    Write.run_enclose hne hw
  have hsecond : (Write.enclose .alternative fun _ => w').run
      (b.writing y (ns ++ first) (names :: scopes)) = _ :=
    Write.run_enclose (List.append_ne_nil_of_left_ne_nil hne first) hw'
  rw [halternative] at hsecond
  simp only [run_bind, hfirst, hsecond, Build.setAlternative]
  rw [Write.run_modifyNode (fun n =>
      { n with instruction := n.instruction.withAlternative (start + yes.length + 2) }) rfl ns.length,
    List.append_assoc, show first = _ :: (yes ++ [⟨.closing start, y.location, none⟩]) from rfl,
    List.cons_append, modify_append_cons]
  rfl

end

theorem writesOut_nil {α : Type} {code : NodeId → List α → List Node}
    (h : ∀ start, code start [] = []) (names : List String) :
    WritesOut code names (pure []) (pure ()) := by
  intro b x ns scopes _
  refine ⟨names, ?_⟩
  change (_, b.writing x ns _) = (_, b.writing x (ns ++ code _ []) _)
  rw [h, List.append_nil]

theorem writes_location (names : List String) (l : Location) : Writes names (do
    Resolve.locate l
    pure (names, none)) (Write.resolving (Resolve.locate l)) := by
  intro b x ns scopes _
  change (_, b.writing _ ns _) = (_, b.writing _ (ns ++ []) _)
  rw [List.append_nil]
  rfl

theorem writesOut_noContent : WritesOut codeOf [] Resolve.noContent Write.noContent :=
  writesOut_nil (fun _ => rfl) []

mutual

/-- The nodes of a command are the code of the statement that it is resolved to. -/
theorem Command.writes (names : List String) : ∀ c : Command, Writes names (c.resolve names) c.write
  | .locate l => writes_location names l
  | .process walk d => writes_resolving _ fun _ => by
    cases walk with
    | siblings =>
      exact writes_resolving _ fun _ => writes_resolving _ fun _ => writes_act _
    | _ => exact writes_act _
  | .call procedure d => writes_resolving _ fun _ => writes_act _
  | .literal n as content =>
    writes_resolving _ fun _ => writes_resolving _ fun _ => writes_contain _ (writes_all [] content)
  | .element n uri content => writes_resolving _ fun _ => writes_contain _ (writes_all [] content)
  | .startElement n => writes_resolving _ fun _ => writes_act _
  | .endElement n => writes_resolving _ fun _ => writes_act _
  | .attr n select =>
    writes_resolving _ fun _ => writes_resolving _ fun _ => writes_contain _ writesOut_noContent
  | .attrContent n content => writes_resolving _ fun _ => writes_contain _ (writes_all [] content)
  | .text s => writes_act _
  | .valueOf select separator => writes_resolving _ fun _ => writes_resolving _ fun _ => writes_act _
  | .copy as content => writes_contain _ (writes_all [] content)
  | .comment content => writes_contain _ (writes_all [] content)
  | .processingInstruction target content =>
    writes_resolving _ fun _ => writes_contain _ (writes_all [] content)
  | .cdata content => writes_contain _ (writes_all [] content)
  | .document href content => writes_resolving _ fun _ => writes_contain _ (writes_all [] content)
  | .message select => writes_resolving _ fun _ => writes_contain _ writesOut_noContent
  | .messageContent terminate content => writes_contain _ (writes_all [] content)
  | .variable n select => writes_declare n fun _ => writes_resolving _ fun _ =>
    writes_contain _ writesOut_noContent
  | .variableContent n content => writes_declare n fun _ =>
    writes_contain _ (writes_all [] content)
  | .parameter n select => writes_declare n fun _ => writes_resolving _ fun _ =>
    writes_contain _ writesOut_noContent
  | .parameterContent n content => writes_declare n fun _ =>
    writes_contain _ (writes_all [] content)
  | .required n => writes_declare n fun _ => writes_contain _ writesOut_noContent
  | .assign n select => writes_resolving _ fun _ => writes_contain _ writesOut_noContent
  | .assignContent n content => writes_contain _ (writes_all [] content)
  | .condition test yes => writes_resolving _ fun e => writes_condition e (writes_all [] yes)
  | .either test yes no =>
    writes_resolving _ fun e => writes_either e (writes_all [] yes) (writes_all [] no)
  | .choose branches => writes_choice fun choice => writes_branches choice [] branches
  | .loop test content => writes_resolving _ fun _ => writes_contain _ (writes_all [] content)
  | .each n select content => writes_resolving _ fun _ => writes_contain _
    fun b x ns scopes hne => writes_all [n] content b x ns scopes hne

theorem writes_all (names : List String) : ∀ cs : List Command,
    WritesOut codeOf names (resolveAll names cs) (writeAll cs)
  | [] => writesOut_nil (fun _ => rfl) names
  | c :: cs => by
    intro b x ns scopes hne
    let first := codeOf? (b.nodes.size + ns.length) ((c.resolve names).run x).1.2
    obtain ⟨names', hrest⟩ := writes_all ((c.resolve names).run x).1.1 cs b
      ((c.resolve names).run x).2 (ns ++ first) scopes (List.append_ne_nil_of_left_ne_nil hne first)
    refine ⟨names', ?_⟩
    rw [writeAll, run_bind, c.writes names b x ns scopes hne, hrest, List.length_append,
      ← Nat.add_assoc, List.append_assoc, ← codeOf_toList]
    rfl

theorem Branch.writes (choice : NodeId) (names : List String) : ∀ br : Branch,
    WritesOut (fun start b => b.code choice start) names br.resolve (br.write choice)
  | .when test content => by
    intro b x ns scopes hne
    refine ⟨names, ?_⟩
    change (discard (Write.enclose (.when _ choice) fun _ => writeAll content)).run
      (b.writing _ ns (names :: scopes)) = _
    rw [run_enclosing _ (names :: scopes) (writes_all [] content) hne]
    rfl
  | .otherwise content => by
    intro b x ns scopes hne
    refine ⟨names, ?_⟩
    rw [Branch.write, run_enclosing .otherwise (names :: scopes) (writes_all [] content) hne]
    rfl

theorem writes_branches (choice : NodeId) (names : List String) : ∀ bs : List Branch,
    WritesOut (branchesCode choice) names (resolveBranches bs) (writeBranches choice bs)
  | [] => writesOut_nil (fun _ => rfl) names
  | br :: bs => by
    intro b x ns scopes hne
    let first := (br.resolve.run x).1.code choice (b.nodes.size + ns.length)
    obtain ⟨names₁, hfirst⟩ := br.writes choice names b x ns scopes hne
    obtain ⟨names₂, hrest⟩ := writes_branches choice names₁ bs b (br.resolve.run x).2 (ns ++ first)
      scopes (List.append_ne_nil_of_left_ne_nil hne first)
    refine ⟨names₂, ?_⟩
    rw [writeBranches, run_bind, hfirst, hrest, List.length_append, ← Nat.add_assoc,
      List.append_assoc]
    rfl

end

/-- The nodes of a body are the code of its tree, each linked to the one behind it. -/
theorem run_addBody (content : List Command) (b : Builder) :
    (Build.addBody content).run b = (b.nodes.size, { b with
      reading := ((resolveBody content).run b.reading).2
      nodes := b.nodes ++ chained b.nodes.size
        (((resolveBody content).run b.reading).1.code b.nodes.size) }) := by
  let first : Node := ⟨.body, b.reading.location, none⟩
  obtain ⟨names, hcontent⟩ := writes_all [] content b b.reading [first] [] (List.cons_ne_nil _ _)
  let ss := (resolveAll [] content).run b.reading
  let inner := codeOf (b.nodes.size + 1) ss.1
  let last : Node := ⟨.closing b.nodes.size, ss.2.location, none⟩
  have hstart : b.writing b.reading [first] [[]] =
      ⟨{ b with nodes := b.nodes.push ⟨first, none⟩ }, b.nodes.size, [[]]⟩ := by
    have hpush := push_appendList b.nodes [] ⟨first, none⟩
    rw [Array.appendList_nil] at hpush
    rw [hpush]
    rfl
  have hwritten : (writeAll content >>= fun _ => Write.push (.closing b.nodes.size)).run
      (b.writing b.reading [first] [[]]) = (b.nodes.size + 1 + inner.length,
        b.writing ss.2 (first :: inner ++ [last]) [names]) := by
    rw [run_bind, hcontent, Write.run_push (List.append_ne_nil_of_left_ne_nil (List.cons_ne_nil _ _) _),
      List.length_append, ← Nat.add_assoc]
    rfl
  have hbody : (Build.addBody content).run b = (b.nodes.size,
      ((Write.building (Build.setClose b.nodes.size (b.nodes.size + 1 + inner.length))).run
        (b.writing ss.2 (first :: inner ++ [last]) [names])).2.builder) := by
    have hrun := congrArg (fun q : NodeId × BodyBuilder => (b.nodes.size,
      ((Write.building (Build.setClose b.nodes.size q.1)).run q.2).2.builder)) hwritten
    rw [hstart] at hrun
    exact hrun
  rw [hbody, Build.setClose, ← Nat.add_zero b.nodes.size,
    Write.run_modifyNode (fun n => { n with close := _ }) rfl 0]
  rfl

end Script

end StreamTransform
