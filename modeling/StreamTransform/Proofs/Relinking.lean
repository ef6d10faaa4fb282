import Mathlib.Data.List.Nodup
import StreamTransform.Proofs.Linking

/-!
# Bodies of groups

The nodes of a group's variables, added where these were declared, are linked into one body in the
end. Nothing but links is changed for it: the nodes of other bodies, and those of variables whose
groups are still to be linked, stay as they are.
-/

namespace StreamTransform

section
variable {nodes nodes' : Array LinkedNode} {is js : List NodeId} {last : NodeId}

/-- A change of nodes that leaves links alone. -/
theorem Follows.modify (h : Follows nodes is) (i : NodeId) {f : LinkedNode → LinkedNode}
    (hf : ∀ n, (f n).next = n.next) : Follows (nodes.modify i f) is := by
  have hnode {j : NodeId} {n : LinkedNode} (hn : nodes[j]? = some n) :
      ∃ n', (nodes.modify i f)[j]? = some n' ∧ n'.next = n.next := by
    rw [Array.getElem?_modify, hn]
    split
    · exact ⟨f n, rfl, hf n⟩
    · exact ⟨n, rfl, rfl⟩
  induction h with
  | last hn hnext =>
    obtain ⟨n', hn', hsame⟩ := hnode hn
    exact .last hn' (hsame.trans hnext)
  | step hn hnext _ ih =>
    obtain ⟨n', hn', hsame⟩ := hnode hn
    exact .step hn' (hsame.trans hnext) ih

/-- What is done to a linked node is done to the node in it. -/
theorem toNode_modify (nodes : Array LinkedNode) (i : NodeId) {f : LinkedNode → LinkedNode}
    (f' : Node → Node) (hf : ∀ n, (f n).toNode = f' n.toNode) :
    (nodes.modify i f).map LinkedNode.toNode = (nodes.map LinkedNode.toNode).modify i f' := by
  refine Array.ext_getElem? fun j => ?_
  rw [Array.getElem?_map, Array.getElem?_modify, Array.getElem?_modify, Array.getElem?_map]
  split
  · rw [Option.map_map, Option.map_map]
    exact Option.map_congr fun n _ => hf n
  · rfl

/-- A new link leaves what else there is to the nodes. -/
theorem toNode_setNext (nodes : Array LinkedNode) (i next : NodeId) :
    (nodes.modify i fun n => { n with next := some next }).map LinkedNode.toNode =
      nodes.map LinkedNode.toNode := by
  rw [toNode_modify (f := fun n => { n with next := some next }) nodes i id fun _ => rfl]
  refine Array.ext_getElem? fun j => ?_
  rw [Array.getElem?_modify, Option.map_id, id, ite_self]

theorem hasNode_iff {i : NodeId} {n : Node} :
    HasNode nodes i n ↔ (nodes.map LinkedNode.toNode)[i]? = some n := by
  rw [HasNode, Array.getElem?_map]

/-- These nodes are linked into a chain, and others are left alone. -/
structure Relinked (nodes nodes' : Array LinkedNode) (is : List NodeId) (last : NodeId) : Prop where
  follows : Follows nodes' is
  last : is.getLast? = some last
  same : nodes'.map LinkedNode.toNode = nodes.map LinkedNode.toNode
  kept : ∀ j ∉ is, nodes'[j]? = nodes[j]?

namespace Relinked

theorem size_eq (h : Relinked nodes nodes' is last) : nodes'.size = nodes.size := by
  rw [← Array.size_map (f := LinkedNode.toNode), h.same, Array.size_map]

/-- A chain of one node. -/
theorem single {i : NodeId} {n : LinkedNode} (hn : nodes[i]? = some n) (hnext : n.next = none) :
    Relinked nodes nodes [i] i :=
  ⟨.last hn hnext, rfl, rfl, fun _ _ => rfl⟩

/-- One more node, which none is linked to. -/
theorem push (h : Relinked nodes nodes' is last) (n : LinkedNode) :
    Relinked (nodes.push n) (nodes'.push n) is last where
  follows := h.follows.congr fun i hi => by
    rw [Array.getElem?_push, if_neg (Nat.ne_of_lt (h.follows.lt_size i hi))]
  last := h.last
  same := by rw [Array.map_push, Array.map_push, h.same]
  kept j hj := by rw [Array.getElem?_push, Array.getElem?_push, h.kept j hj, h.size_eq]

/-- The last node is linked to further ones that already follow each other. -/
theorem join (h : Relinked nodes nodes' is last) {j last' : NodeId}
    (hj : Follows nodes' (j :: js)) (hlast : (j :: js).getLast? = some last')
    (hnodup : (is ++ j :: js).Nodup) :
    Relinked nodes (nodes'.modify last fun n => { n with next := some j }) (is ++ j :: js) last' where
  follows := h.follows.join hj h.last hnodup
  last := by rw [List.getLast?_append, hlast, Option.some_or]
  same := (toNode_setNext nodes' last j).trans h.same
  kept k hk := by
    rw [Array.getElem?_modify, if_neg]
    · exact h.kept k fun hmem => hk (List.mem_append_left _ hmem)
    · rintro rfl
      exact hk (List.mem_append_left _ (List.mem_of_getLast? h.last))

end Relinked

end

namespace Script

theorem DeclaredBy.follows {nodes : Array LinkedNode} {i : NodeId} {s : Statement}
    (h : DeclaredBy nodes i s) : Follows nodes [i, i + 1] := by
  obtain ⟨_, _, _, hstart, hend⟩ := h
  exact .step hstart rfl (.last hend rfl)

/-- Declarations are linked behind a chain, one by one, and nothing else happens. -/
theorem run_linkDeclarations {b : Builder} {nodes : Array LinkedNode} {is ds : List NodeId}
    {ss : List Statement} {last : NodeId} (h : Relinked nodes b.nodes is last)
    (hds : List.Forall₂ (DeclaredBy b.nodes) ds ss) (hnodup : (is ++ endsOf ds).Nodup) :
    ∃ last' nodes', (linkDeclarations last ds).run b = (last', { b with nodes := nodes' }) ∧
      Relinked nodes nodes' (is ++ endsOf ds) last' := by
  induction ds generalizing b is ss last with
  | nil =>
    refine ⟨last, b.nodes, rfl, ?_⟩
    rw [endsOf, List.flatMap_nil, List.append_nil]
    exact h
  | cons d ds ih =>
    cases hds with | @cons _ s _ ss hd hds =>
    rw [endsOf, List.flatMap_cons, ← List.append_assoc] at hnodup
    let linked := b.nodes.modify last fun n => { n with next := some d }
    have hlast : last ∈ is := List.mem_of_getLast? h.last
    have hkept (j : NodeId) (hj : j ∉ is) : linked[j]? = b.nodes[j]? := by
      rw [Array.getElem?_modify, if_neg (by rintro rfl; exact hj hlast)]
    have hjoined : Relinked nodes linked (is ++ [d, d + 1]) (d + 1) :=
      h.join hd.follows rfl hnodup.of_append_left
    have hrest : List.Forall₂ (DeclaredBy linked) ds ss :=
      forall₂_declaredBy_congr hds fun j hj => hkept j fun hmem =>
        hnodup.disjoint (List.mem_append_left _ hmem) hj
    have hclose : (linked[d]?.bind fun n => n.close) = some (d + 1) := by
      obtain ⟨l, c, _, hstart, _⟩ := hd
      rw [hkept d fun hmem => hnodup.of_append_left.disjoint hmem
        List.mem_cons_self, hstart]
      rfl
    obtain ⟨last', nodes', hrun, hlinked⟩ :=
      ih (b := { b with nodes := linked }) hjoined hrest hnodup
    refine ⟨last', nodes', ?_, ?_⟩
    · rw [← hrun, linkDeclarations, run_bind, run_bind]
      change (linkDeclarations ((linked[d]?.bind fun n => n.close).getD d) ds).run
        { b with nodes := linked } = _
      rw [hclose, Option.getD_some]
    · rw [endsOf, List.flatMap_cons, ← List.append_assoc]
      exact hlinked

theorem lt_size_declarations {nodes : Array LinkedNode} {ds : List NodeId} {ss : List Statement}
    (h : List.Forall₂ (DeclaredBy nodes) ds ss) : ∀ i ∈ endsOf ds, i < nodes.size := by
  induction h with
  | nil => exact List.forall_mem_nil _
  | cons hd _ ih =>
    rw [endsOf, List.flatMap_cons]
    exact List.forall_mem_append.mpr ⟨hd.follows.lt_size, ih⟩

/-- What linking the variables of a group adds to a program. -/
structure Initialised (b : Builder) (ds : List NodeId) (nodes : Array LinkedNode) : Prop where
  follows : Follows nodes (b.nodes.size :: endsOf ds ++ [b.nodes.size + 1])
  same : nodes.map LinkedNode.toNode = b.nodes.map LinkedNode.toNode ++
    ([⟨.body, b.reading.location, some (b.nodes.size + 1)⟩,
      ⟨.closing b.nodes.size, b.reading.location, none⟩] : List Node)
  kept : ∀ i < b.nodes.size, i ∉ endsOf ds → nodes[i]? = b.nodes[i]?

/-- A start that declarations are linked to becomes a body when one more node closes it. -/
theorem Initialised.of_relinked {b : Builder} {ds : List NodeId} {nodes : Array LinkedNode}
    {last : NodeId} (hlt : ∀ i ∈ endsOf ds, i < b.nodes.size)
    (hnodup : ([b.nodes.size] ++ endsOf ds).Nodup)
    (h : Relinked (b.nodes.push ⟨⟨.body, b.reading.location, none⟩, none⟩) nodes
      ([b.nodes.size] ++ endsOf ds) last) :
    Initialised b ds (((nodes.push ⟨⟨.closing b.nodes.size, b.reading.location, none⟩, none⟩).modify
      last fun n => { n with next := some (b.nodes.size + 1) }).modify b.nodes.size
        fun n => { n with close := some (b.nodes.size + 1) }) := by
  let body : LinkedNode := ⟨⟨.body, b.reading.location, none⟩, none⟩
  let close : LinkedNode := ⟨⟨.closing b.nodes.size, b.reading.location, none⟩, none⟩
  have hsize : nodes.size = b.nodes.size + 1 := by rw [h.size_eq, Array.size_push]
  have hclose : (nodes.push close)[b.nodes.size + 1]? = some close := by
    rw [← hsize, Array.getElem?_push_size]
  have hnew : b.nodes.size + 1 ∉ [b.nodes.size] ++ endsOf ds := by
    rw [List.singleton_append, List.mem_cons, not_or]
    exact ⟨Nat.succ_ne_self _, fun hmem => Nat.not_succ_lt_self (hlt _ hmem)⟩
  have hjoined := (h.push close).join (.last hclose rfl) rfl
    (List.nodup_append_comm.mp (List.nodup_cons.mpr ⟨hnew, hnodup⟩))
  constructor
  case follows =>
    exact hjoined.follows.modify b.nodes.size
      (f := fun n => { n with close := some (b.nodes.size + 1) }) fun _ => rfl
  case same =>
    have hset (ns : List Node) (f : Node → Node) :
        (b.nodes.map LinkedNode.toNode ++ ns).modify b.nodes.size f =
          b.nodes.map LinkedNode.toNode ++ ns.modify 0 f := by
      rw [← modify_appendList, Array.size_map]
      rfl
    have hpush : ((b.nodes.map LinkedNode.toNode).push body.toNode).push close.toNode =
        b.nodes.map LinkedNode.toNode ++ [body.toNode, close.toNode] := by
      rw [Array.appendList_cons, Array.appendList_cons, Array.appendList_nil]
    rw [toNode_modify _ _ (fun n => { n with close := some (b.nodes.size + 1) }) fun _ => rfl,
      hjoined.same, Array.map_push, Array.map_push, hpush, hset]
    rfl
  case kept =>
    intro i hi hmem
    have hout : i ∉ [b.nodes.size] ++ endsOf ds ++ [b.nodes.size + 1] := by
      simp only [List.cons_append, List.nil_append, List.mem_cons, List.mem_append,
        List.not_mem_nil, or_false, not_or]
      exact ⟨Nat.ne_of_lt hi, hmem, Nat.ne_of_lt (Nat.lt_succ_of_lt hi)⟩
    rw [Array.getElem?_modify, if_neg (Ne.symm (Nat.ne_of_lt hi)), hjoined.kept i hout,
      Array.getElem?_push, Array.size_push, if_neg (Nat.ne_of_lt (Nat.lt_succ_of_lt hi)),
      Array.getElem?_push, if_neg (Nat.ne_of_lt hi)]

/-- A body is made of declarations. -/
theorem run_linkInitialiser {b : Builder} {g : GroupId} {e : GroupBuilder} {ss : List Statement}
    (he : b.groups.getD g default = e) (hne : e.declarations ≠ [])
    (hds : List.Forall₂ (DeclaredBy b.nodes) e.declarations ss)
    (hnodup : (endsOf e.declarations).Nodup) :
    ∃ nodes, ((linkInitialiser g).run b).2 = { b with
        nodes := nodes
        groups := b.groups.modify g fun e =>
          { e with group := { e.group with initialiser := some b.nodes.size } } } ∧
      Initialised b e.declarations nodes := by
  let body : LinkedNode := ⟨⟨.body, b.reading.location, none⟩, none⟩
  have hlt := lt_size_declarations hds
  have hfresh : ([b.nodes.size] ++ endsOf e.declarations).Nodup :=
    List.nodup_cons.mpr ⟨fun hmem => Nat.lt_irrefl _ (hlt _ hmem), hnodup⟩
  have hds' : List.Forall₂ (DeclaredBy (b.nodes.push body)) e.declarations ss :=
    forall₂_declaredBy_congr hds fun j hj => by
      rw [Array.getElem?_push, if_neg (Nat.ne_of_lt (hlt j hj))]
  obtain ⟨last, nodes, hrun, hlinked⟩ := run_linkDeclarations
    (b := { b with nodes := b.nodes.push body })
    (Relinked.single Array.getElem?_push_size rfl) hds' hfresh
  refine ⟨_, ?_, .of_relinked hlt hfresh hlinked⟩
  have hsize : nodes.size = b.nodes.size + 1 := by rw [hlinked.size_eq, Array.size_push]
  have hgroup : (Build.group g).run b = (e, b) := by rw [← he]; rfl
  have hstart : (Build.addNode .body).run b =
      (b.nodes.size, { b with nodes := b.nodes.push body }) := rfl
  rw [linkInitialiser, run_bind, hgroup, if_neg (by simpa using hne), run_bind, hstart, run_bind,
    hrun, ← hsize]
  rfl

/-- The nodes of declarations are the code of their statements but for their numbers. -/
theorem hasNode_declarations {nodes : Array LinkedNode} {ds : List NodeId} {ss : List Statement}
    (h : List.Forall₂ (DeclaredBy nodes) ds ss) {f : NodeId → NodeId} {start : NodeId}
    (hf : ∀ j < (endsOf ds).length, f (start + j) = (endsOf ds).getD j 0) :
    List.Forall₂ (HasNode nodes) (endsOf ds) ((codeOf start ss).map (Node.renumber f)) := by
  induction h generalizing start with
  | nil => exact .nil
  | @cons d s ds ss hd _ ih =>
    obtain ⟨l, c, rfl, hstart, hend⟩ := hd
    have hlength : (endsOf (d :: ds)).length = (endsOf ds).length + 2 := by
      rw [endsOf, List.flatMap_cons, List.length_append, Nat.add_comm]
      rfl
    rw [hlength] at hf
    have hopening : f start = d := hf 0 (Nat.zero_lt_succ _)
    have hclosing : f (start + 1) = d + 1 := hf 1 (Nat.succ_lt_succ (Nat.zero_lt_succ _))
    have hlater (j : Nat) (hj : j < (endsOf ds).length) :
        f (start + 2 + j) = (endsOf ds).getD j 0 := by
      rw [Nat.add_assoc, Nat.add_comm 2]
      exact hf (j + 2) (Nat.add_lt_add_right hj 2)
    have hrest := ih hlater
    refine .cons ?_ (.cons ?_ hrest)
    · rw [HasNode, hstart, ← hclosing]
      rfl
    · rw [HasNode, hend, ← hopening]
      rfl

theorem Initialised.size_eq {b : Builder} {ds : List NodeId} {nodes : Array LinkedNode}
    (h : Initialised b ds nodes) : nodes.size = b.nodes.size + 2 := by
  rw [← Array.size_map (f := LinkedNode.toNode), h.same, size_appendList, Array.size_map]
  rfl

theorem Initialised.starts {b : Builder} {ds : List NodeId} {nodes : Array LinkedNode}
    (h : Initialised b ds nodes) : bodyStarts nodes = bodyStarts b.nodes ++ [b.nodes.size] := by
  let added : List LinkedNode := [⟨⟨.body, b.reading.location, some (b.nodes.size + 1)⟩, none⟩,
    ⟨⟨.closing b.nodes.size, b.reading.location, none⟩, none⟩]
  have hsame : nodes.map LinkedNode.toNode = (b.nodes ++ added).map LinkedNode.toNode := by
    rw [h.same]
    exact Array.ext' (by simp [added])
  rw [bodyStarts_congr hsame, Array.appendList_cons, bodyStarts_append _ (by simp [Node.startsBody]),
    bodyStarts_push]
  rfl

theorem Initialised.stands {b : Builder} {ds : List NodeId} {nodes : Array LinkedNode}
    {ss : List Statement} (h : Initialised b ds nodes)
    (hds : List.Forall₂ (DeclaredBy b.nodes) ds ss) : LinkedBody.Stands nodes
      ⟨b.nodes.size :: endsOf ds ++ [b.nodes.size + 1],
        ⟨b.reading.location, ss, b.reading.location⟩⟩ where
  follows := h.follows
  code := by
    let f (j : NodeId) : NodeId := (b.nodes.size :: endsOf ds ++ [b.nodes.size + 1]).getD j 0
    have hold : List.Forall₂ (HasNode b.nodes) (endsOf ds) ((codeOf 1 ss).map (Node.renumber f)) :=
      hasNode_declarations hds fun j hj => by
        rw [Nat.add_comm]
        simp [f, List.getD_eq_getElem?_getD, List.getElem?_append_left hj]
    have hlength : (codeOf 1 ss).length = (endsOf ds).length := by
      rw [hold.length_eq, List.length_map]
    have hnew : List.Forall₂ (HasNode nodes) (endsOf ds) ((codeOf 1 ss).map (Node.renumber f)) := by
      refine hold.imp fun i n hi => ?_
      rw [hasNode_iff] at hi ⊢
      rw [h.same, getElem?_appendList_left (Array.getElem?_eq_some_iff.mp hi).1, hi]
    have hclose : f (1 + (codeOf 1 ss).length) = b.nodes.size + 1 := by
      rw [hlength, Nat.add_comm]
      simp [f, List.getD_eq_getElem?_getD]
    have hmap : (Body.code 0 ⟨b.reading.location, ss, b.reading.location⟩).map (Node.renumber f) =
        ⟨.body, b.reading.location, some (b.nodes.size + 1)⟩ ::
          ((codeOf 1 ss).map (Node.renumber f) ++
            [⟨.closing b.nodes.size, b.reading.location, none⟩]) := by
      rw [Body.code, encloseCode, List.cons_append, List.map_cons, List.map_append, ← hclose]
      rfl
    change List.Forall₂ _ (b.nodes.size :: (endsOf ds ++ [b.nodes.size + 1]))
      ((Body.code 0 _).map (Node.renumber f))
    rw [hmap]
    refine .cons ?_ (List.rel_append hnew (.cons ?_ .nil)) <;> rw [hasNode_iff, h.same]
    · rw [← Array.size_map (f := LinkedNode.toNode)]
      exact getElem?_appendList_right _ _ 0
    · rw [← Array.size_map (f := LinkedNode.toNode)]
      exact getElem?_appendList_right _ _ 1

/-- Statements of variables are laid out behind all other code. -/
theorem run_layOutInitialiser {d : Draft} {g : GroupId}
    (hsome : (d.groups.getD g default).initialisers ≠ []) :
    ((layOutInitialiser g).run d).2 = { d with
      code := d.code ++ Body.code d.code.size
        ⟨d.reading.location, (d.groups.getD g default).initialisers.reverse, d.reading.location⟩
      groups := d.groups.modify g fun e =>
        { e with group := { e.group with initialiser := some d.code.size } } } := by
  have hgroup : (Assemble.group g).run d = (d.groups.getD g default, d) := rfl
  rw [layOutInitialiser, run_bind, hgroup, if_neg (by simpa using hsome)]
  rfl

namespace Mirrors

variable {cs : List LinkedBody} {gs : List GroupId} {g : GroupId} {b : Builder} {d : Draft}

/-- A group without variables is left as it is. -/
theorem skip (h : Mirrors cs (g :: gs) b d) (hnone : b.declarationsOf g = []) :
    Mirrors cs gs b d := by
  have hpending : b.pending (g :: gs) = b.pending gs := by
    rw [Builder.pending, List.flatMap_cons, hnone]
    rfl
  refine ⟨h.reading, h.stands, h.starts, h.code, h.templates, h.template, h.procedures, h.procedure,
    h.groups.imp fun k e e' _ hR => ⟨hR.group, hR.initialiser, hR.declared, fun hk =>
      hR.declarations (List.mem_cons_of_mem g hk)⟩, ?_⟩
  rw [← hpending]
  exact h.whole

/-- The variables of a group, linked into a body, leave those of further groups. -/
theorem grow_initialised (h : Mirrors cs (g :: gs) b d) {nodes : Array LinkedNode}
    {ss : List Statement} (hds : List.Forall₂ (DeclaredBy b.nodes) (b.declarationsOf g) ss)
    (hmade : Initialised b (b.declarationsOf g) nodes) :
    Mirrors (cs ++ [⟨b.nodes.size :: endsOf (b.declarationsOf g) ++ [b.nodes.size + 1],
        ⟨b.reading.location, ss, b.reading.location⟩⟩]) gs { b with nodes := nodes }
      { d with code := d.code ++
        Body.code d.code.size ⟨b.reading.location, ss, b.reading.location⟩ } := by
  have hpending : b.pending (g :: gs) = endsOf (b.declarationsOf g) ++ b.pending gs :=
    List.flatMap_cons
  refine h.grow (fun i hi => ?kept) (List.subset_cons_self g gs)
    (List.forall_mem_singleton.mpr (hmade.stands hds)) hmade.starts ?code ?whole
  case kept =>
    have hmem : i ∈ ordered cs ++ b.pending (g :: gs) := by
      rw [hpending]
      rcases List.mem_append.mp hi with hi | hi
      · exact List.mem_append_left _ hi
      · exact List.mem_append_right _ (List.mem_append_right _ hi)
    have hnodup := h.nodup
    rw [hpending] at hnodup
    have hapart := ((List.perm_append_comm_assoc _ _ _).nodup_iff.mp hnodup).disjoint
    exact hmade.kept i (h.mem_range hmem) fun hdeclared => hapart hdeclared hi
  case code => rw [codeOfAll_concat, h.size_code, length_codeOfAll h.stands]
  case whole =>
    have hwhole := h.whole.append_right [b.nodes.size, b.nodes.size + 1]
    rw [hpending] at hwhole
    rw [ordered_concat, hmade.size_eq, range_add]
    refine List.Perm.trans (List.perm_iff_count.mpr fun i => ?_) hwhole
    simp only [List.count_append, List.count_cons]
    omega

/-- The variables of a group are linked into a body here, and their statements are laid out there. -/
theorem initialise (h : Mirrors cs (g :: gs) b d) :
    ∃ cs', Mirrors cs' gs ((linkInitialiser g).run b).2 ((layOutInitialiser g).run d).2 := by
  have hbgroup : (Build.group g).run b = (b.groups.getD g default, b) := rfl
  have hdgroup : (Assemble.group g).run d = (d.groups.getD g default, d) := rfl
  have hds : List.Forall₂ (DeclaredBy b.nodes) (b.declarationsOf g)
      (d.groups.getD g default).initialisers.reverse :=
    h.groups.rel_getD
      (P := fun e e' => List.Forall₂ (DeclaredBy b.nodes) e.declarations e'.initialisers.reverse)
      (fun _ _ hR => hR.declarations List.mem_cons_self) .nil
  have hempty : (d.groups.getD g default).initialisers.isEmpty =
      (b.declarationsOf g).isEmpty := by
    rw [Bool.eq_iff_iff, List.isEmpty_iff, List.isEmpty_iff, ← List.length_eq_zero_iff,
      ← List.length_eq_zero_iff, hds.length_eq, List.length_reverse]
  by_cases hnone : b.declarationsOf g = []
  · have hskipped : (b.groups.getD g default).declarations.isEmpty := List.isEmpty_iff.mpr hnone
    refine ⟨cs, ?_⟩
    rw [linkInitialiser, run_bind, hbgroup, if_pos hskipped, layOutInitialiser, run_bind, hdgroup,
      if_pos (hempty.trans hskipped)]
    exact h.skip hnone
  · have hnodup := h.nodup.of_append_right
    rw [Builder.pending, List.flatMap_cons] at hnodup
    obtain ⟨nodes, hrun, hmade⟩ := run_linkInitialiser rfl hnone hds hnodup.of_append_left
    obtain ⟨hmem, hplace⟩ := h.place_new (endsOf (b.declarationsOf g) ++ [b.nodes.size + 1])
      ⟨b.reading.location, (d.groups.getD g default).initialisers.reverse, b.reading.location⟩
    have hsome : (d.groups.getD g default).initialisers ≠ [] := fun hnil => by
      rw [hnil] at hempty
      exact hnone (List.isEmpty_iff.mp hempty.symm)
    have hlocation : d.reading.location = b.reading.location := by rw [h.reading]
    rw [hrun, run_layOutInitialiser hsome, hlocation]
    refine ⟨_, (h.grow_initialised hds hmade).modifyGroup (fun _ => rfl) fun e e' hR =>
      ⟨?_, ?_, hR.declared, hR.declarations⟩⟩
    · refine (congrArg (fun x : Group => { x with initialiser := some d.code.size }) hR.group).trans ?_
      rw [← hplace]
      rfl
    · rintro i hi
      obtain rfl := Option.some.inj hi
      exact hmem

end Mirrors

/-! ## Whole scripts -/

theorem mirrors_initial : Mirrors [] (List.range 1) Builder.initial Draft.initial where
  reading := rfl
  stands := List.forall_mem_nil _
  starts := rfl
  code := rfl
  templates := Array.map_empty.symm
  template := nofun
  procedures := Array.map_empty.symm
  procedure := nofun
  groups := by
    refine ⟨rfl, fun g e e' he he' => ?_⟩
    cases g with
    | zero =>
      obtain rfl := Option.some.inj he
      obtain rfl := Option.some.inj he'
      exact ⟨rfl, nofun, rfl, fun _ => .nil⟩
    | succ g => cases he
  whole := .refl _

theorem initialise_all {gs : List GroupId} {cs : List LinkedBody} {b : Builder} {d : Draft}
    (h : Mirrors cs gs b d) :
    ∃ cs', Mirrors cs' [] ((gs.forM linkInitialiser).run b).2 ((gs.forM layOutInitialiser).run d).2 := by
  induction gs generalizing cs b d with
  | nil => exact ⟨cs, h⟩
  | cons g gs ih =>
    obtain ⟨cs', h⟩ := h.initialise
    exact ih h

/-- What is built and the draft are made of the same bodies, and no variables are left. -/
theorem mirrors_built (ds : List Declaration) : ∃ cs, Mirrors cs [] (built ds) (draft ds) := by
  obtain ⟨-, cs, h⟩ := sim_all Program.rootGroup ds 1 Nat.zero_lt_one Builder.initial Draft.initial
    ⟨Nat.le_refl 1, [], mirrors_initial⟩
  have hdraft : draft ds = (((List.range ((assembleAll Program.rootGroup ds).run
      Draft.initial).2.groups.size).forM layOutInitialiser).run
        ((assembleAll Program.rootGroup ds).run Draft.initial).2).2 := rfl
  rw [hdraft, h.groups.size]
  exact initialise_all h

/-! ### Bodies elsewhere -/

section
variable (f : NodeId → NodeId) (templates : Array Template) (groups : Array Group)

theorem visibleAs_renumber :
    visibleAs (templates.map (Template.renumber f)) = visibleAs templates := by
  funext v id
  rw [visibleAs, visibleAs, Array.getElem?_map, Option.any_map]
  rfl

theorem ranked_renumber : ranked (templates.map (Template.renumber f)) = ranked templates := by
  have hprecedes : precedes (templates.map (Template.renumber f)) = precedes templates := by
    funext x y
    simp only [precedes, Array.getElem?_map, Option.map_map]
    rfl
  funext ids
  rw [ranked, ranked, hprecedes]

theorem everywhere_renumber :
    everywhere (templates.map (Template.renumber f)) = everywhere templates := by
  rw [everywhere, everywhere, ranked_renumber, visibleAs_renumber, Array.size_map]

theorem visibleIn_renumber (g : Group) :
    visibleIn (templates.map (Template.renumber f)) (groups.map (Group.renumber f)) (g.renumber f) =
      visibleIn templates groups g := by
  have htemplates (c : GroupId) : ((groups.map (Group.renumber f)).getD c default).templates =
      (groups.getD c default).templates := by
    rw [Array.getD_eq_getD_getElem?, Array.getD_eq_getD_getElem?, Array.getElem?_map]
    cases groups[c]? <;> rfl
  simp only [visibleIn, htemplates, visibleAs_renumber]
  rfl

theorem ancestryOf_renumber (k : Nat) (g : Option GroupId) :
    ancestryOf (groups.map (Group.renumber f)) k g = ancestryOf groups k g := by
  induction k generalizing g with
  | zero => rfl
  | succ k ih =>
    cases g with
    | none => rfl
    | some g =>
      have hparent : (groups.map (Group.renumber f))[g]?.bind Group.parent =
          groups[g]?.bind Group.parent := by
        rw [Array.getElem?_map, Option.bind_map]
        rfl
      rw [ancestryOf, ancestryOf, hparent, ih]

/-- Which templates and groups belong together does not depend on where bodies are. -/
theorem completed_renumber :
    completed (templates.map (Template.renumber f)) (groups.map (Group.renumber f)) =
      (completed templates groups).map (Group.renumber f) := by
  refine Array.ext_getElem? fun id => ?_
  simp only [completed, Array.getElem?_mapIdx, Array.getElem?_map, Option.map_map, Function.comp_def,
    ranked_renumber, visibleIn_renumber, ancestryOf_renumber, Array.size_map]
  rfl

end

section
variable {cs : List LinkedBody} {b : Builder} {d : Draft}

theorem Mirrors.linkOrder_eq (h : Mirrors cs [] b d) : linkOrder b.nodes = ordered cs := by
  have hwhole := h.whole
  rw [Builder.pending, List.flatMap_nil, List.append_nil] at hwhole
  exact StreamTransform.linkOrder_eq h.stands h.starts hwhole

/-- Laid out along the links, what is built is the draft's code. -/
theorem Mirrors.laidOut (h : Mirrors cs [] b d) :
    ((linkOrder b.nodes).filterMap fun i => b.nodes[i]?.map fun n =>
      n.renumber fun i => (linkOrder b.nodes).idxOf i) = d.code.toList := by
  have hnodup : (ordered cs ++ []).Nodup := h.nodup
  have hordered := filterMap_ordered h.stands hnodup
  rw [List.append_nil] at hordered
  rw [h.linkOrder_eq, hordered, h.code]

/-- The program that is built, laid out along its links, is the program of the draft. -/
theorem Mirrors.layOut_eq (h : Mirrors cs [] b d) : b.program.layOut = d.program := by
  have hgroups : d.groups.map GroupDraft.group =
      (b.groups.map GroupBuilder.group).map (Group.renumber (ordered cs).idxOf) := by
    rw [Array.map_map]
    exact h.groups.map_eq fun _ _ _ hR => hR.group
  have hcode : b.program.layOut.code = d.program.code := congrArg List.toArray h.laidOut
  rw [Draft.program, h.templates, h.procedures, hgroups, completed_renumber, everywhere_renumber,
    ← h.linkOrder_eq]
  exact (Program.mk.injEq ..).mpr ⟨hcode, rfl, rfl, rfl, rfl⟩

end

/-- Linking the nodes call by call comes to what the trees are laid out as. -/
theorem build_eq (ds : List Declaration) : build ds = assembled ds := by
  obtain ⟨cs, h⟩ := mirrors_built ds
  rw [build, link, assembled]
  simp only [h.reading]
  split
  · exact congrArg Except.ok h.layOut_eq
  · rfl

end Script

end StreamTransform
