import StreamTransform.Proofs.Links
import StreamTransform.Proofs.Outlines

/-!
# Linking

Programs that are linked call by call and drafts of finished trees are made of the same bodies. Step
by step, what is declared adds a body to both, or two nodes to the one and a statement to the other;
and in the end the nodes of a group's variables are linked into the body that their statements are
laid out as.
-/

namespace StreamTransform.Script

/-! ## What two groups have in common -/

/-- Each group of the one has the relation to the same group of the other. -/
structure Alike (R : GroupId → GroupBuilder → GroupDraft → Prop) (bs : Array GroupBuilder)
    (ds : Array GroupDraft) : Prop where
  size : ds.size = bs.size
  group : ∀ (g : GroupId) (e : GroupBuilder) (e' : GroupDraft), bs[g]? = some e → ds[g]? = some e' →
    R g e e'

namespace Alike

variable {R R' : GroupId → GroupBuilder → GroupDraft → Prop} {bs : Array GroupBuilder}
  {ds : Array GroupDraft} {g : GroupId}

theorem imp (h : Alike R bs ds) (hR : ∀ g e e', bs[g]? = some e → R g e e' → R' g e e') :
    Alike R' bs ds :=
  ⟨h.size, fun g e e' he he' => hR g e e' he (h.group g e e' he he')⟩

theorem modify (h : Alike R bs ds) {f : GroupBuilder → GroupBuilder} {f' : GroupDraft → GroupDraft}
    (hR : ∀ e e', bs[g]? = some e → R g e e' → R g (f e) (f' e')) :
    Alike R (bs.modify g f) (ds.modify g f') := by
  refine ⟨by rw [Array.size_modify, Array.size_modify, h.size], fun k e e' he he' => ?_⟩
  rw [Array.getElem?_modify] at he he'
  split at he
  next hk =>
    subst hk
    rw [if_pos rfl] at he'
    obtain ⟨e₀, he₀, rfl⟩ := Option.map_eq_some_iff.mp he
    obtain ⟨e₀', he₀', rfl⟩ := Option.map_eq_some_iff.mp he'
    exact hR e₀ e₀' he₀ (h.group _ e₀ e₀' he₀ he₀')
  next hk =>
    rw [if_neg hk] at he'
    exact h.group k e e' he he'

theorem push (h : Alike R bs ds) {e : GroupBuilder} {e' : GroupDraft} (hR : R bs.size e e') :
    Alike R (bs.push e) (ds.push e') := by
  refine ⟨by rw [Array.size_push, Array.size_push, h.size], fun k e₀ e₀' he₀ he₀' => ?_⟩
  rw [Array.getElem?_push] at he₀ he₀'
  rw [h.size] at he₀'
  split at he₀
  next hk =>
    subst hk
    rw [if_pos rfl] at he₀'
    obtain rfl := Option.some.inj he₀
    obtain rfl := Option.some.inj he₀'
    exact hR
  next hk =>
    rw [if_neg hk] at he₀'
    exact h.group k e₀ e₀' he₀ he₀'

theorem exists_of_lt (h : Alike R bs ds) (hg : g < bs.size) :
    ∃ e e', bs[g]? = some e ∧ ds[g]? = some e' ∧ R g e e' :=
  have he := Array.getElem?_eq_getElem hg
  have he' := Array.getElem?_eq_getElem (h.size ▸ hg)
  ⟨_, _, he, he', h.group g _ _ he he'⟩

/-- A group is looked up with the same success, or stands for the same outside of them. -/
theorem rel_getD {P : GroupBuilder → GroupDraft → Prop} (h : Alike R bs ds)
    (hR : ∀ e e', R g e e' → P e e') (hdefault : P default default) :
    P (bs.getD g default) (ds.getD g default) := by
  rw [Array.getD_eq_getD_getElem?, Array.getD_eq_getD_getElem?]
  by_cases hg : g < bs.size
  · obtain ⟨e, e', he, he', hee⟩ := h.exists_of_lt hg
    rw [he, he']
    exact hR e e' hee
  · rw [Array.getElem?_eq_none (Nat.le_of_not_lt hg),
      Array.getElem?_eq_none (h.size ▸ Nat.le_of_not_lt hg)]
    exact hdefault

theorem getD {α : Type} (h : Alike R bs ds) {f : GroupBuilder → α} {f' : GroupDraft → α}
    (hR : ∀ e e', R g e e' → f' e' = f e) (hdefault : f' default = f default) :
    f' (ds.getD g default) = f (bs.getD g default) :=
  h.rel_getD (P := fun e e' => f' e' = f e) hR hdefault

/-- What the relation makes equal is equal for all groups. -/
theorem map_eq {α : Type} (h : Alike R bs ds) {f : GroupBuilder → α} {f' : GroupDraft → α}
    (hR : ∀ g e e', R g e e' → f' e' = f e) : ds.map f' = bs.map f := by
  refine Array.ext_getElem? fun g => ?_
  rw [Array.getElem?_map, Array.getElem?_map]
  by_cases hg : g < bs.size
  · obtain ⟨e, e', he, he', hee⟩ := h.exists_of_lt hg
    rw [he, he', Option.map_some, Option.map_some, hR g e e' hee]
  · rw [Array.getElem?_eq_none (Nat.le_of_not_lt hg),
      Array.getElem?_eq_none (h.size ▸ Nat.le_of_not_lt hg)]
    rfl

end Alike

/-! ## Variables that are not linked yet -/

theorem range_add (n k : Nat) : List.range (n + k) = List.range n ++ List.range' n k := by
  have h := List.range'_append_1 (s := 0) (m := n) (n := k)
  rw [Nat.zero_add] at h
  rw [List.range_eq_range', List.range_eq_range', h]

/-- The nodes of declarations: the start of each, and its end behind it. -/
def endsOf (ds : List NodeId) : List NodeId := ds.flatMap fun d => [d, d + 1]

/-- The two nodes from one on are linked to each other, and what they come to is the statement. -/
def DeclaredBy (nodes : Array LinkedNode) (i : NodeId) (s : Statement) : Prop :=
  ∃ l c, s = .enclose l c [] l ∧
    nodes[i]? = some ⟨⟨.container c, l, some (i + 1)⟩, some (i + 1)⟩ ∧
    nodes[i + 1]? = some ⟨⟨.closing i, l, none⟩, none⟩

/-- The two nodes of a declaration that stands from a node on. -/
def declarationNodes (i : NodeId) (c : Container) (l : Location) : List LinkedNode :=
  [⟨⟨.container c, l, some (i + 1)⟩, some (i + 1)⟩, ⟨⟨.closing i, l, none⟩, none⟩]

theorem declaredBy_append (nodes : Array LinkedNode) (c : Container) (l : Location) :
    DeclaredBy (nodes ++ declarationNodes nodes.size c l) nodes.size (.enclose l c [] l) :=
  ⟨l, c, rfl, getElem?_appendList_right nodes _ 0, getElem?_appendList_right nodes _ 1⟩

theorem DeclaredBy.congr {nodes nodes' : Array LinkedNode} {i : NodeId} {s : Statement}
    (h : DeclaredBy nodes i s) (hsame : ∀ j ∈ [i, i + 1], nodes'[j]? = nodes[j]?) :
    DeclaredBy nodes' i s := by
  obtain ⟨l, c, hs, hstart, hend⟩ := h
  refine ⟨l, c, hs, (hsame i ?_).trans hstart, (hsame (i + 1) ?_).trans hend⟩
  · exact List.mem_cons_self
  · exact List.mem_cons_of_mem _ List.mem_cons_self

/-- Declarations stay declared where their nodes are kept. -/
theorem forall₂_declaredBy_congr {nodes nodes' : Array LinkedNode} {ds : List NodeId}
    {ss : List Statement} (h : List.Forall₂ (DeclaredBy nodes) ds ss)
    (hsame : ∀ j ∈ endsOf ds, nodes'[j]? = nodes[j]?) : List.Forall₂ (DeclaredBy nodes') ds ss := by
  have hall : List.Forall₂ (fun d s => d ∈ ds ∧ DeclaredBy nodes d s) ds ss :=
    (List.forall₂_and_left _ _).mpr ⟨fun _ hd => hd, h⟩
  exact hall.imp fun d _ hs => hs.2.congr fun j hj => hsame j (List.mem_flatMap.mpr ⟨d, hs.1, hj⟩)

/-- A group with one more variable, declared by the nodes from one on. -/
def withDeclaration (name : String) (i : NodeId) (e : GroupBuilder) : GroupBuilder :=
  { e with declared := name :: e.declared, declarations := e.declarations ++ [i] }

/-- A group with one more variable, declared by a statement. -/
def withStatement (name : String) (s : Statement) (e : GroupDraft) : GroupDraft :=
  { e with declared := name :: e.declared, initialisers := s :: e.initialisers }

/-- The variables of a group, as far as they are declared. -/
def Builder.declarationsOf (b : Builder) (g : GroupId) : List NodeId :=
  (b.groups.getD g default).declarations

/-- The nodes of the variables of some groups. -/
def Builder.pending (b : Builder) (gs : List GroupId) : List NodeId :=
  gs.flatMap fun g => endsOf (b.declarationsOf g)

theorem endsOf_concat (ds : List NodeId) (i : NodeId) :
    endsOf (ds ++ [i]) = endsOf ds ++ [i, i + 1] := by
  rw [endsOf, List.flatMap_append, List.flatMap_singleton]
  rfl

/-- What is added for one of several groups is added to all that there is. -/
theorem flatMap_perm_append {f f' : GroupId → List NodeId} {g : GroupId} {is : List NodeId}
    (hg : f' g = f g ++ is) (hother : ∀ k ≠ g, f' k = f k) {gs : List GroupId} (hnodup : gs.Nodup)
    (hmem : g ∈ gs) : (gs.flatMap f').Perm (gs.flatMap f ++ is) := by
  induction gs with
  | nil => exact absurd hmem List.not_mem_nil
  | cons k gs ih =>
    obtain ⟨hk, hnodup⟩ := List.nodup_cons.mp hnodup
    rw [List.flatMap_cons, List.flatMap_cons]
    rcases List.mem_cons.mp hmem with rfl | hmem
    · have hrest : gs.flatMap f' = gs.flatMap f :=
        List.flatMap_congr fun j hj => hother j fun hjg => hk (hjg ▸ hj)
      rw [hg, hrest, List.append_assoc, List.append_assoc]
      exact List.perm_append_comm.append_left _
    · rw [hother k fun hkg => hk (hkg ▸ hmem), List.append_assoc]
      exact (ih hnodup hmem).append_left _

/-! ## What a program and a draft have in common -/

/-- A group has the same members in both, and its variables are the same as long as they are
pending. Bodies are at their places in the order of the links. -/
structure GroupMirrors (nodes : Array LinkedNode) (order : List NodeId) (gs : List GroupId)
    (g : GroupId) (e : GroupBuilder) (e' : GroupDraft) : Prop where
  group : e'.group = e.group.renumber order.idxOf
  initialiser : ∀ i, e.group.initialiser = some i → i ∈ order
  declared : e'.declared = e.declared
  declarations : g ∈ gs → List.Forall₂ (DeclaredBy nodes) e.declarations e'.initialisers.reverse

/-- A program in the making and a draft are made of the same bodies, and the variables of some groups
are still to be made a body of. -/
structure Mirrors (cs : List LinkedBody) (gs : List GroupId) (b : Builder) (d : Draft) : Prop where
  reading : d.reading = b.reading
  stands : ∀ c ∈ cs, c.Stands b.nodes
  starts : bodyStarts b.nodes = cs.filterMap fun c => c.ids.head?
  code : d.code.toList = codeOfAll cs
  templates : d.templates = b.templates.map (Template.renumber (ordered cs).idxOf)
  template : ∀ t ∈ b.templates, t.body ∈ ordered cs
  procedures : d.procedures = b.procedures.map (Procedure.renumber (ordered cs).idxOf)
  procedure : ∀ q ∈ b.procedures, q.body ∈ ordered cs
  groups : Alike (GroupMirrors b.nodes (ordered cs) gs) b.groups d.groups
  whole : (ordered cs ++ b.pending gs).Perm (List.range b.nodes.size)

namespace Mirrors

variable {cs : List LinkedBody} {gs : List GroupId} {b : Builder} {d : Draft}

theorem read (h : Mirrors cs gs b d) (r : Reading) :
    Mirrors cs gs { b with reading := r } { d with reading := r } :=
  ⟨rfl, h.stands, h.starts, h.code, h.templates, h.template, h.procedures, h.procedure, h.groups,
    h.whole⟩

theorem mem_range (h : Mirrors cs gs b d) {i : NodeId} (hi : i ∈ ordered cs ++ b.pending gs) :
    i < b.nodes.size := List.mem_range.mp (h.whole.mem_iff.mp hi)

theorem nodup (h : Mirrors cs gs b d) : (ordered cs ++ b.pending gs).Nodup :=
  h.whole.nodup_iff.mpr List.nodup_range

theorem size_code (h : Mirrors cs gs b d) : d.code.size = (ordered cs).length := by
  rw [← Array.length_toList, h.code, length_codeOfAll h.stands]

/-- Nodes of variables that are declared but not linked yet. -/
theorem mem_pending {g : GroupId} {e : GroupBuilder} (he : b.groups[g]? = some e) (hg : g ∈ gs)
    {j : NodeId} (hj : j ∈ endsOf e.declarations) : j ∈ b.pending gs := by
  refine List.mem_flatMap.mpr ⟨g, hg, ?_⟩
  rwa [Builder.declarationsOf, Array.getD_eq_getD_getElem?, he, Option.getD_some]

theorem declaredBy_kept {g : GroupId} {e : GroupBuilder} (he : b.groups[g]? = some e) (hg : g ∈ gs)
    {nodes : Array LinkedNode} (hkept : ∀ i ∈ b.pending gs, nodes[i]? = b.nodes[i]?)
    {ss : List Statement} (h : List.Forall₂ (DeclaredBy b.nodes) e.declarations ss) :
    List.Forall₂ (DeclaredBy nodes) e.declarations ss :=
  forall₂_declaredBy_congr h fun j hj => hkept j (mem_pending he hg hj)

/-- More bodies are made, of new nodes or of variables, and laid out; all other nodes are kept. -/
theorem grow (h : Mirrors cs gs b d) {nodes : Array LinkedNode} {made : List LinkedBody}
    {gs' : List GroupId} {code : List Node}
    (hkept : ∀ i ∈ ordered cs ++ b.pending gs', nodes[i]? = b.nodes[i]?) (hgs : gs' ⊆ gs)
    (hmade : ∀ c ∈ made, c.Stands nodes)
    (hstarts : bodyStarts nodes = bodyStarts b.nodes ++ made.filterMap fun c => c.ids.head?)
    (hcode : codeOfAll (cs ++ made) = codeOfAll cs ++ code)
    (hwhole : (ordered (cs ++ made) ++ b.pending gs').Perm (List.range nodes.size)) :
    Mirrors (cs ++ made) gs' { b with nodes := nodes } { d with code := d.code ++ code } := by
  have hordered : ordered (cs ++ made) = ordered cs ++ ordered made := List.flatMap_append
  have hplace {i : NodeId} (hi : i ∈ ordered cs) :
      (ordered (cs ++ made)).idxOf i = (ordered cs).idxOf i := by
    rw [hordered, List.idxOf_append_of_mem hi]
  have hmem {i : NodeId} (hi : i ∈ ordered cs) : i ∈ ordered (cs ++ made) := by
    rw [hordered]
    exact List.mem_append_left _ hi
  constructor
  case reading => exact h.reading
  case stands =>
    refine List.forall_mem_append.mpr ⟨fun c hc => (h.stands c hc).congr fun i hi => ?_, hmade⟩
    exact hkept i (List.mem_append_left _ (List.mem_flatMap.mpr ⟨c, hc, hi⟩))
  case starts => rw [hstarts, h.starts, List.filterMap_append]
  case code => rw [Array.toList_appendList, h.code, hcode]
  case templates =>
    rw [h.templates]
    refine Array.map_congr_left fun t ht => ?_
    rw [Template.renumber, Template.renumber, hplace (h.template t ht)]
  case template => exact fun t ht => hmem (h.template t ht)
  case procedures =>
    rw [h.procedures]
    refine Array.map_congr_left fun q hq => ?_
    rw [Procedure.renumber, Procedure.renumber, hplace (h.procedure q hq)]
  case procedure => exact fun q hq => hmem (h.procedure q hq)
  case groups =>
    refine h.groups.imp fun g e e' he hR => ⟨?_, fun i hi => hmem (hR.initialiser i hi), hR.declared,
      fun hg => ?_⟩
    · have hinitialiser : e.group.initialiser.map (ordered (cs ++ made)).idxOf =
          e.group.initialiser.map (ordered cs).idxOf :=
        Option.map_congr fun i hi => hplace (hR.initialiser i hi)
      rw [Group.renumber, hinitialiser]
      exact hR.group
    · exact declaredBy_kept he hg (fun i hi => hkept i (List.mem_append_right _ hi))
        (hR.declarations (hgs hg))
  case whole => exact hwhole

/-- A body is written here and laid out there. -/
theorem write (h : Mirrors cs gs b d) (body : Body) :
    Mirrors (cs ++ [⟨List.range' b.nodes.size (body.code b.nodes.size).length, body⟩]) gs
      { b with nodes := b.nodes ++ chained b.nodes.size (body.code b.nodes.size) }
      { d with code := d.code ++ body.code d.code.size } := by
  refine h.grow (fun i hi => ?_) (List.Subset.refl gs)
    (List.forall_mem_singleton.mpr stands_chained) ?_ ?_ ?_
  · exact getElem?_appendList_left (h.mem_range hi)
  · rw [bodyStarts_chained]
    rfl
  · rw [codeOfAll_concat, h.size_code, length_codeOfAll h.stands]
  · rw [ordered_concat, size_appendList, length_chained, range_add]
    have hswap : (ordered cs ++ List.range' b.nodes.size (body.code b.nodes.size).length ++
        b.pending gs).Perm (ordered cs ++ b.pending gs ++
          List.range' b.nodes.size (body.code b.nodes.size).length) := by
      rw [List.append_assoc, List.append_assoc]
      exact List.perm_append_comm.append_left _
    exact hswap.trans (h.whole.append_right _)

/-! ### Members of groups -/

/-- A change of a group that leaves its variables alone. -/
theorem modifyGroup (h : Mirrors cs gs b d) {g : GroupId} {f : GroupBuilder → GroupBuilder}
    {f' : GroupDraft → GroupDraft} (hdeclarations : ∀ e, (f e).declarations = e.declarations)
    (hf : ∀ e e', GroupMirrors b.nodes (ordered cs) gs g e e' →
      GroupMirrors b.nodes (ordered cs) gs g (f e) (f' e')) :
    Mirrors cs gs { b with groups := b.groups.modify g f }
      { d with groups := d.groups.modify g f' } := by
  refine ⟨h.reading, h.stands, h.starts, h.code, h.templates, h.template, h.procedures, h.procedure,
    h.groups.modify fun e e' _ => hf e e', ?_⟩
  have hsame (k : GroupId) : ({ b with groups := b.groups.modify g f } : Builder).declarationsOf k =
      b.declarationsOf k := by
    simp only [Builder.declarationsOf, Array.getD_eq_getD_getElem?, Array.getElem?_modify]
    split
    · cases b.groups[k]? with
      | none => rfl
      | some e => exact hdeclarations e
    · rfl
  rw [Builder.pending]
  simp only [hsame]
  exact h.whole

theorem addTemplate (h : Mirrors cs gs b d) (t : Template) (ht : t.body ∈ ordered cs) :
    Mirrors cs gs ((Build.addTemplate t).run b).2
      ((Assemble.addTemplate (t.renumber (ordered cs).idxOf)).run d).2 := by
  have hsize : d.templates.size = b.templates.size := by rw [h.templates, Array.size_map]
  have hpushed : Mirrors cs gs { b with templates := b.templates.push t }
      { d with templates := d.templates.push (t.renumber (ordered cs).idxOf) } := by
    refine ⟨h.reading, h.stands, h.starts, h.code, ?_, ?_, h.procedures, h.procedure, h.groups,
      h.whole⟩
    · simp only [h.templates, Array.map_push]
    · exact fun u hu => (Array.mem_push.mp hu).elim (h.template u) fun hu => hu ▸ ht
  refine hpushed.modifyGroup (fun _ => rfl) fun e e' hR => ⟨?_, hR.initialiser, hR.declared,
    hR.declarations⟩
  rw [← hsize]
  exact congrArg (fun x : Group => { x with templates := x.templates ++ [d.templates.size] }) hR.group

theorem addProcedure (h : Mirrors cs gs b d) (q : Procedure) (hq : q.body ∈ ordered cs) :
    Mirrors cs gs ((Build.addProcedure q).run b).2
      ((Assemble.addProcedure (q.renumber (ordered cs).idxOf)).run d).2 := by
  have hsize : d.procedures.size = b.procedures.size := by rw [h.procedures, Array.size_map]
  have hpushed : Mirrors cs gs { b with procedures := b.procedures.push q }
      { d with procedures := d.procedures.push (q.renumber (ordered cs).idxOf) } := by
    refine ⟨h.reading, h.stands, h.starts, h.code, h.templates, h.template, ?_, ?_, h.groups,
      h.whole⟩
    · simp only [h.procedures, Array.map_push]
    · exact fun u hu => (Array.mem_push.mp hu).elim (h.procedure u) fun hu => hu ▸ hq
  refine hpushed.modifyGroup (fun _ => rfl) fun e e' hR => ⟨?_, hR.initialiser, hR.declared,
    hR.declarations⟩
  rw [← hsize]
  exact congrArg (fun x : Group => { x with procedures := x.procedures ++ [d.procedures.size] })
    hR.group

/-- A new group has no variables yet. -/
theorem addGroup (h : Mirrors cs (List.range b.groups.size) b d) (name : String)
    (parent : GroupId) : Mirrors cs (List.range (b.groups.size + 1))
      ((Build.addGroup name parent).run b).2 ((Assemble.addGroup name parent).run d).2 := by
  have hsize := h.groups.size
  let e : GroupBuilder := ⟨{ (default : Group) with name := some name, parent := some parent }, [], []⟩
  let e' : GroupDraft := ⟨{ (default : Group) with name := some name, parent := some parent }, [], []⟩
  have hpushed : Mirrors cs (List.range (b.groups.size + 1)) { b with groups := b.groups.push e }
      { d with groups := d.groups.push e' } := by
    refine ⟨h.reading, h.stands, h.starts, h.code, h.templates, h.template, h.procedures,
      h.procedure, ?_, ?_⟩
    · refine Alike.push (h.groups.imp fun g e e' he hR => ⟨hR.group, hR.initialiser, hR.declared,
        fun _ => hR.declarations ?_⟩) ⟨rfl, nofun, rfl, fun _ => .nil⟩
      exact List.mem_range.mpr (Array.getElem?_eq_some_iff.mp he).1
    · have hold : ∀ g ∈ List.range b.groups.size, endsOf
          (({ b with groups := b.groups.push e } : Builder).declarationsOf g) =
            endsOf (b.declarationsOf g) := by
        intro g hg
        rw [Builder.declarationsOf, Array.getD_eq_getD_getElem?, Array.getElem?_push,
          if_neg (Nat.ne_of_lt (List.mem_range.mp hg)), ← Array.getD_eq_getD_getElem?]
        rfl
      have hnew : endsOf (({ b with groups := b.groups.push e } : Builder).declarationsOf
          b.groups.size) = [] := by
        rw [Builder.declarationsOf, Array.getD_eq_getD_getElem?, Array.getElem?_push, if_pos rfl]
        rfl
      rw [Builder.pending, List.range_succ, List.flatMap_append, List.flatMap_singleton, hnew,
        List.append_nil, List.flatMap_congr hold]
      exact h.whole
  change Mirrors cs _ { b with groups := (b.groups.push e).modify parent _ }
    { d with groups := (d.groups.push e').modify parent fun g =>
      { g with group := { g.group with children := g.group.children ++ [d.groups.size] } } }
  rw [hsize]
  exact hpushed.modifyGroup (fun _ => rfl) fun e e' hR => ⟨congrArg
    (fun x : Group => { x with children := x.children ++ [b.groups.size] }) hR.group,
    hR.initialiser, hR.declared, hR.declarations⟩

/-- A variable of a group is declared by two nodes here and by a statement there. -/
theorem declare (h : Mirrors cs gs b d) {g : GroupId} (hg : g ∈ gs) (hnodup : gs.Nodup)
    (hlt : g < b.groups.size) (name : String) (c : Container) (l : Location) :
    Mirrors cs gs
      { b with
        nodes := b.nodes ++ declarationNodes b.nodes.size c l
        groups := b.groups.modify g (withDeclaration name b.nodes.size) }
      { d with groups := d.groups.modify g (withStatement name (.enclose l c [] l)) } := by
  have hkept (i : NodeId) (hi : i ∈ ordered cs ++ b.pending gs) :
      (b.nodes ++ declarationNodes b.nodes.size c l)[i]? = b.nodes[i]? :=
    getElem?_appendList_left (h.mem_range hi)
  refine ⟨h.reading, fun c hc => (h.stands c hc).congr fun i hi => ?_, ?_, h.code, h.templates,
    h.template, h.procedures, h.procedure, ?_, ?_⟩
  · exact hkept i (List.mem_append_left _ (List.mem_flatMap.mpr ⟨c, hc, hi⟩))
  · rw [bodyStarts_append _ (by simp [declarationNodes, Node.startsBody]), h.starts]
  · have hgroups : Alike (GroupMirrors (b.nodes ++ declarationNodes b.nodes.size c l) (ordered cs) gs)
        b.groups d.groups :=
      h.groups.imp fun g e e' he hR => ⟨hR.group, hR.initialiser, hR.declared, fun hg =>
        declaredBy_kept he hg (fun i hi => hkept i (List.mem_append_right _ hi)) (hR.declarations hg)⟩
    refine hgroups.modify fun e e' _ hR => ⟨hR.group, hR.initialiser,
      congrArg (name :: ·) hR.declared, fun hg => ?_⟩
    rw [withStatement, List.reverse_cons]
    exact List.rel_append (hR.declarations hg) (.cons (declaredBy_append b.nodes c l) .nil)
  · have hlist (k : GroupId) : ({ b with
        groups := b.groups.modify g (withDeclaration name b.nodes.size) } : Builder).declarationsOf k =
        if k = g then b.declarationsOf g ++ [b.nodes.size] else b.declarationsOf k := by
      simp only [Builder.declarationsOf, Array.getD_eq_getD_getElem?, Array.getElem?_modify]
      split
      next hk =>
        subst hk
        rw [if_pos rfl, Array.getElem?_eq_getElem hlt]
        rfl
      next hk => rw [if_neg (Ne.symm hk)]
    have hpending : (({ b with
        groups := b.groups.modify g (withDeclaration name b.nodes.size) } : Builder).pending gs).Perm
        (b.pending gs ++ [b.nodes.size, b.nodes.size + 1]) :=
      flatMap_perm_append (by rw [hlist, if_pos rfl, endsOf_concat])
        (fun k hk => by rw [hlist, if_neg hk]) hnodup hg
    rw [size_appendList]
    have hall := hpending.append_left (ordered cs)
    rw [← List.append_assoc] at hall
    exact hall.trans ((h.whole.append_right _).trans (by rw [range_add]; rfl))

/-- A body that starts at the next node is laid out after all others. -/
theorem place_new (h : Mirrors cs gs b d) (ids : List NodeId) (body : Body) :
    b.nodes.size ∈ ordered (cs ++ [⟨b.nodes.size :: ids, body⟩]) ∧
      (ordered (cs ++ [⟨b.nodes.size :: ids, body⟩])).idxOf b.nodes.size = d.code.size := by
  have hout : b.nodes.size ∉ ordered cs := fun hmem =>
    Nat.lt_irrefl _ (h.mem_range (List.mem_append_left _ hmem))
  rw [ordered_concat]
  refine ⟨List.mem_append_right _ List.mem_cons_self, ?_⟩
  rw [List.idxOf_append_of_notMem hout, List.idxOf_cons_self, h.size_code, Nat.add_zero]

/-- A body that is written starts where it is laid out. -/
theorem place_write (h : Mirrors cs gs b d) (body : Body) :
    b.nodes.size ∈
      ordered (cs ++ [⟨List.range' b.nodes.size (body.code b.nodes.size).length, body⟩]) ∧
    (ordered (cs ++ [⟨List.range' b.nodes.size (body.code b.nodes.size).length, body⟩])).idxOf
      b.nodes.size = d.code.size := by
  have hlength : (body.code b.nodes.size).length =
      (codeOf (b.nodes.size + 1) body.statements).length + 1 + 1 := length_encloseCode _ _ _ _ _
  rw [hlength, List.range'_succ]
  exact h.place_new _ body

end Mirrors

/-! ## Declarations -/

/-- The two are made of the same, all variables of groups are pending, and there are so many groups at
least. -/
def Mirrored (n : Nat) (b : Builder) (d : Draft) : Prop :=
  n ≤ b.groups.size ∧ ∃ cs, Mirrors cs (List.range b.groups.size) b d

/-- Besides, a body starts here and there. -/
def Placed (n : Nat) (i start : NodeId) (b : Builder) (d : Draft) : Prop :=
  n ≤ b.groups.size ∧ ∃ cs, Mirrors cs (List.range b.groups.size) b d ∧ i ∈ ordered cs ∧
    (ordered cs).idxOf i = start

/-- From a pair of states with one property, the two lead to a pair with the other. -/
def Sim {α β : Type} (P : Builder → Draft → Prop) (m : Build α) (m' : Assemble β)
    (Q : α → β → Builder → Draft → Prop) : Prop :=
  ∀ b d, P b d → Q (m.run b).1 (m'.run d).1 (m.run b).2 (m'.run d).2

section
variable {α β γ δ : Type} {P : Builder → Draft → Prop} {Q : α → β → Builder → Draft → Prop}
  {R : γ → δ → Builder → Draft → Prop} {m : Build α} {m' : Assemble β} {n : Nat} {g : GroupId}
  {l : Location}

theorem sim_bind {k : α → Build γ} {k' : β → Assemble δ} (h : Sim P m m' Q)
    (hk : ∀ a a', Sim (Q a a') (k a) (k' a') R) : Sim P (m >>= k) (m' >>= k') R :=
  fun b d hp => hk _ _ _ _ (h b d hp)

theorem sim_pure {a : α} {a' : β} (h : ∀ b d, P b d → Q a a' b d) :
    Sim P (pure a) (pure a') Q := h

theorem sim_forM {ε : Type} {k : ε → Build PUnit} {k' : ε → Assemble PUnit}
    (h : ∀ x, Sim P (k x) (k' x) fun _ _ => P) (xs : List ε) :
    Sim P (xs.forM k) (xs.forM k') fun _ _ => P := by
  induction xs with
  | nil => exact sim_pure fun _ _ h => h
  | cons x xs ih => exact sim_bind (h x) fun _ _ => ih

/-- What is decided by the state is decided alike. -/
theorem sim_ite (c : Builder → Bool) (c' : Draft → Bool) {m₁ m₂ : Build α} {m₁' m₂' : Assemble β}
    (hc : ∀ b d, P b d → c' d = c b) (h₁ : Sim P m₁ m₁' Q) (h₂ : Sim P m₂ m₂' Q) :
    Sim P (get >>= fun b => if c b then m₁ else m₂) (get >>= fun d => if c' d then m₁' else m₂') Q := by
  intro b d hp
  have hsame := hc b d hp
  change Q ((if c b then m₁ else m₂).run b).1 ((if c' d then m₁' else m₂').run d).1
    ((if c b then m₁ else m₂).run b).2 ((if c' d then m₁' else m₂').run d).2
  rw [hsame]
  cases c b with
  | true => exact h₁ b d hp
  | false => exact h₂ b d hp

/-- Where the location in force is told, nothing else happens. -/
theorem sim_location {k : Location → Build γ} {m' : Assemble δ}
    (h : ∀ l, Sim (fun b d => P b d ∧ b.reading.location = l) (k l) m' R) :
    Sim P (Build.resolving Resolve.location >>= k) m' R :=
  fun b d hp => h b.reading.location b d ⟨hp, rfl⟩

theorem mirrored_resolving (r : Resolve α) {b : Builder} {d : Draft} (h : Mirrored n b d) :
    ((Assemble.resolving r).run d).1 = ((Build.resolving r).run b).1 ∧
      Mirrored n ((Build.resolving r).run b).2 ((Assemble.resolving r).run d).2 := by
  obtain ⟨hn, cs, h⟩ := h
  have hsame : r.run d.reading = r.run b.reading := congrArg _ h.reading
  refine ⟨congrArg Prod.fst hsame, hn, cs, ?_⟩
  change Mirrors cs _ { b with reading := (r.run b.reading).2 }
    { d with reading := (r.run d.reading).2 }
  rw [hsame]
  exact h.read _

/-- What is read here is read there. -/
theorem sim_resolving {r : Resolve α} {k : α → Build γ} {k' : α → Assemble δ}
    (h : ∀ a, Sim (Mirrored n) (k a) (k' a) R) :
    Sim (Mirrored n) (Build.resolving r >>= k) (Assemble.resolving r >>= k') R := by
  intro b d hp
  obtain ⟨hsame, hread⟩ := mirrored_resolving r hp
  rw [run_bind, run_bind, hsame]
  exact h _ _ _ hread

/-- Reading that leaves the location leaves what is said of it. -/
theorem sim_steady {r : Resolve α} (hr : Steady r) {k : α → Build γ} {k' : α → Assemble δ}
    (h : ∀ a, Sim (fun b d => Mirrored n b d ∧ b.reading.location = l) (k a) (k' a) R) :
    Sim (fun b d => Mirrored n b d ∧ b.reading.location = l) (Build.resolving r >>= k)
      (Assemble.resolving r >>= k') R := by
  intro b d hp
  obtain ⟨hsame, hread⟩ := mirrored_resolving r hp.1
  rw [run_bind, run_bind, hsame]
  exact h _ _ _ ⟨hread, (hr b.reading).1.trans hp.2⟩

/-- A body is written here; there its tree is resolved and laid out. -/
theorem sim_body {content : List Command} {k : NodeId → Build γ} {k' : Body → NodeId → Assemble δ}
    (h : ∀ i body start, body.opening = l → Sim (Placed n i start) (k i) (k' body start) R) :
    Sim (fun b d => Mirrored n b d ∧ b.reading.location = l) (Build.addBody content >>= k)
      (Assemble.resolving (resolveBody content) >>= fun body => Assemble.layOut body >>= k' body)
      R := by
  rintro b d ⟨⟨hn, cs, hm⟩, hl⟩
  let body := ((resolveBody content).run d.reading).1
  refine h ((Build.addBody content).run b).1 body d.code.size ?_ ((Build.addBody content).run b).2 _ ?_
  · exact (congrArg Reading.location hm.reading).trans hl
  · have hread := hm.read ((resolveBody content).run d.reading).2
    rw [run_addBody, ← hm.reading]
    obtain ⟨hmem, hplace⟩ := hread.place_write body
    exact ⟨hn, _, hread.write body, hmem, hplace⟩

end

section
variable {n : Nat} {i start : NodeId}

theorem Placed.mirrored {b : Builder} {d : Draft} (h : Placed n i start b d) : Mirrored n b d :=
  ⟨h.1, h.2.imp fun _ h => h.1⟩

theorem sim_addTemplate {t t' : Template} (ht : t.body = i) (ht' : { t with body := start } = t') :
    Sim (Placed n i start) (Build.addTemplate t) (Assemble.addTemplate t')
      fun _ _ => Placed n i start := by
  subst ht ht'
  rintro b d ⟨hn, cs, h, hi, rfl⟩
  have hsize : ((Build.addTemplate t).run b).2.groups.size = b.groups.size := Array.size_modify
  rw [Placed, hsize]
  exact ⟨hn, cs, h.addTemplate t hi, hi, rfl⟩

theorem sim_addProcedure {q q' : Procedure} (hq : q.body = i) (hq' : { q with body := start } = q') :
    Sim (Placed n i start) (Build.addProcedure q) (Assemble.addProcedure q')
      fun _ _ => Mirrored n := by
  subst hq hq'
  rintro b d ⟨hn, cs, h, hi, rfl⟩
  have hsize : ((Build.addProcedure q).run b).2.groups.size = b.groups.size := Array.size_modify
  rw [Mirrored, hsize]
  exact ⟨hn, cs, h.addProcedure q hi⟩

theorem sim_addGroup (name : String) (parent : GroupId) :
    Sim (Mirrored n) (Build.addGroup name parent) (Assemble.addGroup name parent)
      fun g g' b d => g' = g ∧ Mirrored (max n (g + 1)) b d := by
  rintro b d ⟨hn, cs, h⟩
  have hsize : ((Build.addGroup name parent).run b).2.groups.size = b.groups.size + 1 :=
    Array.size_modify.trans (Array.size_push _)
  refine ⟨h.groups.size, ?_⟩
  rw [Mirrored, hsize]
  exact ⟨Nat.max_le.mpr ⟨Nat.le_succ_of_le hn, Nat.le_refl _⟩, cs, h.addGroup name parent⟩

end

/-! ### Whole scripts -/

section
variable {n : Nat} {g : GroupId}

/-- All alternatives of a pattern share a body. -/
theorem sim_template (source : String) (options : TemplateOptions) (content : List Command) :
    Sim (Mirrored n) ((Declaration.template source options content).add g)
      ((Declaration.template source options content).assemble g) fun _ _ => Mirrored n := by
  refine sim_location fun l => sim_steady (steady_pattern source) fun pattern =>
    sim_body fun i body start hl => ?_
  subst hl
  cases pattern with
  | none => exact sim_pure fun _ _ h => h.mirrored
  | some pattern =>
    let t (p : Path.PathPattern) (i : NodeId) : Template := ⟨p, source,
      options.priority.getD p.priority, options.visibility, options.recursionEntry, g,
      body.opening, i⟩
    have hadd (p : Path.PathPattern) : Sim (Placed n i start) (Build.addTemplate (t p i))
        (Assemble.addTemplate (t p start)) fun _ _ => Placed n i start := sim_addTemplate rfl rfl
    exact fun b d hp => (sim_forM hadd pattern.alternatives b d hp).mirrored

/-- Whether a group has a procedure of the name already is the same here and there. -/
theorem any_procedure {b : Builder} {d : Draft} {cs : List LinkedBody} {gs : List GroupId}
    (h : Mirrors cs gs b d) (name : String) :
    ((d.groups.getD g default).group.procedures.any fun id =>
      d.procedures[id]?.any fun q => q.name == name) =
    (b.groups.getD g default).group.procedures.any fun id =>
      b.procedures[id]?.any fun q => q.name == name := by
  have hlisted : (d.groups.getD g default).group.procedures =
      (b.groups.getD g default).group.procedures :=
    h.groups.getD (fun _ _ hR => (congrArg Group.procedures hR.group :)) rfl
  rw [hlisted, h.procedures]
  simp only [Array.getElem?_map, Option.any_map, Procedure.renumber]

theorem sim_procedure (name : String) (visibility : Visibility) (content : List Command) :
    Sim (Mirrored n) ((Declaration.procedure name visibility content).add g)
      ((Declaration.procedure name visibility content).assemble g) fun _ _ => Mirrored n := by
  have hbody (l : Location) : Sim (fun b d => Mirrored n b d ∧ b.reading.location = l)
      (do
        let body ← Build.addBody content
        Build.addProcedure ⟨name, g, visibility, l, body⟩)
      (do
        let b ← Assemble.resolving (resolveBody content)
        let start ← Assemble.layOut b
        Assemble.addProcedure ⟨name, g, visibility, b.opening, start⟩) fun _ _ => Mirrored n := by
    refine sim_body fun i body start hl => ?_
    subst hl
    exact sim_addProcedure rfl rfl
  rw [Declaration.add, Declaration.assemble]
  refine sim_location fun l => ?_
  have hite := sim_ite
    (fun b => (b.groups.getD g default).group.procedures.any fun id =>
      b.procedures[id]?.any fun q => q.name == name)
    (fun d => (d.groups.getD g default).group.procedures.any fun id =>
      d.procedures[id]?.any fun q => q.name == name)
    (fun b d (hp : Mirrored n b d ∧ b.reading.location = l) => any_procedure hp.1.2.choose_spec name)
    (sim_steady (steady_problem (.duplicateProcedure name)) fun _ => hbody l) (hbody l)
  exact fun b d hp => hite b d hp

/-- Whether a group has the name already is the same here and there. -/
theorem Mirrors.hasGroup {b : Builder} {d : Draft} {cs : List LinkedBody} {gs : List GroupId}
    (h : Mirrors cs gs b d) (name : String) : d.hasGroup name = b.hasGroup name := by
  have hnames : d.groups.map (fun e => e.group.name == some name) =
      b.groups.map fun e => e.group.name == some name :=
    h.groups.map_eq fun _ _ _ hR => by
      rw [hR.group]
      rfl
  have hany := congrArg (Array.any · id) hnames
  rw [Array.any_map, Array.any_map] at hany
  exact hany

/-- Two nodes are added, linked and closed. -/
theorem run_declareIn {b : Builder} (g : GroupId) (name : String) (c : Container)
    (h : (b.groups.getD g default).declared.contains name = false) :
    ((Build.declareIn g name c).run b).2 = { b with
      nodes := b.nodes ++ declarationNodes b.nodes.size c b.reading.location
      groups := b.groups.modify g (withDeclaration name b.nodes.size) } := by
  let l := b.reading.location
  let start : LinkedNode := ⟨⟨.container c, l, none⟩, none⟩
  let close : LinkedNode := ⟨⟨.closing b.nodes.size, l, none⟩, none⟩
  have hpush : (b.nodes.push start).push close = b.nodes ++ [start, close] := by
    rw [Array.appendList_cons, Array.appendList_cons, Array.appendList_nil]
  have hnodes : (((b.nodes.push start).push close).modify b.nodes.size
      fun x => { x with next := some (b.nodes.push start).size }).modify b.nodes.size
        (fun x => { x with close := some (b.nodes.push start).size }) =
      b.nodes ++ declarationNodes b.nodes.size c l := by
    have hset (f : LinkedNode → LinkedNode) (ns : List LinkedNode) :
        (b.nodes ++ ns).modify b.nodes.size f = b.nodes ++ ns.modify 0 f :=
      modify_appendList b.nodes ns 0 f
    rw [hpush, hset, hset, Array.size_push]
    rfl
  have hgroup : (Build.group g).run b = (b.groups.getD g default, b) := rfl
  rw [← hnodes, Build.declareIn, run_bind, hgroup, if_neg (by rw [h]; exact Bool.false_ne_true)]
  rfl

theorem sim_declareIn (hg : g < n) (name : String) (c : Container) :
    Sim (Mirrored n) (Build.declareIn g name c) (Assemble.declareIn g name c)
      fun _ _ => Mirrored n := by
  intro b d hp
  obtain ⟨hn, cs, h⟩ := hp
  have hsame : (d.groups.getD g default).declared = (b.groups.getD g default).declared :=
    h.groups.getD (fun _ _ hR => hR.declared) rfl
  have hbgroup : (Build.group g).run b = (b.groups.getD g default, b) := rfl
  have hdgroup : (Assemble.group g).run d = (d.groups.getD g default, d) := rfl
  cases hcontains : (b.groups.getD g default).declared.contains name with
  | true =>
    have hproblem := (mirrored_resolving (Resolve.problem (.duplicateGroupVariable name))
      ⟨hn, cs, h⟩).2
    have hb : (Build.declareIn g name c).run b =
        (Build.resolving (Resolve.problem (.duplicateGroupVariable name))).run b := by
      rw [Build.declareIn, run_bind, hbgroup, if_pos hcontains]
    have hd : (Assemble.declareIn g name c).run d =
        (Assemble.resolving (Resolve.problem (.duplicateGroupVariable name))).run d := by
      rw [Assemble.declareIn, run_bind, hdgroup, if_pos (hsame ▸ hcontains)]
    rw [hb, hd]
    exact hproblem
  | false =>
    have hlt : g < b.groups.size := Nat.lt_of_lt_of_le hg hn
    have hd : ((Assemble.declareIn g name c).run d).2 = { d with
        groups := d.groups.modify g
          (withStatement name (.enclose b.reading.location c [] b.reading.location)) } := by
      rw [Assemble.declareIn, run_bind, hdgroup, if_neg (by rw [hsame, hcontains]; exact Bool.false_ne_true), ← h.reading]
      rfl
    rw [run_declareIn g name c hcontains, hd, Mirrored, Array.size_modify]
    exact ⟨hn, cs, h.declare (List.mem_range.mpr hlt) List.nodup_range hlt name c _⟩

end

mutual

theorem Declaration.sim (g : GroupId) : ∀ (d : Declaration) (n : Nat), g < n →
    Sim (Mirrored n) (d.add g) (d.assemble g) fun _ _ => Mirrored n
  | .locate l, _, _ => fun b d hp => by
    rw [Declaration.add, Declaration.assemble]
    exact (mirrored_resolving (Resolve.locate l) hp).2
  | .bind q uri, _, _ => by
    rintro b d ⟨hn, cs, h⟩
    rw [Declaration.add, Declaration.assemble]
    have hread := h.read { b.reading with namespaces := b.reading.namespaces.bind q uri }
    refine ⟨hn, cs, ?_⟩
    rw [run_modify, run_modify, h.reading]
    exact hread
  | .template source options content, _, _ => sim_template source options content
  | .procedure name visibility content, _, _ => sim_procedure name visibility content
  | .group name members, n, _ => by
    -- the members are declared in the new group, so there is one group more for them
    have hadded : Sim (Mirrored n)
        (do
          let id ← Build.addGroup name g
          addAll id members)
        (do
          let id ← Assemble.addGroup name g
          assembleAll id members) fun _ _ => Mirrored n := by
      refine sim_bind (sim_addGroup name g) fun id id' b d ⟨hid, hp⟩ => ?_
      subst hid
      obtain ⟨hn, hm⟩ := sim_all id' members _ (Nat.le_max_right _ _) b d hp
      exact ⟨Nat.le_trans (Nat.le_max_left _ _) hn, hm⟩
    have hite := sim_ite (fun b => b.hasGroup name) (fun d => d.hasGroup name)
      (fun b d (hp : Mirrored n b d) => hp.2.choose_spec.hasGroup name)
      (sim_resolving (r := Resolve.problem (.duplicateGroup name)) fun _ => hadded) hadded
    rw [Declaration.add, Declaration.assemble]
    exact fun b d hp => hite b d hp
  | .variable name select, _, hg => sim_resolving fun e => sim_declareIn hg name _
  | .parameter name select, _, hg => sim_resolving fun e => sim_declareIn hg name _
  | .required name, _, hg => sim_declareIn hg name _

theorem sim_all (g : GroupId) : ∀ (ds : List Declaration) (n : Nat), g < n →
    Sim (Mirrored n) (addAll g ds) (assembleAll g ds) fun _ _ => Mirrored n
  | [], _, _ => sim_pure fun _ _ h => h
  | d :: ds, n, hg => sim_bind (d.sim g n hg) fun _ _ => sim_all g ds n hg

end

end StreamTransform.Script
