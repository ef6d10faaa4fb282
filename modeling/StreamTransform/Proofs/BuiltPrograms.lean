import StreamTransform.Proofs.Chains
import StreamTransform.Proofs.Declarations
import StreamTransform.Proofs.Visibility

/-!
# Built programs

What declarations are linked into, if they have no defect. Nothing refers to what does not exist.
Starts and ends belong together, contents are nested, and alternatives and branches are where they
belong. Every group lists what its members declare, with bodies that are chains of what is written in
them, and leads through its parents to the outermost group. And what runs goes along the links.
-/

namespace StreamTransform

/-! ## References -/

theorem lt_size_of_some {α : Type} {as : Array α} {i : Nat} {a : α} (h : as[i]? = some a) :
    i < as.size := (Array.getElem?_eq_some_iff.mp h).1

theorem exists_of_mem_toList {α : Type} {as : Array α} {a : α} (h : a ∈ as.toList) :
    ∃ i : Nat, as[i]? = some a := Array.mem_iff_getElem?.mp (Array.mem_toList_iff.mp h)

/-- The nodes that an instruction points to. -/
def Instruction.targets : Instruction → List NodeId
  | .condition _ other => other.toList
  | .when _ c => [c]
  | .closing start => [start]
  | .body | .act _ | .container _ | .alternative | .choice | .otherwise => []

/-- The groups that an instruction declares a variable of. -/
def Instruction.homes : Instruction → List GroupId
  | .container c =>
    match c.home? with
    | some (.group g) => [g]
    | _ => []
  | _ => []

/-- The groups from one on through its parents up to the outermost one. -/
inductive Ancestors (groups : Array Group) : GroupId → List GroupId → Prop
  | root {e : Group} : groups[Program.rootGroup]? = some e → e.parent = none →
      Ancestors groups Program.rootGroup [Program.rootGroup]
  | inner {g parent : GroupId} {e : Group} {path : List GroupId} : groups[g]? = some e →
      e.parent = some parent → Ancestors groups parent path → Ancestors groups g (g :: path)

theorem Ancestors.lt {groups : Array Group} {g : GroupId} {path : List GroupId}
    (h : Ancestors groups g path) : ∀ k ∈ path, k < groups.size := by
  induction h with
  | root he _ => exact List.forall_mem_singleton.mpr (lt_size_of_some he)
  | inner he _ _ ih => exact List.forall_mem_cons.mpr ⟨lt_size_of_some he, ih⟩

/-- Only parents matter. -/
theorem Ancestors.congr {groups groups' : Array Group} {g : GroupId} {path : List GroupId}
    (h : Ancestors groups g path) (hsame : ∀ (g : GroupId) (e : Group), groups[g]? = some e →
      ∃ e', groups'[g]? = some e' ∧ e'.parent = e.parent) : Ancestors groups' g path := by
  induction h with
  | root he hparent =>
    obtain ⟨e', he', hsame⟩ := hsame _ _ he
    exact .root he' (hsame.trans hparent)
  | inner he hparent _ ih =>
    obtain ⟨e', he', hsame⟩ := hsame _ _ he
    exact .inner he' (hsame.trans hparent) ih

namespace LinkedProgram

/-- All nodes that are referred to. -/
def nodeIds (p : LinkedProgram) : List NodeId :=
  p.nodes.toList.flatMap
      (fun n => n.instruction.targets ++ n.close.toList ++ n.next.toList) ++
    p.templates.toList.map Template.body ++ p.procedures.toList.map Procedure.body ++
    p.groups.toList.flatMap fun e => e.initialiser.toList

def templateIds (p : LinkedProgram) : List TemplateId :=
  p.globals ++ p.groups.toList.flatMap fun e => e.templates ++ e.candidates

def procedureIds (p : LinkedProgram) : List ProcedureId :=
  p.groups.toList.flatMap Group.procedures

def groupIds (p : LinkedProgram) : List GroupId :=
  Program.rootGroup :: p.nodes.toList.flatMap (fun n => n.instruction.homes) ++
    p.templates.toList.map Template.group ++ p.procedures.toList.map Procedure.group ++
    p.groups.toList.flatMap fun e => e.parent.toList ++ e.children ++ e.ancestry

/-- Nothing is referred to that does not exist. -/
structure InRange (p : LinkedProgram) : Prop where
  nodes : ∀ i ∈ p.nodeIds, i < p.nodes.size
  templates : ∀ id ∈ p.templateIds, id < p.templates.size
  procedures : ∀ id ∈ p.procedureIds, id < p.procedures.size
  groups : ∀ g ∈ p.groupIds, g < p.groups.size

/-- What is seen of a program: bodies are chains. -/
def view (p : LinkedProgram) : Script.View where
  template? id := p.templates[id]?
  procedure? id := p.procedures[id]?
  group? g := p.groups[g]?
  body := Chain p.nodes

/-- A program that declarations are linked into. -/
structure IsMadeOf (p : LinkedProgram) (declarations : List Script.Declaration) : Prop where
  inRange : p.InRange
  paired : Paired p.nodes
  /-- All nodes are linked: along the links each is met from the start of a body on. -/
  linked : ∀ i < p.nodes.size, ∃ b n, p.nodes[b]? = some n ∧ n.instruction = .body ∧
    (b = i ∨ Ahead p.nodes b i)
  /-- The alternative of a condition follows the end of the condition. -/
  alternative : ∀ (i a : NodeId) (n : LinkedNode) (test : Path.Expr), p.nodes[i]? = some n →
    n.instruction = .condition test (some a) → ∃ c m o, n.close = some c ∧ p.nodes[c]? = some m ∧
      m.next = some a ∧ p.nodes[a]? = some o ∧ o.instruction = .alternative
  /-- A branch belongs to the choice that encloses it, and nothing lies between the two. -/
  branch : ∀ (i c : NodeId) (n : LinkedNode) (test : Path.Expr), p.nodes[i]? = some n →
    n.instruction = .when test c → (∃ m, p.nodes[c]? = some m ∧ m.instruction = .choice) ∧
      Surrounds p.nodes c i ∧ ∀ b, Surrounds p.nodes b i → b = c ∨ Surrounds p.nodes b c
  /-- Groups list their members, and their initialisers are chains of the variables among them. -/
  members : ∃ members : GroupId → List Script.Declaration,
    members Program.rootGroup = declarations ∧
    ∀ (g : GroupId) (e : Group), p.groups[g]? = some e → p.view.Lists members g e (members g) ∧
      p.view.Starts ((members g).flatMap (Script.Declaration.labels g)) e.initialiser
  /-- All templates and procedures are listed in their groups, and all groups in their parents. -/
  template : ∀ (id : TemplateId) (t : Template), p.templates[id]? = some t →
    ∃ e, p.groups[t.group]? = some e ∧ id ∈ e.templates
  procedure : ∀ (id : ProcedureId) (q : Procedure), p.procedures[id]? = some q →
    ∃ e, p.groups[q.group]? = some e ∧ id ∈ e.procedures
  child : ∀ (g parent : GroupId) (e : Group), p.groups[g]? = some e → e.parent = some parent →
    ∃ e', p.groups[parent]? = some e' ∧ g ∈ e'.children
  ancestry : ∀ (g : GroupId) (e : Group), p.groups[g]? = some e →
    Ancestors p.groups g e.ancestry ∧ e.ancestry.Nodup
  /-- What runs stands for a node, ends where none follows, and goes along the links where no
  instruction says otherwise. -/
  execution : ∀ (env : Environment) (d : Deed), env.program = p.layOut → d.Happens env →
    ∃ i n, (linkOrder p.nodes)[d.frame.cursor]? = some i ∧ p.nodes[i]? = some n ∧
      (d.flow = .done ↔ n.next = none) ∧
      ((∃ a, n.instruction = .act a) ∨ n.instruction.isPlain → ∃ f j, d.flow.frame? = some f ∧
        n.next = some j ∧ (linkOrder p.nodes)[f.cursor]? = some j)

/-! ## Places -/

/-- A program is laid out along its links, and bodies start at its nodes. -/
structure Anchored (p : LinkedProgram) : Prop where
  laidOut : LaidOut p.nodes (linkOrder p.nodes) p.layOut.code
  template : ∀ t ∈ p.templates, t.body < p.nodes.size
  procedure : ∀ q ∈ p.procedures, q.body < p.nodes.size
  initialiser : ∀ e ∈ p.groups, ∀ i, e.initialiser = some i → i < p.nodes.size

variable {p : LinkedProgram}

theorem group_layOut {g : GroupId} {e : Group} (he : p.groups[g]? = some e) :
    p.layOut.groups[g]? = some (e.renumber (linkOrder p.nodes).idxOf) := by
  rw [layOut, Array.getElem?_map, he, Option.map_some]

section
variable (h : p.Anchored) (hw : WellNested p.layOut.code)

include h hw

theorem targets_lt (hp : Pointed p.layOut.code) {i j : NodeId} {n : LinkedNode}
    (hn : p.nodes[i]? = some n)
    (hj : j ∈ n.instruction.targets ++ n.close.toList ++ n.next.toList) : j < p.nodes.size := by
  rcases List.mem_append.mp hj with hj | hj
  · rcases List.mem_append.mp hj with hj | hj
    · unfold Instruction.targets at hj
      split at hj
      next test a hi =>
        obtain rfl := Option.mem_toList.mp hj
        obtain ⟨c, m, o, -, -, -, ho, -⟩ := h.laidOut.alternative hw hp hn hi
        exact lt_size_of_some ho
      next test c hi =>
        obtain rfl := List.mem_singleton.mp hj
        obtain ⟨⟨m, hm, -⟩, -⟩ := h.laidOut.branch hw hp hn hi
        exact lt_size_of_some hm
      next b hi =>
        obtain rfl := List.mem_singleton.mp hj
        obtain ⟨o, ho, -⟩ := (h.laidOut.paired hw).closing i _ n hn hi
        exact lt_size_of_some ho
      all_goals exact absurd hj List.not_mem_nil
    · obtain ⟨m, hm, -⟩ := h.laidOut.exists_closing hw hn (Option.mem_toList.mp hj)
      exact lt_size_of_some hm
  · rcases h.laidOut.next _ i n (h.laidOut.place hn) hn with ⟨-, hnone⟩ | ⟨-, j', hnext, hplace⟩
    · rw [hnone] at hj
      exact absurd hj List.not_mem_nil
    · rw [hnext] at hj
      obtain rfl := List.mem_singleton.mp hj
      exact h.laidOut.mem_iff.mp (List.mem_of_getElem? hplace)

/-- Bodies start at nodes, and instructions and links point to nodes. -/
theorem nodeIds_lt (hp : Pointed p.layOut.code) : ∀ i ∈ p.nodeIds, i < p.nodes.size := by
  intro i hi
  simp only [nodeIds, List.mem_append, List.mem_flatMap, List.mem_map] at hi
  rcases hi with ((⟨n, hn, hi⟩ | ⟨t, ht, rfl⟩) | ⟨q, hq, rfl⟩) | ⟨e, he, hi⟩
  · obtain ⟨j, hj⟩ := exists_of_mem_toList hn
    exact targets_lt h hw hp hj (by simpa only [List.mem_append] using hi)
  · exact h.template t (Array.mem_toList_iff.mp ht)
  · exact h.procedure q (Array.mem_toList_iff.mp hq)
  · exact h.initialiser e (Array.mem_toList_iff.mp he) i (Option.mem_toList.mp hi)

end

theorem templateIds_lt (hr : p.layOut.Ranked) (hlisted : ∀ (g : GroupId) (e : Group),
    p.groups[g]? = some e → ∀ id ∈ e.templates, ∃ t, p.templates[id]? = some t) :
    ∀ id ∈ p.templateIds, id < p.templates.size := by
  have hsize {id : TemplateId} {t : Template} (ht : p.layOut.templates[id]? = some t) :
      id < p.templates.size := by
    have hlt := lt_size_of_some ht
    rwa [layOut, Array.size_map] at hlt
  intro id hid
  simp only [templateIds, List.mem_append, List.mem_flatMap] at hid
  rcases hid with hid | ⟨e, he, hid | hid⟩
  · obtain ⟨t, ht, -⟩ := (hr.everywhere id).mp hid
    exact hsize ht
  · obtain ⟨g, he⟩ := exists_of_mem_toList he
    obtain ⟨t, ht⟩ := hlisted g e he id hid
    exact lt_size_of_some ht
  · obtain ⟨g, he⟩ := exists_of_mem_toList he
    have hcandidates : id ∈ (p.layOut.group g).candidates := by
      rw [Program.group, Array.getD_eq_getD_getElem?, group_layOut he]
      exact hid
    obtain ⟨t, ht, -⟩ := (hr.visible g id).mp hcandidates
    exact hsize ht

theorem procedureIds_lt (hlisted : ∀ (g : GroupId) (e : Group), p.groups[g]? = some e →
    ∀ id ∈ e.procedures, ∃ q, p.procedures[id]? = some q) :
    ∀ id ∈ p.procedureIds, id < p.procedures.size := by
  intro id hid
  obtain ⟨e, he, hid⟩ := List.mem_flatMap.mp hid
  obtain ⟨g, he⟩ := exists_of_mem_toList he
  obtain ⟨q, hq⟩ := hlisted g e he id hid
  exact lt_size_of_some hq

theorem size_groups_layOut : p.layOut.groups.size = p.groups.size := Array.size_map

theorem homes_lt (h : p.Anchored) (hh : p.layOut.Homed) {i : NodeId} {n : LinkedNode}
    (hn : p.nodes[i]? = some n) : ∀ g ∈ n.instruction.homes, g < p.groups.size := by
  intro g hg
  unfold Instruction.homes at hg
  split at hg
  next c hc =>
    split at hg
    next g' hhome =>
      obtain rfl := List.mem_singleton.mp hg
      have hflat : (n.renumber (linkOrder p.nodes).idxOf).instruction = .container c := by
        rw [Node.renumber, hc]
        rfl
      exact size_groups_layOut (p := p) ▸
        hh.code _ _ (h.laidOut.code_of_some hn) c hflat _ hhome
    next => exact absurd hg List.not_mem_nil
  next => exact absurd hg List.not_mem_nil

theorem groupIds_lt (h : p.Anchored) (hh : p.layOut.Homed)
    (hroot : Program.rootGroup < p.groups.size)
    (htemplate : ∀ (id : TemplateId) (t : Template), p.templates[id]? = some t →
      ∃ e, p.groups[t.group]? = some e)
    (hprocedure : ∀ (id : ProcedureId) (q : Procedure), p.procedures[id]? = some q →
      ∃ e, p.groups[q.group]? = some e)
    (hparent : ∀ (g parent : GroupId) (e : Group), p.groups[g]? = some e →
      e.parent = some parent → ∃ e', p.groups[parent]? = some e')
    (hchild : ∀ (g : GroupId) (e : Group), p.groups[g]? = some e → ∀ c ∈ e.children,
      ∃ e', p.groups[c]? = some e')
    (hancestry : ∀ (g : GroupId) (e : Group), p.groups[g]? = some e →
      Ancestors p.groups g e.ancestry) :
    ∀ g ∈ p.groupIds, g < p.groups.size := by
  intro g hg
  simp only [groupIds, List.mem_append, List.mem_cons, List.mem_flatMap, List.mem_map] at hg
  rcases hg with (((rfl | ⟨n, hn, hg⟩) | ⟨t, ht, rfl⟩) | ⟨q, hq, rfl⟩) | ⟨e, he, hg⟩
  · exact hroot
  · obtain ⟨i, hn⟩ := exists_of_mem_toList hn
    exact homes_lt h hh hn g hg
  · obtain ⟨id, ht⟩ := exists_of_mem_toList ht
    obtain ⟨e, he⟩ := htemplate id t ht
    exact lt_size_of_some he
  · obtain ⟨id, hq⟩ := exists_of_mem_toList hq
    obtain ⟨e, he⟩ := hprocedure id q hq
    exact lt_size_of_some he
  · obtain ⟨k, he⟩ := exists_of_mem_toList he
    rcases hg with (hg | hg) | hg
    · obtain ⟨e', he'⟩ := hparent k g e he (Option.mem_toList.mp hg)
      exact lt_size_of_some he'
    · obtain ⟨e', he'⟩ := hchild k e he g hg
      exact lt_size_of_some he'
    · exact (hancestry k e he).lt g hg

theorem isPlain_renumber (f : NodeId → NodeId) (i : Instruction) :
    (i.renumber f).isPlain = i.isPlain := by
  cases i <;> rfl

/-- What runs goes along the links. -/
theorem goes (h : p.Anchored) {env : Environment} {d : Deed} (henv : env.program = p.layOut)
    (hw : WellNested p.layOut.code) (hd : d.Happens env) :
    ∃ i n, (linkOrder p.nodes)[d.frame.cursor]? = some i ∧ p.nodes[i]? = some n ∧
      (d.flow = .done ↔ n.next = none) ∧
      ((∃ a, n.instruction = .act a) ∨ n.instruction.isPlain → ∃ f j, d.flow.frame? = some f ∧
        n.next = some j ∧ (linkOrder p.nodes)[f.cursor]? = some j) := by
  have hdone := hd.done_iff (henv ▸ hw)
  have hnode := hd.node
  rw [henv] at hdone hnode
  obtain ⟨i, n, hi, hn, hsame⟩ := h.laidOut.some_of_code hnode
  refine ⟨i, n, hi, hn, ?_, fun hplain => ?_⟩
  · rw [hdone]
    rcases h.laidOut.next _ i n hi hn with ⟨hends, hnone⟩ | ⟨hnot, j, hj, -⟩
    · exact ⟨fun _ => hnone, fun _ => hends⟩
    · exact ⟨fun hends => absurd hends hnot,
        fun hnone => absurd (hj.symm.trans hnone) (Option.some_ne_none j)⟩
  · have hflat : (∃ a, d.node.instruction = .act a) ∨ d.node.instruction.isPlain := by
      rw [hsame, Node.renumber, isPlain_renumber]
      refine hplain.imp_left (Exists.imp fun a ha => ?_)
      rw [ha]
      rfl
    obtain ⟨f, hf, hcursor⟩ := hd.follows hflat
    rcases h.laidOut.next _ i n hi hn with ⟨hends, -⟩ | ⟨-, j, hj, hplace⟩
    · rw [hdone.mpr hends] at hf
      cases hf
    · exact ⟨f, j, hf, hj, hcursor ▸ hplace⟩

end LinkedProgram

/-! ## Groups -/

namespace Script

open Assemble

section
variable {d : Draft} {w : Progress}

theorem program_some {g : GroupId} {e : GroupDraft} (h : d.groups[g]? = some e) :
    d.program.groups[g]? = some (d.complete g e) := by
  rw [d.getElem?_program, h, Option.map_some]

theorem ancestryOf_none (groups : Array Group) (k : Nat) : ancestryOf groups k none = [] := by
  cases k <;> rfl

/-- The way from a group to the outermost one passes groups that were opened earlier. -/
theorem ancestors_of_rooted (h : d.Rooted) {k : Nat} {g : GroupId} {e : GroupDraft}
    (hk : g < k) (he : d.groups[g]? = some e) :
    let path := ancestryOf (d.groups.map GroupDraft.group) k (some g)
    Ancestors d.program.groups g path ∧ path.Nodup ∧ ∀ x ∈ path, x ≤ g := by
  induction k generalizing g e with
  | zero => exact absurd hk (Nat.not_lt_zero g)
  | succ k ih =>
    have hparent : (d.groups.map GroupDraft.group)[g]?.bind Group.parent = e.group.parent := by
      rw [Array.getElem?_map, he]
      rfl
    rw [ancestryOf, hparent]
    rcases h g e he with ⟨rfl, hnone⟩ | ⟨up, hlt, hup⟩
    · rw [hnone, ancestryOf_none]
      refine ⟨.root (program_some he) hnone, List.pairwise_singleton _ _, fun x hx => ?_⟩
      exact Nat.le_of_eq (List.mem_singleton.mp hx)
    · have he' := Array.getElem?_eq_getElem (Nat.lt_trans hlt (lt_size_of_some he))
      obtain ⟨hpath, hnodup, hle⟩ := ih (Nat.lt_of_lt_of_le hlt (Nat.le_of_lt_succ hk)) he'
      rw [hup]
      refine ⟨.inner (program_some he) hup hpath, List.nodup_cons.mpr ⟨fun hg => ?_, hnodup⟩,
        List.forall_mem_cons.mpr ⟨Nat.le_refl g, fun x hx => ?_⟩⟩
      · exact Nat.not_lt.mpr (hle g hg) hlt
      · exact Nat.le_of_lt (Nat.lt_of_le_of_lt (hle x hx) hlt)

end

/-! ## Linked programs -/

theorem link_of_built {declarations : List Declaration}
    (h : (built declarations).reading.problems.isEmpty) :
    link declarations = .ok (built declarations).program := if_pos h

theorem built_of_link {declarations : List Declaration} {p : LinkedProgram}
    (h : link declarations = .ok p) : build declarations = .ok p.layOut ∧
      (draft declarations).reading.problems = [] ∧ p = (built declarations).program := by
  have hbuild : build declarations = .ok p.layOut := by
    rw [build, h]
    rfl
  refine ⟨hbuild, (draft_of_build hbuild).1, ?_⟩
  unfold link at h
  simp only at h
  split at h
  next => exact (Except.ok.inj h).symm
  next => cases h

/-- What is built is laid out along its links. -/
theorem anchored_built (ds : List Declaration) : (built ds).program.Anchored := by
  obtain ⟨cs, h⟩ := mirrors_built ds
  have hlt {i : NodeId} (hi : i ∈ ordered cs) : i < (built ds).nodes.size :=
    List.mem_range.mp (h.perm.mem_iff.mp hi)
  refine ⟨?_, fun t ht => hlt (h.template t ht), fun q hq => hlt (h.procedure q hq),
    fun e he i hi => ?_⟩
  · rw [h.layOut_eq]
    exact laidOut_built ds
  · obtain ⟨g, he⟩ := Array.mem_iff_getElem?.mp he
    simp only [Builder.program, completed, Array.getElem?_mapIdx, Array.getElem?_map] at he
    obtain ⟨e₁, he₁, rfl⟩ := Option.map_eq_some_iff.mp he
    obtain ⟨e₀, he₀, rfl⟩ := Option.map_eq_some_iff.mp he₁
    obtain ⟨e, e', hsome, -, hR⟩ := h.groups.exists_of_lt (lt_size_of_some he₀)
    obtain rfl := Option.some.inj (hsome.symm.trans he₀)
    exact hlt (hR.initialiser i hi)

section
variable {p : LinkedProgram} {d : Draft} (hp : p.layOut = d.program)

include hp

theorem some_linked {g : GroupId} {e : Group} (he : p.groups[g]? = some e) :
    ∃ e₀, d.groups[g]? = some e₀ ∧ e.renumber (linkOrder p.nodes).idxOf = d.complete g e₀ := by
  have hflat := LinkedProgram.group_layOut he
  rw [hp, d.getElem?_program] at hflat
  obtain ⟨e₀, he₀, hsame⟩ := Option.map_eq_some_iff.mp hflat
  exact ⟨e₀, he₀, hsame.symm⟩

theorem linked_some {g : GroupId} {e₀ : GroupDraft} (he₀ : d.groups[g]? = some e₀) :
    ∃ e, p.groups[g]? = some e ∧ e.renumber (linkOrder p.nodes).idxOf = d.complete g e₀ := by
  have hflat := program_some he₀
  rw [← hp, LinkedProgram.layOut, Array.getElem?_map] at hflat
  exact Option.map_eq_some_iff.mp hflat

theorem template_linked (hd : d.Membered) {id : TemplateId} {t : Template}
    (ht : p.templates[id]? = some t) : ∃ e, p.groups[t.group]? = some e ∧ id ∈ e.templates := by
  have hflat : d.templates[id]? = some (t.renumber (linkOrder p.nodes).idxOf) := by
    change d.program.templates[id]? = _
    rw [← hp, LinkedProgram.layOut, Array.getElem?_map, ht, Option.map_some]
  have hgroup : d.groupOf id = some t.group := congrArg (Option.map Template.group) hflat
  have he₀ := Array.getElem?_eq_getElem (hd.placed id _ hgroup)
  obtain ⟨e, he, hsame⟩ := linked_some hp he₀
  have htemplates : e.templates = _ := (congrArg Group.templates hsame :)
  exact ⟨e, he, htemplates ▸ (hd.templates _ _ he₀ id).mpr hgroup⟩

theorem procedure_linked {w : Progress} (hd : d.Stems w) {id : ProcedureId} {q : Procedure}
    (hq : p.procedures[id]? = some q) : ∃ e, p.groups[q.group]? = some e ∧ id ∈ e.procedures := by
  have hflat : d.procedures[id]? = some (q.renumber (linkOrder p.nodes).idxOf) := by
    change d.program.procedures[id]? = _
    rw [← hp, LinkedProgram.layOut, Array.getElem?_map, hq, Option.map_some]
  obtain ⟨e₀, he₀, hid⟩ := hd.listed id _ hflat
  obtain ⟨e, he, hsame⟩ := linked_some hp he₀
  have hprocedures : e.procedures = _ := (congrArg Group.procedures hsame :)
  exact ⟨e, he, hprocedures ▸ hid⟩

theorem child_linked (hd : d.Membered) {g parent : GroupId} {e : Group}
    (he : p.groups[g]? = some e) (hparent : e.parent = some parent) :
    ∃ e', p.groups[parent]? = some e' ∧ g ∈ e'.children := by
  obtain ⟨e₀, he₀, hsame⟩ := some_linked hp he
  have hof : d.parentOf g = some parent := by
    rw [Draft.parentOf, he₀]
    exact (congrArg Group.parent hsame.symm :).trans hparent
  have he₁ := Array.getElem?_eq_getElem (hd.parented g _ hof)
  obtain ⟨e', he', hsame'⟩ := linked_some hp he₁
  have hchildren : e'.children = _ := (congrArg Group.children hsame' :)
  exact ⟨e', he', hchildren ▸ (hd.children _ _ he₁ g).mpr hof⟩

theorem ancestry_linked (hd : d.Rooted) {g : GroupId} {e : Group} (he : p.groups[g]? = some e) :
    Ancestors p.groups g e.ancestry ∧ e.ancestry.Nodup := by
  obtain ⟨e₀, he₀, hsame⟩ := some_linked hp he
  obtain ⟨hpath, hnodup, -⟩ := ancestors_of_rooted hd (lt_size_of_some he₀) he₀
  have hancestry : e.ancestry = _ := (congrArg Group.ancestry hsame :)
  rw [hancestry]
  refine ⟨hpath.congr fun c e₁ hc => ?_, hnodup⟩
  rw [← hp, LinkedProgram.layOut, Array.getElem?_map] at hc
  obtain ⟨e₂, he₂, rfl⟩ := Option.map_eq_some_iff.mp hc
  exact ⟨e₂, he₂, rfl⟩

end

section
variable {p : LinkedProgram} {d : Draft} (h : p.Anchored)

include h

/-- A place leads back to its node. -/
theorem getD_place {i : NodeId} (hi : i < p.nodes.size) :
    (linkOrder p.nodes).getD ((linkOrder p.nodes).idxOf i) 0 = i := by
  rw [List.getD_eq_getElem?_getD, h.laidOut.place (Array.getElem?_eq_getElem hi), Option.getD_some]

variable (hp : p.layOut = d.program)

include hp

/-- A program shows what its draft shows: a body that is laid out is a chain. -/
theorem view_within_linked (hw : StreamTransform.WellNested d.code) :
    d.view.Within p.view fun k => (linkOrder p.nodes).getD k 0 where
  template id t ht := by
    have hflat : p.layOut.templates[id]? = some t := by
      rw [hp]
      exact ht
    rw [LinkedProgram.layOut, Array.getElem?_map] at hflat
    obtain ⟨t, hsome, rfl⟩ := Option.map_eq_some_iff.mp hflat
    have hback := getD_place h (h.template t (Array.mem_of_getElem? hsome))
    refine hsome.trans (congrArg some ?_)
    simp only [Template.renumber, hback]
  procedure id q hq := by
    have hflat : p.layOut.procedures[id]? = some q := by
      rw [hp]
      exact hq
    rw [LinkedProgram.layOut, Array.getElem?_map] at hflat
    obtain ⟨q, hsome, rfl⟩ := Option.map_eq_some_iff.mp hflat
    have hback := getD_place h (h.procedure q (Array.mem_of_getElem? hsome))
    refine hsome.trans (congrArg some ?_)
    simp only [Procedure.renumber, hback]
  group c e hc := by
    obtain ⟨e₀, he₀, rfl⟩ := Option.map_eq_some_iff.mp hc
    obtain ⟨e, he, hsame⟩ := linked_some hp he₀
    exact ⟨e, he, (congrArg Group.name hsame :), (congrArg Group.parent hsame :)⟩
  body k ls hb := by
    obtain ⟨body, hs, hl⟩ := hb
    have hlaid := h.laidOut
    rw [hp] at hlaid
    obtain ⟨b, hk⟩ := hlaid.exists_of_lt_size (lt_size_of_some hs.head)
    rw [List.getD_eq_getElem?_getD, hk]
    exact hlaid.chain hw hs hl hk

/-- In the end groups list all of their members. -/
theorem Settled.linked {w : Progress} (hd : Settled w [] d)
    (hw : StreamTransform.WellNested d.code) {g : GroupId} {e : Group}
    (he : p.groups[g]? = some e) : p.view.Lists w.members g e (w.members g) ∧
      p.view.Starts ((w.members g).flatMap (Declaration.labels g)) e.initialiser := by
  have hwithin := view_within_linked h hp hw
  obtain ⟨e₀, he₀, hsame⟩ := some_linked hp he
  have hwhole := hd.whole g (lt_size_of_some he₀)
  have hlists := hd.stems.lists g e₀ he₀
  have hstarts := (hd.laid g e₀ he₀ List.not_mem_nil).mono hwithin
  have hinitialiser : e₀.group.initialiser.map (fun k => (linkOrder p.nodes).getD k 0) =
      e.initialiser := by
    have hmoved : e.initialiser.map (linkOrder p.nodes).idxOf = e₀.group.initialiser :=
      congrArg Group.initialiser hsame
    rw [← hmoved, Option.map_map]
    refine (Option.map_congr fun i hi => ?_).trans Option.map_id_apply
    exact getD_place h (h.initialiser e (Array.mem_of_getElem? he) i hi)
  rw [hwhole] at hlists
  rw [Progress.labels, hwhole, hinitialiser] at hstarts
  exact ⟨hlists.mono hwithin (fun _ _ _ => rfl) (congrArg Group.templates hsame :)
    (congrArg Group.procedures hsame :) (congrArg Group.children hsame :), hstarts⟩

end

/-- Declarations without a defect make up a program with all of their members, in order. -/
theorem builds_chains {declarations : List Declaration} {p : LinkedProgram}
    (h : link declarations = .ok p) : p.IsMadeOf declarations := by
  obtain ⟨hbuild, hnone, rfl⟩ := built_of_link h
  have hp : (built declarations).program.layOut = (draft declarations).program :=
    (draft_of_build hbuild).2
  have hw := wellNested_of_build hbuild
  have hpointed := pointed_of_build hbuild
  have hanchored := anchored_built declarations
  have hmembered : (draft declarations).Membered :=
    membered_kept.of_draft membered_initial declarations
  obtain ⟨w, hroot, hd⟩ := settled_draft hnone
  have hwd : StreamTransform.WellNested (draft declarations).code := by
    have hcode := hw.code
    rwa [hp] at hcode
  have hmembers (g : GroupId) (e : Group) (he : (built declarations).program.groups[g]? = some e) :=
    hd.linked hanchored hp hwd he
  constructor
  case inRange =>
    refine ⟨LinkedProgram.nodeIds_lt hanchored hw.code hpointed,
      LinkedProgram.templateIds_lt (ranked_of_build hbuild) fun g e he =>
        (hmembers g e he).1.exists_template,
      LinkedProgram.procedureIds_lt fun g e he => (hmembers g e he).1.exists_procedure,
      LinkedProgram.groupIds_lt hanchored (homed_of_build hbuild) ?_ (fun id t ht => ?_)
        (fun id q hq => ?_) (fun g parent e he hparent => ?_)
        (fun g e he => (hmembers g e he).1.exists_group)
        fun g e he => (ancestry_linked hp hd.stems.rooted he).1⟩
    · obtain ⟨e, he, -⟩ := linked_some hp (Array.getElem?_eq_getElem hd.root)
      exact lt_size_of_some he
    · exact (template_linked hp hmembered ht).imp fun _ he => he.1
    · exact (procedure_linked hp hd.stems hq).imp fun _ he => he.1
    · exact (child_linked hp hmembered he hparent).imp fun _ he => he.1
  case paired => exact hanchored.laidOut.paired hw.code
  case linked => exact fun i hi => exists_start declarations hi
  case alternative => exact fun i a n test => hanchored.laidOut.alternative hw.code hpointed
  case branch => exact fun i c n test => hanchored.laidOut.branch hw.code hpointed
  case members => exact ⟨w.members, hroot, hmembers⟩
  case template => exact fun id t => template_linked hp hmembered
  case procedure => exact fun id q => procedure_linked hp hd.stems
  case child => exact fun g parent e => child_linked hp hmembered
  case ancestry => exact fun g e => ancestry_linked hp hd.stems.rooted
  case execution => exact fun env d henv => LinkedProgram.goes hanchored henv hw.code

/-- A template with two ways to go on between two variables, and a group with a variable and a
procedure. -/
def branchingScript : List Declaration := [
  .variable "u" "true()",
  .template "/" { priority := some 0 } [
    .either "true()" [.text "a"] [.choose [.when "true()" [.text "b"], .otherwise []]]],
  .required "w",
  .group "g" [.variable "v" "true()", .procedure "p" .parent [.text "c"]]]

def branchingProgram : LinkedProgram := (built branchingScript).program

theorem link_branching : link branchingScript = .ok branchingProgram :=
  link_of_built (by decide +kernel)

/-- The variables are linked behind a start that was added after all other bodies, past the nodes of
the template between them. -/
theorem builds_chains_branching : branchingProgram.IsMadeOf branchingScript ∧
    (branchingProgram.groups.map Group.initialiser).toList = [some 23, some 25] ∧
      follow branchingProgram.nodes branchingProgram.nodes.size (some 23) = [23, 0, 1, 16, 17, 24] ∧
      (branchingProgram.groups.map Group.ancestry).toList = [[0], [1, 0]] :=
  ⟨builds_chains link_branching, by decide +kernel⟩

end Script

end StreamTransform
