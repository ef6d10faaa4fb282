import StreamTransform.Proofs.Assembly

/-!
# Candidates of a group

A template can be selected in its own group and, if it is visible to the parent, in the parent of
its group; a template that is visible everywhere can be selected in every group after those. What
a script is assembled into lists for every group exactly these templates, the best first: the
higher priority, and of equal priorities the earlier declaration.
-/

namespace StreamTransform

namespace Program

/-- The template is declared in the group, or in a child of the group that shows it. -/
def IsVisible (p : Program) (g : GroupId) (id : TemplateId) : Prop :=
  ∃ t, p.templates[id]? = some t ∧
    (t.group = g ∨ t.visibility = .parent ∧ (p.group t.group).parent = some g)

/-- The template is visible everywhere. -/
def IsGlobal (p : Program) (id : TemplateId) : Prop :=
  ∃ t, p.templates[id]? = some t ∧ t.visibility = .everywhere

/-- The first template has the higher priority, or the same one and is declared earlier. -/
def Precedes (p : Program) (a b : TemplateId) : Prop :=
  ∃ t u, p.templates[a]? = some t ∧ p.templates[b]? = some u ∧
    (Decimal.orderKey u.priority < Decimal.orderKey t.priority ∨
      Decimal.orderKey t.priority = Decimal.orderKey u.priority ∧ a < b)

theorem Precedes.irrefl {p : Program} (id : TemplateId) : ¬ p.Precedes id id := by
  rintro ⟨t, u, ht, hu, h⟩
  obtain rfl := Option.some.inj (ht.symm.trans hu)
  grind

theorem Precedes.total {p : Program} {a b : TemplateId} {t u : Template}
    (ht : p.templates[a]? = some t) (hu : p.templates[b]? = some u) (h : ¬ p.Precedes a b)
    (h' : ¬ p.Precedes b a) : a = b := by
  have hab : ¬ _ := fun hp => h ⟨t, u, ht, hu, hp⟩
  have hba : ¬ _ := fun hp => h' ⟨u, t, hu, ht, hp⟩
  grind

/-- The lists of candidates are complete and in order. -/
structure Ranked (p : Program) : Prop where
  visible : ∀ g id, id ∈ (p.group g).candidates ↔ p.IsVisible g id
  sorted : ∀ g, (p.group g).candidates.Pairwise fun a b => ¬ p.Precedes b a
  everywhere : ∀ id, id ∈ p.globals ↔ p.IsGlobal id
  globalSorted : p.globals.Pairwise fun a b => ¬ p.Precedes b a

end Program

namespace Script

/-! ## Order -/

section
variable {templates : Array Template}

theorem precedes_trans (a b c : TemplateId) (h : precedes templates a b)
    (h' : precedes templates b c) : precedes templates a c := by
  simp only [precedes, Bool.or_eq_true, decide_eq_true_eq, Bool.and_eq_true, beq_iff_eq] at *
  grind

theorem precedes_total (a b : TemplateId) :
    (precedes templates a b || precedes templates b a) = true := by
  simp only [precedes, Bool.or_eq_true, decide_eq_true_eq, Bool.and_eq_true, beq_iff_eq]
  grind

theorem not_precedes_of_precedes {p : Program} {a b : TemplateId}
    (h : precedes p.templates a b) : ¬ p.Precedes b a := by
  rintro ⟨t, u, ht, hu, hp⟩
  simp only [precedes, ht, hu, Option.map_some, Option.getD_some, Bool.or_eq_true,
    decide_eq_true_eq, Bool.and_eq_true, beq_iff_eq] at h
  grind

theorem ranked_sorted {p : Program} (ids : List TemplateId) :
    (ranked p.templates ids).Pairwise fun a b => ¬ p.Precedes b a :=
  (List.pairwise_mergeSort precedes_trans precedes_total ids).imp not_precedes_of_precedes

theorem mem_ranked {ids : List TemplateId} {id : TemplateId} :
    id ∈ ranked templates ids ↔ id ∈ ids :=
  (List.mergeSort_perm ids (precedes templates)).mem_iff

theorem visibleAs_iff {v : Visibility} {id : TemplateId} :
    visibleAs templates v id = true ↔ ∃ t, templates[id]? = some t ∧ t.visibility = v := by
  simp [visibleAs, Option.any_eq_true]

end

/-! ## Membership in groups -/

/-- The group that a template is declared in. -/
def Draft.groupOf (d : Draft) (id : TemplateId) : Option GroupId :=
  d.templates[id]?.map Template.group

def Draft.parentOf (d : Draft) (g : GroupId) : Option GroupId :=
  d.groups[g]?.bind fun e => e.group.parent

/-- Groups list their templates and their children, all of which exist. -/
structure Draft.Membered (d : Draft) : Prop where
  templates : ∀ (g : GroupId) (e : GroupDraft), d.groups[g]? = some e → ∀ id,
    id ∈ e.group.templates ↔ d.groupOf id = some g
  children : ∀ (g : GroupId) (e : GroupDraft), d.groups[g]? = some e → ∀ c,
    c ∈ e.group.children ↔ d.parentOf c = some g
  placed : ∀ id g, d.groupOf id = some g → g < d.groups.size
  parented : ∀ c g, d.parentOf c = some g → g < d.groups.size

namespace Assemble

variable {n : Nat}

section
variable {d : Draft} {g : GroupId} {f : GroupDraft → GroupDraft}

theorem modifyGroup_some {groups : Array GroupDraft} {k : GroupId} {e : GroupDraft}
    (h : (groups.modify g f)[k]? = some e) :
    ∃ e', groups[k]? = some e' ∧ e = if g = k then f e' else e' := by
  rw [Array.getElem?_modify] at h
  split at h
  · rename_i hg
    obtain ⟨e', he, rfl⟩ := Option.map_eq_some_iff.1 h
    exact ⟨e', he, (if_pos hg).symm⟩
  · rename_i hg
    exact ⟨e, h, (if_neg hg).symm⟩

theorem parentOf_modifyGroup (hp : ∀ e, (f e).group.parent = e.group.parent) (c : GroupId) :
    ({ d with groups := d.groups.modify g f } : Draft).parentOf c = d.parentOf c := by
  simp only [Draft.parentOf, Array.getElem?_modify]
  split
  · cases d.groups[c]? <;> simp [hp]
  · rfl

/-- A change of a group that leaves its templates, its children and its parent alone. -/
theorem membered_modifyGroup (h : d.Membered) (ht : ∀ e, (f e).group.templates = e.group.templates)
    (hc : ∀ e, (f e).group.children = e.group.children)
    (hp : ∀ e, (f e).group.parent = e.group.parent) :
    ({ d with groups := d.groups.modify g f } : Draft).Membered := by
  refine ⟨fun k e he id => ?_, fun k e he c => ?_, fun id k hk => ?_, fun c k hk => ?_⟩
  · obtain ⟨e', he', rfl⟩ := modifyGroup_some he
    rw [show (if g = k then f e' else e').group.templates = e'.group.templates by
      split
      · exact ht e'
      · rfl]
    exact h.templates k e' he' id
  · obtain ⟨e', he', rfl⟩ := modifyGroup_some he
    rw [parentOf_modifyGroup hp, show (if g = k then f e' else e').group.children =
      e'.group.children by
        split
        · exact hc e'
        · rfl]
    exact h.children k e' he' c
  · rw [Array.size_modify]
    exact h.placed id k hk
  · rw [Array.size_modify]
    exact h.parented c k (by rwa [parentOf_modifyGroup hp] at hk)

end

/-- What is new is added to the list of one owner, and to no other list. -/
theorem mem_listed {l : List Nat} {owner owner' : Nat → Option GroupId} {new : Nat} {k p : GroupId}
    (hold : ∀ id, id ∈ l ↔ owner id = some k) (hnew : owner new = none)
    (howner : ∀ id, owner' id = if id = new then some p else owner id) (id : Nat) :
    id ∈ (if p = k then l ++ [new] else l) ↔ owner' id = some k := by
  rw [howner]
  by_cases hid : id = new
  · subst hid
    have hout := hold id
    rw [hnew] at hout
    by_cases hk : p = k <;> simp [hk, hout]
  · rw [if_neg hid, ← hold]
    by_cases hk : p = k <;> simp [hk, hid]

theorem owner_lt {owner owner' : Nat → Option GroupId} {new size id : Nat} {k p : GroupId}
    (hold : ∀ id k, owner id = some k → k < size) (hp : p < size)
    (howner : ∀ id, owner' id = if id = new then some p else owner id)
    (h : owner' id = some k) : k < size := by
  rw [howner] at h
  split at h
  · exact Option.some.inj h ▸ hp
  · exact hold id k h

/-! ### A new template -/

def listTemplate (id : TemplateId) (e : GroupDraft) : GroupDraft :=
  { e with group := { e.group with templates := e.group.templates ++ [id] } }

/-- The draft with one more template. -/
def withTemplate (d : Draft) (t : Template) : Draft :=
  { d with
    templates := d.templates.push t
    groups := d.groups.modify t.group (listTemplate d.templates.size) }

section
variable {d : Draft} {t : Template}

theorem groupOf_withTemplate (id : TemplateId) : (withTemplate d t).groupOf id =
    if id = d.templates.size then some t.group else d.groupOf id := by
  simp only [Draft.groupOf, withTemplate, Array.getElem?_push]
  split <;> rfl

theorem parentOf_withTemplate (c : GroupId) : (withTemplate d t).parentOf c = d.parentOf c :=
  parentOf_modifyGroup (d := { d with templates := d.templates.push t })
    (f := listTemplate d.templates.size) (fun _ => rfl) c

theorem membered_withTemplate (h : d.Membered) (ht : t.group < d.groups.size) :
    (withTemplate d t).Membered := by
  have hsize : (withTemplate d t).groups.size = d.groups.size := Array.size_modify
  refine ⟨fun k e he id => ?_, fun k e he c => ?_, fun id k hk => ?_, fun c k hk => ?_⟩
  · obtain ⟨e', he', rfl⟩ := modifyGroup_some he
    have hnew : d.groupOf d.templates.size = none := by simp [Draft.groupOf]
    rw [← mem_listed (h.templates k e' he') hnew groupOf_withTemplate id]
    split <;> rfl
  · obtain ⟨e', he', rfl⟩ := modifyGroup_some he
    rw [parentOf_withTemplate, ← h.children k e' he' c]
    split <;> rfl
  · rw [hsize]
    exact owner_lt h.placed ht groupOf_withTemplate hk
  · rw [hsize]
    exact h.parented c k (parentOf_withTemplate c ▸ hk)

end

/-! ### A new group -/

def listChild (id : GroupId) (e : GroupDraft) : GroupDraft :=
  { e with group := { e.group with children := e.group.children ++ [id] } }

/-- The draft of a group that has nothing but a name and a parent. -/
def inside (name : String) (parent : GroupId) : GroupDraft :=
  ⟨{ (default : Group) with name := some name, parent := some parent }, [], []⟩

/-- The draft with one more group, inside another one. -/
def withGroup (d : Draft) (name : String) (parent : GroupId) : Draft :=
  { d with
    groups := (d.groups.push (inside name parent)).modify parent (listChild d.groups.size) }

section
variable {d : Draft} {name : String} {parent : GroupId}

theorem parentOf_withGroup (c : GroupId) : (withGroup d name parent).parentOf c =
    if c = d.groups.size then some parent else d.parentOf c := by
  have hpushed : (withGroup d name parent).parentOf c = _ :=
    parentOf_modifyGroup (d := { d with groups := d.groups.push (inside name parent) })
      (f := listChild d.groups.size) (fun _ => rfl) c
  rw [hpushed]
  simp only [Draft.parentOf, Array.getElem?_push]
  split <;> rfl

/-- A group is the new one, or an old one, to which the new one may be added. -/
theorem withGroup_some (hparent : parent < d.groups.size) {k : GroupId} {e : GroupDraft}
    (he : (withGroup d name parent).groups[k]? = some e) :
    (k = d.groups.size ∧ e = inside name parent) ∨
      ∃ e', d.groups[k]? = some e' ∧ e = if parent = k then listChild d.groups.size e' else e' := by
  obtain ⟨e', he', rfl⟩ := modifyGroup_some he
  rw [Array.getElem?_push] at he'
  split at he'
  · rename_i hk
    cases he'
    exact .inl ⟨hk, if_neg (hk ▸ Nat.ne_of_lt hparent)⟩
  · exact .inr ⟨e', he', rfl⟩

theorem membered_withGroup (h : d.Membered) (hparent : parent < d.groups.size) :
    (withGroup d name parent).Membered := by
  have hsize : (withGroup d name parent).groups.size = d.groups.size + 1 := by simp [withGroup]
  refine ⟨fun k e he id => ?_, fun k e he c => ?_, fun id k hk => ?_, fun c k hk => ?_⟩
  · change _ ↔ d.groupOf id = some k
    rcases withGroup_some hparent he with ⟨rfl, rfl⟩ | ⟨e', he', rfl⟩
    · exact ⟨fun hm => (List.not_mem_nil hm).elim,
        fun hg => (Nat.lt_irrefl _ (h.placed id _ hg)).elim⟩
    · rw [← h.templates k e' he' id]
      split <;> rfl
  · rcases withGroup_some hparent he with ⟨rfl, rfl⟩ | ⟨e', he', rfl⟩
    · refine ⟨fun hm => (List.not_mem_nil hm).elim, fun hg => ?_⟩
      exact (Nat.lt_irrefl _ (owner_lt h.parented hparent parentOf_withGroup hg)).elim
    · have hnew : d.parentOf d.groups.size = none := by simp [Draft.parentOf]
      rw [← mem_listed (h.children k e' he') hnew parentOf_withGroup c]
      split <;> rfl
  · rw [hsize]
    exact Nat.lt_succ_of_lt (h.placed id k hk)
  · rw [hsize]
    exact Nat.lt_succ_of_lt (owner_lt h.parented hparent parentOf_withGroup hk)

end

/-! ### Whole scripts -/

/-- What reading and laying out leave true of a draft, changes of a group that leave its lists and
its parent alone, and new templates and groups. -/
structure Listing (I : Draft → Prop) : Prop where
  aside : ∀ (d : Draft) reading code procedures, I d →
    I { d with reading := reading, code := code, procedures := procedures }
  inGroup : ∀ (d : Draft) (g : GroupId) (f : GroupDraft → GroupDraft), I d →
    (∀ e, (f e).group.templates = e.group.templates) →
    (∀ e, (f e).group.children = e.group.children) →
    (∀ e, (f e).group.parent = e.group.parent) → I { d with groups := d.groups.modify g f }
  template : ∀ (d : Draft) t, I d → t.group < d.groups.size → I (withTemplate d t)
  group : ∀ (d : Draft) name parent, I d → parent < d.groups.size → I (withGroup d name parent)

namespace Listing

variable {I : Draft → Prop}

theorem resolving {α : Type} (h : Listing I) (r : Resolve α) :
    Leads I (Assemble.resolving r) fun _ => I :=
  leads_resolving r fun d _ hd => h.aside d _ d.code d.procedures hd

theorem layOut (h : Listing I) (b : Body) : Leads I (Assemble.layOut b) fun _ => I :=
  fun d hd => h.aside d d.reading _ d.procedures hd

theorem addTemplate (h : Listing I) {t : Template} (hn : t.group < n) :
    Leads (Within I n) (Assemble.addTemplate t) fun _ => I := fun d hd =>
  h.template d t hd.1 (Nat.lt_of_lt_of_le hn hd.2)

theorem addProcedure (h : Listing I) (q : Procedure) :
    Leads I (Assemble.addProcedure q) fun _ => I := fun d hd =>
  h.inGroup _ _ _ (h.aside d d.reading d.code _ hd) (fun _ => rfl) (fun _ => rfl) fun _ => rfl

theorem declareIn (h : Listing I) (g : GroupId) (name : String) (c : Container) :
    Leads I (Assemble.declareIn g name c) fun _ => I := by
  refine leads_bind (leads_group g) fun e => ?_
  split
  · exact h.resolving _
  · exact leads_bind (h.resolving _) fun s => leads_modify fun d hd =>
      h.inGroup d _ _ hd (fun _ => rfl) (fun _ => rfl) fun _ => rfl

theorem layOutInitialiser (h : Listing I) (g : GroupId) :
    Leads I (Script.layOutInitialiser g) fun _ => I := by
  refine leads_bind (leads_group g) fun e => ?_
  split
  · exact leads_pure fun _ hd => hd
  · exact leads_bind (h.resolving _) fun l => leads_bind (h.layOut _) fun start =>
      leads_modify fun d hd => h.inGroup d _ _ hd (fun _ => rfl) (fun _ => rfl) fun _ => rfl

theorem kept (h : Listing I) : Kept I where
  reading d r hd := h.aside d r d.code d.procedures hd
  template {n g} hn source options content := by
    refine leads_bind (leads_and (h.resolving _) (sized_resolving _)) fun pattern =>
      leads_bind (leads_and (h.resolving _) (sized_resolving _)) fun b =>
        leads_bind (leads_and (h.layOut b) (sized_layOut b)) fun start => ?_
    split
    · exact leads_pure fun _ hd => hd.1
    · have added : ∀ p, Leads (Within I n)
          (Assemble.addTemplate ⟨p, source, options.priority.getD p.priority, options.visibility,
            options.recursionEntry, g, b.opening, start⟩) fun _ => Within I n :=
        fun p d hd => ⟨h.addTemplate hn d hd, sized_addTemplate _ d hd.2⟩
      exact fun d hd => (leads_forM added _ d hd).1
  procedure {n g} _ name visibility content := by
    have laidOut : Leads I (do
        let b ← Assemble.resolving (resolveBody content)
        let start ← Assemble.layOut b
        Assemble.addProcedure ⟨name, g, visibility, b.opening, start⟩) fun _ => I :=
      leads_bind (h.resolving _) fun b => leads_bind (h.layOut b) fun start => h.addProcedure _
    refine leads_bind (leads_get fun _ hd => hd.1) fun d => leads_bind (leads_group g) fun e => ?_
    split
    · exact leads_bind (h.resolving _) fun _ => laidOut
    · exact laidOut
  group hn name d hd := h.group d name _ hd.1 (Nat.lt_of_lt_of_le hn hd.2)
  declaration {n g} _ name c _ d hd := h.declareIn g name c d hd.1
  initialiser := h.layOutInitialiser

end Listing

theorem membered_listing : Listing Draft.Membered where
  aside _ _ _ _ h := ⟨h.templates, h.children, h.placed, h.parented⟩
  inGroup _ _ _ h := membered_modifyGroup h
  template _ _ h := membered_withTemplate h
  group _ _ _ h := membered_withGroup h

theorem membered_kept : Kept Draft.Membered := membered_listing.kept

end Assemble

open Assemble

theorem membered_initial : Draft.initial.Membered where
  templates g e he id := by
    cases g with
    | zero =>
      obtain rfl := Option.some.inj he
      exact ⟨fun hm => (List.not_mem_nil hm).elim, fun hg => by simp [Draft.groupOf,
        Draft.initial] at hg⟩
    | succ g => cases he
  children g e he c := by
    have none : Draft.initial.parentOf c = none := by cases c <;> rfl
    cases g with
    | zero =>
      obtain rfl := Option.some.inj he
      simp only [none]
      exact ⟨fun hm => (List.not_mem_nil hm).elim, fun hg => by cases hg⟩
    | succ g => cases he
  placed id g hg := by simp [Draft.groupOf, Draft.initial] at hg
  parented c g hg := by
    have none : Draft.initial.parentOf c = none := by cases c <;> rfl
    rw [none] at hg
    cases hg

/-! ## The program of a draft -/

section
variable {d : Draft}

theorem parent_program (d : Draft) (g : GroupId) :
    (d.program.group g).parent = d.parentOf g := by
  rw [Program.group, Array.getD_eq_getD_getElem?, d.getElem?_program, Draft.parentOf]
  cases d.groups[g]? <;> rfl

theorem mem_visibleIn (h : d.Membered) {g : GroupId} {e : GroupDraft} (he : d.groups[g]? = some e)
    {id : TemplateId} :
    id ∈ visibleIn d.templates (d.groups.map GroupDraft.group) e.group ↔
      d.program.IsVisible g id := by
  -- a child lists a template exactly if it is the group of the template
  have child : ∀ c, d.parentOf c = some g → ∀ id,
      id ∈ ((d.groups.map GroupDraft.group).getD c default).templates ↔
        d.groupOf id = some c := by
    intro c hc id
    obtain ⟨e', he', -⟩ := Option.bind_eq_some_iff.1 hc
    rw [Array.getD_eq_getD_getElem?, Array.getElem?_map, he', Option.map_some, Option.getD_some]
    exact h.templates c e' he' id
  simp only [visibleIn, List.mem_append, List.mem_flatMap, List.mem_filter, visibleAs_iff,
    h.templates g e he, h.children g e he, Program.IsVisible, parent_program, Draft.groupOf,
    Option.map_eq_some_iff]
  constructor
  · rintro (⟨t, ht, hg⟩ | ⟨c, hc, hm, t, ht, hv⟩)
    · exact ⟨t, ht, .inl hg⟩
    · obtain ⟨t', ht', hg⟩ := Option.map_eq_some_iff.1 ((child c hc id).1 hm)
      obtain rfl := Option.some.inj (ht.symm.trans ht')
      exact ⟨t, ht, .inr ⟨hv, hg ▸ hc⟩⟩
  · rintro ⟨t, ht, hg | ⟨hv, hc⟩⟩
    · exact .inl ⟨t, ht, hg⟩
    · have hm : d.groupOf id = some t.group := congrArg (Option.map Template.group) ht
      exact .inr ⟨t.group, hc, (child _ hc id).2 hm, t, ht, hv⟩

/-- A group that does not exist has no templates to select from. -/
theorem not_isVisible (h : d.Membered) {g : GroupId} (hg : d.groups[g]? = none)
    (id : TemplateId) : ¬ d.program.IsVisible g id := by
  have hle := Array.getElem?_eq_none_iff.1 hg
  rintro ⟨t, ht, rfl | ⟨-, hc⟩⟩
  · exact Nat.not_lt.2 hle (h.placed id _ (congrArg (Option.map Template.group) ht))
  · rw [parent_program] at hc
    exact Nat.not_lt.2 hle (h.parented _ _ hc)

theorem candidates_program (g : GroupId) :
    (d.program.group g).candidates = (d.groups[g]?.map fun e =>
      ranked d.templates
        (visibleIn d.templates (d.groups.map GroupDraft.group) e.group)).getD [] := by
  rw [Program.group, Array.getD_eq_getD_getElem?, d.getElem?_program]
  cases d.groups[g]? <;> rfl

theorem Draft.Membered.program (h : d.Membered) : d.program.Ranked where
  visible g id := by
    rw [candidates_program]
    cases he : d.groups[g]? with
    | none =>
      exact ⟨fun hm => (List.not_mem_nil hm).elim, fun hv => (not_isVisible h he id hv).elim⟩
    | some e => exact mem_ranked.trans (mem_visibleIn h he)
  sorted g := by
    rw [candidates_program]
    cases d.groups[g]? with
    | none => exact List.Pairwise.nil
    | some e => exact ranked_sorted (p := d.program) _
  everywhere id := by
    have hm : id ∈ d.program.globals ↔ id < d.templates.size ∧
        visibleAs d.templates .everywhere id = true := by
      rw [Draft.program, Script.everywhere, mem_ranked, List.mem_filter, List.mem_range]
    rw [hm, visibleAs_iff]
    constructor
    · rintro ⟨-, t, ht, hv⟩
      exact ⟨t, ht, hv⟩
    · rintro ⟨t, ht, hv⟩
      exact ⟨(Array.getElem?_eq_some_iff.1 ht).1, t, ht, hv⟩
  globalSorted := ranked_sorted (p := d.program) _

/-- The candidates of every group of a program that is built are complete and in order. -/
theorem ranked_of_build {ds : List Declaration} {p : Program} (h : build ds = .ok p) :
    p.Ranked := by
  obtain ⟨d, hd, rfl⟩ := membered_kept.of_build membered_initial h
  exact hd.program

end

end Script

end StreamTransform
