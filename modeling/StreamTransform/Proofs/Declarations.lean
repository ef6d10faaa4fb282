import Mathlib.Logic.Function.Basic
import StreamTransform.Proofs.Homes
import StreamTransform.Proofs.Views

/-!
# What declarations come to

The groups of a script are assembled from their members. While a group is open only the first of its
members have been seen, and the bodies of variables are laid out when all groups are known. If the
script has no defect, in the end every group lists all of its members, and its initialiser is laid
out for the variables among them.
-/

namespace StreamTransform.Script

/-! ## Drafts -/

section
variable {α : Type} {as : Array α} {i : Nat} {a : α}

theorem getElem?_appended (h : as[i]? = some a) (bs : List α) : (as ++ bs)[i]? = some a := by
  have hi : i < as.toList.length := (Array.getElem?_eq_some_iff.mp h).1
  rw [← Array.getElem?_toList, Array.toList_appendList, List.getElem?_append_left hi,
    Array.getElem?_toList, h]

theorem getElem?_pushed (h : as[i]? = some a) (b : α) : (as.push b)[i]? = some a := by
  rw [Array.getElem?_push, if_neg (Nat.ne_of_lt (Array.getElem?_eq_some_iff.mp h).1), h]

end

/-- A body with these labels is laid out at a position. -/
def StandsAt (code : Array Node) (b : NodeId) (ls : List Label) : Prop :=
  ∃ body : Body, Sits code b (body.code b) ∧ Labelled ls body.code

theorem StandsAt.append {code : Array Node} {b : NodeId} {ls : List Label} (h : StandsAt code b ls)
    (ns : List Node) : StandsAt (code ++ ns) b ls := by
  obtain ⟨body, hs, hl⟩ := h
  exact ⟨body, fun i n hn => getElem?_append_of_some (hs i n hn), hl⟩

def Draft.view (d : Draft) : View where
  template? id := d.templates[id]?
  procedure? id := d.procedures[id]?
  group? c := d.groups[c]?.map GroupDraft.group
  body := StandsAt d.code

/-- The members that groups are declared with, and those of them that have been seen so far. -/
structure Progress where
  members : GroupId → List Declaration
  seen : GroupId → List Declaration

namespace Progress

/-- One more member of a group has been seen. -/
def see (w : Progress) (g : GroupId) (x : Declaration) : Progress :=
  { w with seen := Function.update w.seen g (w.seen g ++ [x]) }

/-- The variables of a group so far. -/
def labels (w : Progress) (g : GroupId) : List Label :=
  (w.seen g).flatMap (Declaration.labels g)

variable {w : Progress} {g k : GroupId} {x : Declaration}

theorem seen_see (w : Progress) (g : GroupId) (x : Declaration) :
    (w.see g x).seen g = w.seen g ++ [x] := Function.update_self g _ w.seen

theorem seen_see_of_ne (h : k ≠ g) : (w.see g x).seen k = w.seen k :=
  Function.update_of_ne h _ w.seen

theorem labels_see (w : Progress) (g : GroupId) (x : Declaration) :
    (w.see g x).labels g = w.labels g ++ x.labels g := by
  rw [labels, seen_see, List.flatMap_append, List.flatMap_singleton]
  rfl

theorem labels_see_of_ne (h : k ≠ g) : (w.see g x).labels k = w.labels k := by
  rw [labels, seen_see_of_ne h]
  rfl

theorem labels_see_of_nil (h : x.labels g = []) : (w.see g x).labels k = w.labels k := by
  by_cases hk : k = g
  · rw [hk, labels_see, h, List.append_nil]
  · exact labels_see_of_ne hk

end Progress

/-- Every group leads to the outermost one through its parents. -/
def Draft.Rooted (d : Draft) : Prop :=
  ∀ (g : GroupId) (e : GroupDraft), d.groups[g]? = some e →
    g = Program.rootGroup ∧ e.group.parent = none ∨ ∃ h < g, e.group.parent = some h

/-- A draft is what the members that have been seen come to, their variables apart. -/
structure Draft.Stems (d : Draft) (w : Progress) : Prop where
  lists : ∀ (g : GroupId) (e : GroupDraft), d.groups[g]? = some e →
    d.view.Lists w.members g e.group (w.seen g)
  rooted : d.Rooted
  listed : ∀ (id : ProcedureId) (q : Procedure), d.procedures[id]? = some q →
    ∃ e, d.groups[q.group]? = some e ∧ id ∈ e.group.procedures

/-- The variables that have been seen are still to be laid out. -/
def Draft.Awaits (d : Draft) (w : Progress) : Prop :=
  ∀ (g : GroupId) (e : GroupDraft), d.groups[g]? = some e →
    e.group.initialiser = none ∧ Spells (w.labels g) e.initialisers.reverse

/-- A change of a group that leaves it where it is. -/
def StaysPut (f : GroupDraft → GroupDraft) : Prop :=
  ∀ e, (f e).group.name = e.group.name ∧ (f e).group.parent = e.group.parent

section
variable {d d' : Draft} {w w' : Progress} {g k : GroupId} {e : GroupDraft} {x : Declaration}
  {f : GroupDraft → GroupDraft}

theorem some_modifyGroup {groups : Array GroupDraft} (h : groups[k]? = some e) :
    (groups.modify g f)[k]? = some (if g = k then f e else e) := by
  rw [Array.getElem?_modify, h]
  split <;> rfl

theorem StaysPut.if (hf : StaysPut f) (e : GroupDraft) :
    (if g = k then f e else e).group.name = e.group.name ∧
      (if g = k then f e else e).group.parent = e.group.parent := by
  split
  · exact hf e
  · exact ⟨rfl, rfl⟩

theorem Draft.Rooted.modify (h : d.Rooted) (hf : StaysPut f)
    (hgroups : d'.groups = d.groups.modify g f) : d'.Rooted := by
  intro k e' hk
  rw [hgroups] at hk
  obtain ⟨e, he, rfl⟩ := Assemble.modifyGroup_some hk
  rw [(hf.if e).2]
  exact h k e he

/-- A draft that has grown by more code, templates and procedures, and a change of one group. -/
theorem Draft.view_within (hcode : ∃ ns : List Node, d'.code = d.code ++ ns)
    (htemplates : ∀ (id : TemplateId) (t : Template), d.templates[id]? = some t →
      d'.templates[id]? = some t)
    (hprocedures : ∀ (id : ProcedureId) (q : Procedure), d.procedures[id]? = some q →
      d'.procedures[id]? = some q)
    (hf : StaysPut f) (hgroups : d'.groups = d.groups.modify g f) : d.view.Within d'.view id where
  template := htemplates
  procedure := hprocedures
  group c e' hc := by
    obtain ⟨e, he, rfl⟩ := Option.map_eq_some_iff.mp hc
    refine ⟨(if g = c then f e else e).group, ?_, hf.if e⟩
    show d'.groups[c]?.map GroupDraft.group = _
    rw [hgroups, some_modifyGroup he]
    rfl
  body b ls h := by
    obtain ⟨ns, hns⟩ := hcode
    show StandsAt d'.code b ls
    rw [hns]
    exact h.append ns

/-- A group is changed, as more of its members have been seen or its variables are laid out. -/
theorem Draft.Stems.grow (h : d.Stems w) (hgroups : d'.groups = d.groups.modify g f)
    (hf : StaysPut f) (hwithin : d.view.Within d'.view id) (hmembers : w'.members = w.members)
    (hseen : ∀ k ≠ g, w'.seen k = w.seen k)
    (hlists : ∀ e, d.groups[g]? = some e → d'.view.Lists w.members g (f e).group (w'.seen g))
    (hold : ∀ e, ∀ id ∈ e.group.procedures, id ∈ (f e).group.procedures)
    (hnew : ∀ (id : ProcedureId) (q : Procedure), d'.procedures[id]? = some q →
      d.procedures[id]? = some q ∨
        ∃ e, q.group = g ∧ d.groups[g]? = some e ∧ id ∈ (f e).group.procedures) :
    d'.Stems w' := by
  refine ⟨fun k e' hk => ?_, h.rooted.modify hf hgroups, fun id q hq => ?_⟩
  · rw [hmembers]
    rw [hgroups] at hk
    obtain ⟨e, he, rfl⟩ := Assemble.modifyGroup_some hk
    split
    next hk =>
      subst hk
      exact hlists e he
    next hk =>
      rw [hseen k (Ne.symm hk)]
      exact (h.lists k e he).mono hwithin (fun _ _ _ => rfl) rfl rfl rfl
  · rw [hgroups]
    rcases hnew id q hq with hq | ⟨e, rfl, he, hid⟩
    · obtain ⟨e, he, hid⟩ := h.listed id q hq
      refine ⟨_, some_modifyGroup he, ?_⟩
      split
      · exact hold e id hid
      · exact hid
    · refine ⟨_, some_modifyGroup he, ?_⟩
      rw [if_pos rfl]
      exact hid

/-- A member that declares neither a template nor a procedure nor a group changes no lists. -/
theorem Draft.Stems.aside (h : d.Stems w) (ht : x.template? = none) (hp : x.procedure? = none)
    (hg : x.group? = none) : d.Stems (w.see g x) := by
  refine ⟨fun k e he => ?_, h.rooted, h.listed⟩
  by_cases hk : k = g
  · subst hk
    rw [w.seen_see]
    exact (h.lists k e he).aside ht hp hg
  · rw [Progress.seen_see_of_ne hk]
    exact h.lists k e he

/-- A member that declares no variable changes none. -/
theorem Draft.Awaits.aside (h : d.Awaits w) (hl : x.labels g = [])
    (hsame : ∀ (k : GroupId) (e' : GroupDraft), d'.groups[k]? = some e' →
      ∃ e, d.groups[k]? = some e ∧ e'.group.initialiser = e.group.initialiser ∧
        e'.initialisers = e.initialisers) : d'.Awaits (w.see g x) := by
  intro k e' he'
  obtain ⟨e, he, hi, hs⟩ := hsame k e' he'
  rw [hi, hs, Progress.labels_see_of_nil hl]
  exact h k e he

theorem same_modifyGroup (hgroups : d'.groups = d.groups.modify g f)
    (hi : ∀ e, (f e).group.initialiser = e.group.initialiser)
    (hs : ∀ e, (f e).initialisers = e.initialisers) (k : GroupId) (e' : GroupDraft)
    (he' : d'.groups[k]? = some e') : ∃ e, d.groups[k]? = some e ∧
      e'.group.initialiser = e.group.initialiser ∧ e'.initialisers = e.initialisers := by
  rw [hgroups] at he'
  obtain ⟨e, he, rfl⟩ := Assemble.modifyGroup_some he'
  refine ⟨e, he, ?_⟩
  split
  · exact ⟨hi e, hs e⟩
  · exact ⟨rfl, rfl⟩

/-- A variable is declared in a group, and a statement for it is added. -/
theorem Draft.Awaits.declare (h : d.Awaits w) {s : Statement} (hs : Spells (x.labels g) [s])
    (hgroups : d'.groups = d.groups.modify g f)
    (hi : ∀ e, (f e).group.initialiser = e.group.initialiser)
    (hstatements : ∀ e, (f e).initialisers = s :: e.initialisers) : d'.Awaits (w.see g x) := by
  intro k e' he'
  rw [hgroups] at he'
  obtain ⟨e, he, rfl⟩ := Assemble.modifyGroup_some he'
  obtain ⟨hnone, hspells⟩ := h k e he
  split
  next hk =>
    subst hk
    rw [hi, hstatements, w.labels_see, List.reverse_cons]
    exact ⟨hnone, hspells.append hs⟩
  next hk =>
    rw [Progress.labels_see_of_ne (Ne.symm hk)]
    exact ⟨hnone, hspells⟩

end

/-! ## Success -/

namespace Assemble

variable {α β : Type}

/-- The problems so far are kept. -/
def Adds (m : Assemble α) : Prop :=
  ∀ d : Draft, d.reading.problems <:+ (m.run d).2.reading.problems

/-- Without problems in the end, what the assembling leads to has a property. -/
def Secures (P : Draft → Prop) (m : Assemble α) (Q : α → Draft → Prop) : Prop :=
  ∀ d, P d → (m.run d).2.reading.problems = [] → Q (m.run d).1 (m.run d).2

theorem adds_pure (a : α) : Adds (pure a) := fun _ => List.suffix_refl _

theorem adds_get : Adds (get : Assemble Draft) := fun _ => List.suffix_refl _

theorem adds_bind {m : Assemble α} {k : α → Assemble β} (h : Adds m) (hk : ∀ a, Adds (k a)) :
    Adds (m >>= k) := fun d => (h d).trans (hk _ _)

theorem adds_modify {f : Draft → Draft} (h : ∀ d, (f d).reading.problems = d.reading.problems) :
    Adds (modify f) := fun d => (h d).symm ▸ List.suffix_refl _

theorem adds_resolving {Q : Namespaces → α → Prop} {r : Resolve α} (h : ∀ ns, Reads ns (Q ns) r) :
    Adds (resolving r) := fun d => (h d.reading.namespaces d.reading rfl).2.1

theorem adds_steady {r : Resolve α} (h : Steady r) : Adds (resolving r) :=
  adds_resolving h.reads

theorem adds_forM {k : β → Assemble PUnit} (h : ∀ b, Adds (k b)) (bs : List β) :
    Adds (bs.forM k) := by
  induction bs with
  | nil => exact adds_pure PUnit.unit
  | cons b bs ih => exact adds_bind (h b) fun _ => ih

theorem adds_group (g : GroupId) : Adds (group g) := fun _ => List.suffix_refl _

theorem adds_modifyGroup (g : GroupId) (f : GroupDraft → GroupDraft) : Adds (modifyGroup g f) :=
  adds_modify fun _ => rfl

theorem adds_layOut (b : Body) : Adds (layOut b) := fun _ => List.suffix_refl _

theorem adds_addTemplate (t : Template) : Adds (addTemplate t) := fun _ => List.suffix_refl _

theorem adds_addProcedure (q : Procedure) : Adds (addProcedure q) := fun _ => List.suffix_refl _

theorem adds_addGroup (name : String) (parent : GroupId) : Adds (addGroup name parent) :=
  fun _ => List.suffix_refl _

theorem adds_declareIn (g : GroupId) (name : String) (c : Container) : Adds (declareIn g name c) := by
  refine adds_bind (adds_group g) fun e => ?_
  split
  · exact adds_steady (steady_problem _)
  · exact adds_bind (adds_resolving fun _ => reads_enclose _ reads_noContent) fun s =>
      adds_modifyGroup g _

theorem adds_layOutInitialiser (g : GroupId) : Adds (layOutInitialiser g) := by
  refine adds_bind (adds_group g) fun e => ?_
  split
  · exact adds_pure _
  · exact adds_bind (adds_steady steady_location) fun l => adds_bind (adds_layOut _) fun start =>
      adds_modifyGroup g _

theorem adds_laidTemplate (g : GroupId) (source : String) (options : TemplateOptions)
    (content : List Command) (pattern : Option Path.Pattern) : Adds (do
      let b ← resolving (resolveBody content)
      let start ← layOut b
      match pattern with
      | none => pure ()
      | some pattern =>
        pattern.alternatives.forM fun p =>
          addTemplate ⟨p, source, options.priority.getD p.priority, options.visibility,
            options.recursionEntry, g, b.opening, start⟩) := by
  refine adds_bind (adds_resolving (reads_resolveBody · content)) fun b =>
    adds_bind (adds_layOut b) fun _ => ?_
  split
  · exact adds_pure _
  · exact adds_forM (fun p => adds_addTemplate _) _

theorem adds_laidProcedure (g : GroupId) (name : String) (visibility : Visibility)
    (content : List Command) : Adds (do
      let b ← resolving (resolveBody content)
      let start ← layOut b
      addProcedure ⟨name, g, visibility, b.opening, start⟩) :=
  adds_bind (adds_resolving (reads_resolveBody · content)) fun b =>
    adds_bind (adds_layOut b) fun _ => adds_addProcedure _

mutual

theorem adds_assemble (g : GroupId) : ∀ x : Declaration, Adds (x.assemble g)
  | .locate l => adds_resolving fun _ => reads_locate l
  | .bind q uri => adds_modify fun _ => rfl
  | .template source options content =>
    adds_bind (adds_steady (steady_pattern source)) (adds_laidTemplate g source options content)
  | .procedure name visibility content => by
    refine adds_bind adds_get fun d => adds_bind (adds_group g) fun e => ?_
    split
    · exact adds_bind (adds_steady (steady_problem _)) fun _ =>
        adds_laidProcedure g name visibility content
    · exact adds_laidProcedure g name visibility content
  | .group name members => by
    have added : Adds (do
        let id ← addGroup name g
        assembleAll id members) :=
      adds_bind (adds_addGroup name g) fun id => adds_assembleAll id members
    refine adds_bind adds_get fun d => ?_
    split
    · exact adds_bind (adds_steady (steady_problem _)) fun _ => added
    · exact added
  | .variable name select =>
    adds_bind (adds_steady (steady_expression select)) fun e => adds_declareIn g name _
  | .parameter name select =>
    adds_bind (adds_steady (steady_optional steady_expression select)) fun e =>
      adds_declareIn g name _
  | .required name => adds_declareIn g name _

theorem adds_assembleAll (g : GroupId) : ∀ xs : List Declaration, Adds (assembleAll g xs)
  | [] => adds_pure PUnit.unit
  | x :: xs => adds_bind (adds_assemble g x) fun _ => adds_assembleAll g xs

end

section
variable {P : Draft → Prop} {Q : α → Draft → Prop} {R : β → Draft → Prop}

theorem secures_bind {m : Assemble α} {k : α → Assemble β} (h : Secures P m Q)
    (hk : ∀ a, Secures (Q a) (k a) R) (hadds : ∀ a, Adds (k a)) : Secures P (m >>= k) R := by
  intro d hd hnone
  have hfirst : (m.run d).2.reading.problems = [] :=
    List.suffix_nil.mp (hnone ▸ hadds (m.run d).1 (m.run d).2)
  exact hk _ _ (h d hd hfirst) hnone

/-- Looking at the draft leaves it alone. -/
theorem secures_get {k : Draft → Assemble β} (h : ∀ d, Secures P (k d) R) :
    Secures P (get >>= k) R := fun d => h d d

theorem secures_group (g : GroupId) {k : GroupDraft → Assemble β} (h : ∀ e, Secures P (k e) R) :
    Secures P (group g >>= k) R := fun d => h _ d

theorem Leads.secures {m : Assemble α} (h : Leads P m Q) : Secures P m Q := fun d hd _ => h d hd

/-- Where a problem was noted there is no success. -/
theorem secures_problem {d : Defect} {Q : Unit → Draft → Prop} :
    Secures P (resolving (Resolve.problem d)) Q := fun _ _ hnone => nomatch hnone

theorem Secures.weaken {m : Assemble α} {P' : Draft → Prop} {Q' : α → Draft → Prop}
    (h : Secures P m Q) (hP : ∀ d, P' d → P d) (hQ : ∀ a d, Q a d → Q' a d) : Secures P' m Q' :=
  fun d hd hnone => hQ _ _ (h d (hP d hd) hnone)

end

/-! ## One member -/

/-- So much has been seen of a script, and there are so many groups. -/
structure Stage (w : Progress) (n : Nat) (d : Draft) : Prop where
  stems : d.Stems w
  awaits : d.Awaits w
  size : d.groups.size = n

section
variable {w : Progress} {n : Nat} {g : GroupId}

theorem stage_reading {d : Draft} (h : Stage w n d) (r : Reading) :
    Stage w n { d with reading := r } :=
  ⟨⟨h.stems.lists, h.stems.rooted, h.stems.listed⟩, h.awaits, h.size⟩

theorem stage_resolving {α : Type} {Q : Namespaces → α → Prop} {r : Resolve α}
    (h : ∀ ns, Reads ns (Q ns) r) :
    Secures (Stage w n) (resolving r) fun a d => Stage w n d ∧ ∃ ns, Q ns a :=
  fun d hd hnone => ⟨stage_reading hd _, _, (h _ d.reading rfl).2.2 hnone⟩

/-- A member that declares nothing. -/
theorem Stage.aside {d : Draft} (h : Stage w n d) {x : Declaration} (ht : x.template? = none)
    (hp : x.procedure? = none) (hg : x.group? = none) (hl : x.labels g = []) :
    Stage (w.see g x) n d where
  stems := h.stems.aside ht hp hg
  awaits := h.awaits.aside hl fun _ e he => ⟨e, he, rfl, rfl⟩
  size := h.size

/-! ### Templates -/

/-- A group with more templates. -/
def listTemplates (ids : List TemplateId) (e : GroupDraft) : GroupDraft :=
  { e with group := { e.group with templates := e.group.templates ++ ids } }

theorem staysPut_listTemplates (ids : List TemplateId) : StaysPut (listTemplates ids) :=
  fun _ => ⟨rfl, rfl⟩

theorem listTemplates_append (ids ids' : List TemplateId) :
    listTemplates ids' ∘ listTemplates ids = listTemplates (ids ++ ids') := by
  funext e
  simp only [Function.comp_apply, listTemplates, List.append_assoc]

/-- What adding one template after the other comes to. -/
theorem run_addTemplates {γ : Type} {t : γ → Template} (ht : ∀ c, (t c).group = g) (cs : List γ)
    (d : Draft) : ((cs.forM fun c => addTemplate (t c)).run d).2 =
      { d with
        templates := d.templates ++ cs.map t
        groups := d.groups.modify g (listTemplates (List.range' d.templates.size cs.length)) } := by
  induction cs generalizing d with
  | nil =>
    have hsame : listTemplates (List.range' d.templates.size ([] : List γ).length) = id := by
      funext e
      simp [listTemplates]
    have hgroups : d.groups.modify g id = d.groups := Array.ext' (by simp)
    have htemplates : d.templates ++ ([] : List γ).map t = d.templates := Array.ext' (by simp)
    rw [hsame, hgroups, htemplates]
    rfl
  | cons c cs ih =>
    have hrun : (((c :: cs).forM fun c => addTemplate (t c)).run d).2 =
      ((cs.forM fun c => addTemplate (t c)).run (withTemplate d (t c))).2 := rfl
    have htemplates : d.templates.push (t c) ++ cs.map t = d.templates ++ (c :: cs).map t :=
      Array.ext' (by simp)
    have hgroups : (d.groups.modify g (listTemplate d.templates.size)).modify g
        (listTemplates (List.range' (d.templates.size + 1) cs.length)) =
        d.groups.modify g (listTemplates (List.range' d.templates.size (c :: cs).length)) := by
      have hcomp := listTemplates_append [d.templates.size]
        (List.range' (d.templates.size + 1) cs.length)
      refine Array.ext' ?_
      rw [Array.toList_modify, Array.toList_modify, Array.toList_modify, List.modify_modify_eq,
        List.length_cons, List.range'_succ]
      exact congrArg (d.groups.toList.modify g) hcomp
    rw [hrun, ih]
    simp only [withTemplate, Array.size_push, ht, htemplates, hgroups]

/-- Templates that were appended are found under the numbers that follow. -/
theorem forall₂_appended (ts : List Template) (before : Array Template) :
    List.Forall₂ (fun id t => (before ++ ts)[id]? = some t) (List.range' before.size ts.length)
      ts := by
  induction ts generalizing before with
  | nil => exact .nil
  | cons t ts ih =>
    have hpush : before.push t ++ ts = before ++ t :: ts := Array.ext' (by simp)
    have hrest := ih (before.push t)
    rw [hpush, Array.size_push] at hrest
    rw [List.length_cons, List.range'_succ]
    refine .cons ?_ hrest
    rw [← Array.getElem?_toList]
    simp

theorem within_withTemplates (d : Draft) (g : GroupId) (b : Body) (ts : List Template)
    (ids : List TemplateId) :
    d.view.Within ({ d with
      code := d.code ++ b.code d.code.size
      templates := d.templates ++ ts
      groups := d.groups.modify g (listTemplates ids) } : Draft).view id :=
  Draft.view_within ⟨_, rfl⟩ (fun _ _ ht => getElem?_appended ht ts) (fun _ _ hq => hq)
    (staysPut_listTemplates ids) rfl

/-- The alternatives of a pattern become templates with one body. -/
theorem secures_alternatives {ns : Namespaces} {source : String} {p : Path.Pattern}
    (hp : Path.parsePattern ns source = .ok p) (options : TemplateOptions)
    (content : List Command) :
    Secures (Stage w n) (do
      let b ← resolving (resolveBody content)
      let start ← layOut b
      p.alternatives.forM fun a =>
        addTemplate ⟨a, source, options.priority.getD a.priority, options.visibility,
          options.recursionEntry, g, b.opening, start⟩)
      fun _ => Stage (w.see g (.template source options content)) n := by
  refine secures_bind (stage_resolving (reads_resolveBody · content)) (fun b => ?_) fun b =>
    adds_bind (adds_layOut b) fun start => adds_forM (fun p => adds_addTemplate _) _
  rintro d ⟨⟨hs, ha, hn⟩, -, hl⟩ -
  let t : Path.PathPattern → Template := fun a =>
    ⟨a, source, options.priority.getD a.priority, options.visibility, options.recursionEntry, g,
      b.opening, d.code.size⟩
  let ids := List.range' d.templates.size p.alternatives.length
  have hrun := run_addTemplates (t := t) (g := g) (fun _ => rfl) p.alternatives
    { d with code := d.code ++ b.code d.code.size }
  show Stage _ n ((p.alternatives.forM fun a => addTemplate (t a)).run
    { d with code := d.code ++ b.code d.code.size }).2
  rw [hrun]
  have hwithin := within_withTemplates d g b (p.alternatives.map t) ids
  refine ⟨hs.grow rfl (staysPut_listTemplates ids) hwithin rfl (fun _ => Progress.seen_see_of_ne)
    (fun e he => ?_) (fun _ _ hid => hid) (fun _ _ hq => .inl hq),
    ha.aside rfl (same_modifyGroup rfl (fun _ => rfl) fun _ => rfl), Array.size_modify.trans hn⟩
  · have hlists := (hs.lists g e he).mono hwithin (fun _ _ _ => rfl) rfl rfl rfl
    rw [w.seen_see]
    refine hlists.template (x := ⟨source, options, content⟩) (l := ⟨_, p, d.code.size⟩) rfl
      ⟨ns, hp⟩ ⟨b, sits_append d.code _, hl⟩ ?_ rfl rfl rfl
    have happended := forall₂_appended (p.alternatives.map t) d.templates
    rw [List.length_map, List.forall₂_map_right_iff] at happended
    refine List.forall₂_map_right_iff.mpr (happended.imp fun id a ha => ?_)
    exact ⟨t a, ha, rfl, rfl, rfl, rfl, rfl⟩

theorem secures_template (source : String) (options : TemplateOptions) (content : List Command) :
    Secures (Stage w n) ((Declaration.template source options content).assemble g)
      fun _ => Stage (w.see g (.template source options content)) n := by
  refine secures_bind (stage_resolving (steady_pattern source).reads) (fun pattern => ?_)
    (adds_laidTemplate g source options content)
  rintro d ⟨hstage, ns, hpattern⟩ hnone
  obtain ⟨p, rfl, hp⟩ := hpattern.pattern
  exact secures_alternatives hp options content d hstage hnone

/-! ### Procedures -/

/-- A group with one more procedure. -/
def listProcedure (id : ProcedureId) (e : GroupDraft) : GroupDraft :=
  { e with group := { e.group with procedures := e.group.procedures ++ [id] } }

/-- A procedure that is added is found under the next number, and its group lists it. -/
theorem secures_laidProcedure (hg : g < n) (name : String) (visibility : Visibility)
    (content : List Command) :
    Secures (Stage w n) (do
      let b ← resolving (resolveBody content)
      let start ← layOut b
      addProcedure ⟨name, g, visibility, b.opening, start⟩)
      fun _ => Stage (w.see g (.procedure name visibility content)) n := by
  refine secures_bind (stage_resolving (reads_resolveBody · content)) (fun b => ?_)
    fun b => adds_bind (adds_layOut b) fun start => adds_addProcedure _
  rintro d ⟨⟨hs, ha, hn⟩, -, hl⟩ -
  let q : Procedure := ⟨name, g, visibility, b.opening, d.code.size⟩
  let new := d.procedures.size
  let d' : Draft := { d with
    code := d.code ++ b.code d.code.size
    procedures := d.procedures.push q
    groups := d.groups.modify g (listProcedure new) }
  have hput : StaysPut (listProcedure new) := fun _ => ⟨rfl, rfl⟩
  have hwithin : d.view.Within d'.view id := Draft.view_within ⟨_, rfl⟩ (fun _ _ ht => ht)
    (fun _ _ hq => getElem?_pushed hq q) hput rfl
  show Stage _ n d'
  refine ⟨hs.grow rfl hput hwithin rfl (fun _ => Progress.seen_see_of_ne) (fun e he => ?_)
    (fun _ _ => List.mem_append_left _) (fun k q' hq => ?_),
    ha.aside rfl (same_modifyGroup rfl (fun _ => rfl) fun _ => rfl), Array.size_modify.trans hn⟩
  · have hlists := (hs.lists g e he).mono hwithin (fun _ _ _ => rfl) rfl rfl rfl
    rw [w.seen_see]
    exact hlists.procedure (x := ⟨name, visibility, content⟩)
      ⟨q, Array.getElem?_push_size, rfl, rfl, rfl, b, sits_append d.code _, hl⟩ rfl rfl rfl
  · change (d.procedures.push q)[k]? = some q' at hq
    rw [Array.getElem?_push] at hq
    split at hq
    next hk =>
      obtain rfl := Option.some.inj hq
      exact .inr ⟨_, rfl, Array.getElem?_eq_getElem (hn ▸ hg),
        hk ▸ List.mem_append_right _ List.mem_cons_self⟩
    next => exact .inl hq

/-- A second procedure of a name is a problem. -/
theorem secures_procedure (hg : g < n) (name : String) (visibility : Visibility)
    (content : List Command) :
    Secures (Stage w n) ((Declaration.procedure name visibility content).assemble g)
      fun _ => Stage (w.see g (.procedure name visibility content)) n := by
  refine secures_get fun d => secures_group g fun e => ?_
  split
  · exact secures_bind (Q := fun _ => Stage w n) secures_problem
      (fun _ => secures_laidProcedure hg name visibility content) fun _ =>
      adds_laidProcedure g name visibility content
  · exact secures_laidProcedure hg name visibility content

/-! ### Variables -/

/-- A second variable of a name is a problem. -/
theorem secures_declareIn {x : Declaration} {c : Container} {l : Label}
    (ht : x.template? = none) (hp : x.procedure? = none) (hg : x.group? = none)
    (hl : x.labels g = l.around []) (hc : l.Suits (.container c)) (name : String) :
    Secures (Stage w n) (declareIn g name c) fun _ => Stage (w.see g x) n := by
  refine secures_group g fun e => ?_
  split
  · exact secures_problem
  · refine secures_bind (stage_resolving fun _ => reads_enclose c reads_noContent) (fun s => ?_)
      fun s => adds_modifyGroup g _
    rintro d ⟨⟨hs, ha, hn⟩, -, hspells⟩ -
    let f : GroupDraft → GroupDraft := fun e =>
      { e with declared := name :: e.declared, initialisers := s :: e.initialisers }
    let d' : Draft := { d with groups := d.groups.modify g f }
    have hput : StaysPut f := fun _ => ⟨rfl, rfl⟩
    have hwithin : d.view.Within d'.view id := Draft.view_within ⟨[], Array.appendList_nil.symm⟩
      (fun _ _ ht => ht) (fun _ _ hq => hq) hput rfl
    show Stage _ n d'
    refine ⟨hs.grow rfl hput hwithin rfl (fun _ => Progress.seen_see_of_ne) (fun e he => ?_)
      (fun _ _ hid => hid) (fun _ _ hq => .inl hq),
      ha.declare (hl ▸ hspells hc) rfl (fun _ => rfl) fun _ => rfl, Array.size_modify.trans hn⟩
    rw [w.seen_see]
    exact ((hs.lists g e he).aside ht hp hg).mono hwithin (fun _ _ _ => rfl) rfl rfl rfl

/-! ### Groups -/

/-- A group with members has been opened, and none of them has been seen. -/
def opened (w : Progress) (g c : GroupId) (x : GroupText) : Progress where
  members := Function.update w.members c x.members
  seen := Function.update (w.see g (.group x.name x.members)).seen c []

section
variable {c k : GroupId} {x : GroupText}

theorem members_opened (w : Progress) (g c : GroupId) (x : GroupText) :
    (opened w g c x).members c = x.members := Function.update_self c _ w.members

theorem members_opened_of_ne (h : k ≠ c) : (opened w g c x).members k = w.members k :=
  Function.update_of_ne h _ w.members

theorem seen_opened (w : Progress) (g c : GroupId) (x : GroupText) :
    (opened w g c x).seen c = [] := Function.update_self c _ (w.see g _).seen

theorem seen_opened_of_ne (h : k ≠ c) :
    (opened w g c x).seen k = (w.see g (.group x.name x.members)).seen k :=
  Function.update_of_ne h _ (w.see g _).seen

end

theorem some_withGroup {d : Draft} {name : String} {k : GroupId} {e : GroupDraft}
    (h : d.groups[k]? = some e) : (withGroup d name g).groups[k]? =
      some (if g = k then listChild d.groups.size e else e) :=
  some_modifyGroup (getElem?_pushed h _)

theorem withGroup_new {d : Draft} (name : String) (hg : g < d.groups.size) :
    (withGroup d name g).groups[d.groups.size]? = some (inside name g) := by
  have hne : g ≠ d.groups.size := Nat.ne_of_lt hg
  exact (some_modifyGroup Array.getElem?_push_size).trans (congrArg some (if_neg hne))

theorem rooted_withGroup {d : Draft} (h : d.Rooted) (name : String) (hg : g < d.groups.size) :
    (withGroup d name g).Rooted := by
  have hpushed : ({ d with groups := d.groups.push (inside name g) } : Draft).Rooted := by
    intro k e he
    change (d.groups.push _)[k]? = some e at he
    rw [Array.getElem?_push] at he
    split at he
    next hk =>
      obtain rfl := Option.some.inj he
      exact .inr ⟨g, hk ▸ hg, rfl⟩
    next => exact h k e he
  exact hpushed.modify (f := listChild d.groups.size) (fun _ => ⟨rfl, rfl⟩) rfl

theorem ne_size_of_some {d : Draft} {k : GroupId} {e : GroupDraft} (h : d.groups[k]? = some e) :
    k ≠ d.groups.size :=
  Nat.ne_of_lt (Array.getElem?_eq_some_iff.mp h).1

theorem view_within_withGroup (d : Draft) (name : String) (g : GroupId) :
    d.view.Within (withGroup d name g).view id := by
  refine ⟨fun _ _ ht => ht, fun _ _ hq => hq, fun c e' hc => ?_, fun _ _ hb => hb⟩
  obtain ⟨e, he, rfl⟩ := Option.map_eq_some_iff.mp hc
  refine ⟨(if g = c then listChild d.groups.size e else e).group, ?_, ?_⟩
  · exact congrArg (Option.map GroupDraft.group) (some_withGroup he)
  · split <;> exact ⟨rfl, rfl⟩

/-- The new group lists nothing yet, and it is listed in the one that it is declared in. -/
theorem stems_withGroup {d : Draft} (hs : d.Stems w) (hg : g < d.groups.size) (x : GroupText) :
    (withGroup d x.name g).Stems (opened w g d.groups.size x) where
  rooted := rooted_withGroup hs.rooted _ hg
  listed id q hq := by
    obtain ⟨e, he, hid⟩ := hs.listed id q hq
    refine ⟨_, some_withGroup he, ?_⟩
    split <;> exact hid
  lists k e' hk := by
    rcases withGroup_some hg hk with ⟨rfl, rfl⟩ | ⟨e, he, rfl⟩
    · rw [seen_opened]
      exact ⟨⟨[], rfl, List.forall_mem_nil _, .nil⟩, .nil, .nil⟩
    · have hmembers (c : GroupId) (e' : Group) (hc : d.view.group? c = some e') :
          (opened w g d.groups.size x).members c = w.members c := by
        obtain ⟨e, he, -⟩ := Option.map_eq_some_iff.mp hc
        exact members_opened_of_ne (ne_size_of_some he)
      have hlists := (hs.lists k e he).mono (view_within_withGroup d x.name g) hmembers rfl rfl rfl
      rw [seen_opened_of_ne (ne_size_of_some he)]
      split
      next hk =>
        subst hk
        rw [w.seen_see]
        exact hlists.group ⟨(inside x.name g).group,
          congrArg (Option.map GroupDraft.group) (withGroup_new x.name hg), rfl, rfl,
          members_opened w g _ x⟩ rfl rfl rfl
      next hk =>
        rw [Progress.seen_see_of_ne (Ne.symm hk)]
        exact hlists

theorem awaits_withGroup {d : Draft} (ha : d.Awaits w) (hg : g < d.groups.size) (x : GroupText) :
    (withGroup d x.name g).Awaits (opened w g d.groups.size x) := by
  intro k e' hk
  rcases withGroup_some hg hk with ⟨rfl, rfl⟩ | ⟨e, he, rfl⟩
  · rw [Progress.labels, seen_opened]
    exact ⟨rfl, labelled_nil⟩
  · have hlabels : (opened w g d.groups.size x).labels k = w.labels k := by
      rw [Progress.labels, seen_opened_of_ne (ne_size_of_some he)]
      exact Progress.labels_see_of_nil rfl
    rw [hlabels]
    split <;> exact ha k e he

theorem leads_addGroup (hg : g < n) (x : GroupText) : Leads (Stage w n) (addGroup x.name g)
    fun c d => c = n ∧ Stage (opened w g n x) (n + 1) d := by
  rintro d ⟨hs, ha, rfl⟩
  have hsize : (withGroup d x.name g).groups.size = d.groups.size + 1 := by simp [withGroup]
  exact ⟨rfl, stems_withGroup hs hg x, awaits_withGroup ha hg x, hsize⟩

end

/-! ## Whole groups -/

/-- From one point of a script to another one: more members of an open group have been seen, and all
members of the groups that are new. -/
structure Reaches (w w' : Progress) (g : GroupId) (xs : List Declaration) (n n' : Nat) : Prop where
  grown : n ≤ n'
  seen : w'.seen g = w.seen g ++ xs
  members : ∀ k < n, w'.members k = w.members k
  others : ∀ k < n, k ≠ g → w'.seen k = w.seen k
  whole : ∀ k, n ≤ k → k < n' → w'.seen k = w'.members k

section
variable {w w' w'' : Progress} {g : GroupId} {x : Declaration} {xs xs' : List Declaration}
  {n n' n'' : Nat}

theorem reaches_nil : Reaches w w g [] n n :=
  ⟨Nat.le_refl n, (List.append_nil _).symm, fun _ _ => rfl, fun _ _ _ => rfl,
    fun _ hk hkn => absurd hkn (Nat.not_lt.mpr hk)⟩

theorem reaches_see : Reaches w (w.see g x) g [x] n n :=
  ⟨Nat.le_refl n, w.seen_see g x, fun _ _ => rfl, fun _ _ => Progress.seen_see_of_ne,
    fun _ hk hkn => absurd hkn (Nat.not_lt.mpr hk)⟩

theorem Reaches.trans (hg : g < n) (h : Reaches w w' g xs n n')
    (h' : Reaches w' w'' g xs' n' n'') : Reaches w w'' g (xs ++ xs') n n'' where
  grown := Nat.le_trans h.grown h'.grown
  seen := by rw [h'.seen, h.seen, List.append_assoc]
  members k hk := (h'.members k (Nat.lt_of_lt_of_le hk h.grown)).trans (h.members k hk)
  others k hk hne := (h'.others k (Nat.lt_of_lt_of_le hk h.grown) hne).trans (h.others k hk hne)
  whole k hk hkn := by
    rcases Nat.lt_or_ge k n' with hlt | hle
    -- a group that was closed before is left alone
    · have hne : k ≠ g := Nat.ne_of_gt (Nat.lt_of_lt_of_le hg hk)
      rw [h'.others k hlt hne, h.whole k hk hlt, h'.members k hlt]
    · exact h'.whole k hle hkn

/-- All members of a group that was opened have been seen. -/
theorem Reaches.close (hg : g < n) {x : GroupText}
    (h : Reaches (opened w g n x) w' n x.members (n + 1) n') :
    Reaches w w' g [.group x.name x.members] n n' where
  grown := Nat.le_of_succ_le h.grown
  seen := by
    have hne : g ≠ n := Nat.ne_of_lt hg
    rw [h.others g (Nat.lt_succ_of_lt hg) hne, seen_opened_of_ne hne, w.seen_see]
  members k hk :=
    (h.members k (Nat.lt_succ_of_lt hk)).trans (members_opened_of_ne (Nat.ne_of_lt hk))
  others k hk hkg := by
    have hne : k ≠ n := Nat.ne_of_lt hk
    rw [h.others k (Nat.lt_succ_of_lt hk) hne, seen_opened_of_ne hne,
      Progress.seen_see_of_ne hkg]
  whole k hk hkn := by
    rcases Nat.eq_or_lt_of_le hk with rfl | hlt
    · rw [h.seen, seen_opened, h.members _ (Nat.lt_succ_self _), members_opened]
      rfl
    · exact h.whole k hlt hkn

/-- What has been reached when members of a group have been assembled. -/
def Reached (w : Progress) (n : Nat) (g : GroupId) (xs : List Declaration) (d : Draft) : Prop :=
  ∃ w' n', Stage w' n' d ∧ Reaches w w' g xs n n'

theorem Secures.reached {m : Assemble Unit}
    (h : Secures (Stage w n) m fun _ => Stage (w.see g x) n) :
    Secures (Stage w n) m fun _ => Reached w n g [x] :=
  h.weaken (fun _ hd => hd) fun _ _ hd => ⟨_, _, hd, reaches_see⟩

mutual

theorem secures_assemble (g : GroupId) : ∀ (x : Declaration) (w : Progress) (n : Nat), g < n →
    Secures (Stage w n) (x.assemble g) fun _ => Reached w n g [x]
  | .locate l, w, n, _ => Secures.reached fun d hd _ =>
    (stage_reading hd _).aside rfl rfl rfl rfl
  | .bind q uri, w, n, _ => Secures.reached fun d hd _ =>
    (stage_reading hd _).aside rfl rfl rfl rfl
  | .template source options content, w, n, _ => (secures_template source options content).reached
  | .procedure name visibility content, w, n, hg =>
    (secures_procedure hg name visibility content).reached
  | .group name members, w, n, hg => by
    have added : Secures (Stage w n) (do
        let id ← addGroup name g
        assembleAll id members) fun _ => Reached w n g [.group name members] := by
      -- the number of the new group is that of the groups so far
      refine secures_bind (leads_addGroup hg ⟨name, members⟩).secures (fun c => ?_) fun c =>
        adds_assembleAll c members
      rintro d ⟨rfl, hd⟩ hnone
      obtain ⟨w', n', hd', hr⟩ :=
        secures_assembleAll c members _ _ (Nat.lt_succ_self c) d hd hnone
      exact ⟨w', n', hd', hr.close hg⟩
    refine secures_get fun d => ?_
    split
    · exact secures_bind (Q := fun _ => Stage w n) secures_problem (fun _ => added) fun _ =>
        adds_bind (adds_addGroup name g) fun id => adds_assembleAll id members
    · exact added
  | .variable name select, w, n, _ => Secures.reached <| by
    refine secures_bind (stage_resolving (steady_expression select).reads) (fun e => ?_)
      fun e => adds_declareIn g name _
    rintro d ⟨hd, ns, he⟩
    exact secures_declareIn rfl rfl rfl rfl ⟨ns, .variable (.selected he)⟩ name d hd
  | .parameter name select, w, n, _ => Secures.reached <| by
    refine secures_bind (stage_resolving (steady_optional steady_expression select).reads)
      (fun e => ?_) fun e => adds_declareIn g name _
    rintro d ⟨hd, ns, he⟩
    refine secures_declareIn rfl rfl rfl rfl ⟨ns, ?_⟩ name d hd
    cases e <;> exact .parameter he.originates
  | .required name, w, n, _ =>
    (secures_declareIn rfl rfl rfl rfl ⟨[], .required⟩ name).reached

theorem secures_assembleAll (g : GroupId) : ∀ (xs : List Declaration) (w : Progress) (n : Nat),
    g < n → Secures (Stage w n) (assembleAll g xs) fun _ => Reached w n g xs
  | [], w, n, _ => fun d hd _ => ⟨w, n, hd, reaches_nil⟩
  | x :: xs, w, n, hg => by
    refine secures_bind (secures_assemble g x w n hg) (fun _ d hd hnone => ?_) fun _ =>
      adds_assembleAll g xs
    obtain ⟨w', n', hd', hr⟩ := hd
    obtain ⟨w'', n'', hd'', hr'⟩ :=
      secures_assembleAll g xs w' n' (Nat.lt_of_lt_of_le hg hr.grown) d hd' hnone
    exact ⟨w'', n'', hd'', hr.trans hg hr'⟩

end

end

end Assemble

open Assemble

/-! ## Initialisers -/

/-- All members have been seen, and all initialisers but those of some groups are laid out. -/
structure Settled (w : Progress) (gs : List GroupId) (d : Draft) : Prop where
  stems : d.Stems w
  root : Program.rootGroup < d.groups.size
  whole : ∀ g < d.groups.size, w.seen g = w.members g
  pending : ∀ (g : GroupId) (e : GroupDraft), d.groups[g]? = some e →
    Spells (w.labels g) e.initialisers.reverse ∧ (g ∈ gs → e.group.initialiser = none)
  laid : ∀ (g : GroupId) (e : GroupDraft), d.groups[g]? = some e → g ∉ gs →
    d.view.Starts (w.labels g) e.group.initialiser

section
variable {w : Progress} {g : GroupId} {gs : List GroupId}

/-- A group without variables needs no initialiser. -/
theorem Settled.spare {d : Draft} (h : Settled w (g :: gs) d)
    (hempty : ∀ e, d.groups[g]? = some e → e.initialisers = []) : Settled w gs d where
  stems := h.stems
  root := h.root
  whole := h.whole
  pending k e hk :=
    ⟨(h.pending k e hk).1, fun hm => (h.pending k e hk).2 (List.mem_cons_of_mem g hm)⟩
  laid k e hk hkg := by
    by_cases hsame : k = g
    · subst hsame
      obtain ⟨hspells, hnone⟩ := h.pending k e hk
      rw [hnone List.mem_cons_self]
      exact hspells.eq_nil_iff.mpr (List.reverse_eq_nil_iff.mpr (hempty e hk))
    · exact h.laid k e hk (List.not_mem_cons_of_ne_of_not_mem hsame hkg)

/-- A group with the initialiser that starts at a node. -/
def initialised (b : NodeId) (e : GroupDraft) : GroupDraft :=
  { e with group := { e.group with initialiser := some b } }

/-- The initialiser of a group is laid out, with the variables in the order of their declarations. -/
theorem Settled.layOut {d : Draft} (h : Settled w (g :: gs) d) (hg : g ∉ gs) {ss : List Statement}
    (hvariables : ∀ e, d.groups[g]? = some e → e.initialisers = ss) (hne : ss ≠ [])
    (l : Location) : Settled w gs { d with
      code := d.code ++ Body.code d.code.size ⟨l, ss.reverse, l⟩
      groups := d.groups.modify g (initialised d.code.size) } := by
  let b : Body := ⟨l, ss.reverse, l⟩
  let d' : Draft := { d with
    code := d.code ++ b.code d.code.size
    groups := d.groups.modify g (initialised d.code.size) }
  have hput : StaysPut (initialised d.code.size) := fun _ => ⟨rfl, rfl⟩
  have hwithin : d.view.Within d'.view id := Draft.view_within ⟨_, rfl⟩ (fun _ _ ht => ht)
    (fun _ _ hq => hq) hput rfl
  refine ⟨h.stems.grow rfl hput hwithin rfl (fun _ _ => rfl) (fun e he => ?_)
    (fun _ _ hid => hid) (fun _ _ hq => .inl hq), Array.size_modify.symm ▸ h.root,
    fun k hk => h.whole k (Array.size_modify.symm ▸ hk), fun k e' hk => ?_,
    fun k e' hk hkg => ?_⟩
  · exact (h.stems.lists g e he).mono hwithin (fun _ _ _ => rfl) rfl rfl rfl
  · obtain ⟨e, he, rfl⟩ := modifyGroup_some hk
    obtain ⟨hspells, hnone⟩ := h.pending k e he
    split
    next hgk => exact ⟨hspells, fun hm => absurd (hgk ▸ hm) hg⟩
    next => exact ⟨hspells, fun hm => hnone (List.mem_cons_of_mem g hm)⟩
  · obtain ⟨e, he, rfl⟩ := modifyGroup_some hk
    split
    next hgk =>
      subst hgk
      have hspells := (h.pending g e he).1
      rw [hvariables e he] at hspells
      refine ⟨fun hnil => hne ?_, b, sits_append d.code _, Labelled.body (b := b) hspells⟩
      exact List.reverse_eq_nil_iff.mp (hspells.eq_nil_iff.mp hnil)
    next hgk =>
      have hlaid := h.laid k e he (List.not_mem_cons_of_ne_of_not_mem (Ne.symm hgk) hkg)
      have hmoved := hlaid.mono hwithin
      rwa [Option.map_id_apply] at hmoved

theorem leads_layOutInitialiser (hg : g ∉ gs) :
    Leads (Settled w (g :: gs)) (layOutInitialiser g) fun _ => Settled w gs := by
  have known : Leads (Settled w (g :: gs)) (group g) fun e d => Settled w (g :: gs) d ∧
      ∀ e', d.groups[g]? = some e' → e'.initialisers = e.initialisers := by
    refine fun d h => ⟨h, fun e he => ?_⟩
    change d.groups[g]? = some e at he
    show e.initialisers = (d.groups.getD g default).initialisers
    rw [Array.getD_eq_getD_getElem?, he, Option.getD_some]
  refine leads_bind known fun e => ?_
  split
  next hempty =>
    rintro d ⟨h, hvariables⟩
    exact h.spare fun e' he' => (hvariables e' he').trans (List.isEmpty_iff.mp hempty)
  next hempty =>
    rintro d ⟨h, hvariables⟩
    exact h.layOut hg hvariables (fun hnil => hempty (List.isEmpty_iff.mpr hnil)) _

/-- In the end all initialisers are laid out. -/
theorem leads_layOutInitialisers (hgs : gs.Nodup) :
    Leads (Settled w gs) (gs.forM layOutInitialiser) fun _ => Settled w [] := by
  induction gs with
  | nil => exact leads_pure fun _ h => h
  | cons g gs ih =>
    obtain ⟨hg, hgs⟩ := List.nodup_cons.mp hgs
    exact leads_bind (leads_layOutInitialiser hg) fun _ => ih hgs

end

/-! ## Whole scripts -/

theorem Assemble.Stage.settled {w : Progress} {n : Nat} {d : Draft} (h : Stage w n d)
    (hn : 1 ≤ n) (hwhole : ∀ g < n, w.seen g = w.members g) : Settled w (List.range n) d where
  stems := h.stems
  root := h.size ▸ hn
  whole g hg := hwhole g (h.size ▸ hg)
  pending g e he := ⟨(h.awaits g e he).2, fun _ => (h.awaits g e he).1⟩
  laid _ _ he hout :=
    absurd (List.mem_range.mpr (h.size ▸ (Array.getElem?_eq_some_iff.mp he).1)) hout

theorem stage_initial (declarations : List Declaration) :
    Stage ⟨fun _ => declarations, fun _ => []⟩ 1 Draft.initial := by
  have only : ∀ (g : GroupId) (e : GroupDraft), Draft.initial.groups[g]? = some e →
      g = Program.rootGroup ∧ e = ⟨default, [], []⟩ := by
    intro g e he
    cases g with
    | zero => exact ⟨rfl, (Option.some.inj he).symm⟩
    | succ g => cases he
  refine ⟨⟨fun g e he => ?_, fun g e he => ?_, nofun⟩, fun g e he => ?_, rfl⟩
  · obtain ⟨rfl, rfl⟩ := only g e he
    exact ⟨⟨[], rfl, List.forall_mem_nil _, .nil⟩, .nil, .nil⟩
  · obtain ⟨rfl, rfl⟩ := only g e he
    exact .inl ⟨rfl, rfl⟩
  · obtain ⟨rfl, rfl⟩ := only g e he
    exact ⟨rfl, labelled_nil⟩

/-- Without a defect all members of a script have been seen in the end. -/
theorem settled_draft {declarations : List Declaration}
    (h : (draft declarations).reading.problems = []) :
    ∃ w : Progress, w.members Program.rootGroup = declarations ∧
      Settled w [] (draft declarations) := by
  let Q := fun (_ : Unit) (d : Draft) =>
    ∃ w : Progress, w.members Program.rootGroup = declarations ∧ Settled w [] d
  have assembled : Secures (Stage ⟨fun _ => declarations, fun _ => []⟩ 1) (do
      assembleAll Program.rootGroup declarations
      (List.range (← get).groups.size).forM layOutInitialiser) Q := by
    refine secures_bind (secures_assembleAll _ _ _ 1 Nat.zero_lt_one) (fun _ d hd _ => ?_)
      fun _ => adds_bind adds_get fun _ => adds_forM adds_layOutInitialiser _
    obtain ⟨w, n, hd, hr⟩ := hd
    have hroot : w.members Program.rootGroup = declarations := hr.members _ Nat.zero_lt_one
    have hwhole : ∀ g < n, w.seen g = w.members g := by
      intro g hg
      rcases Nat.eq_zero_or_pos g with rfl | hpos
      · exact hr.seen.trans hroot.symm
      · exact hr.whole g hpos hg
    have hlaid := leads_layOutInitialisers (List.nodup_range (n := n)) d (hd.settled hr.grown hwhole)
    rw [← hd.size] at hlaid
    exact ⟨w, hroot, hlaid⟩
  exact assembled _ (stage_initial declarations) h

end StreamTransform.Script
