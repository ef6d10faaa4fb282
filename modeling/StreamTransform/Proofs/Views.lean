import StreamTransform.Program.Linked
import StreamTransform.Proofs.Outlines

/-!
# What groups list

A view shows the templates, the procedures and the groups of a program, or of a draft of one, and
bodies by what they are labelled with. A group lists what its members declare: its templates,
procedures and groups are those of the declarations, in order, and their bodies have the outlines of
what is written in them. What a group lists it still lists when more is seen.
-/

namespace StreamTransform.Script

/-! ## Members of a group -/

structure TemplateText where
  source : String
  options : TemplateOptions
  content : List Command

structure ProcedureText where
  name : String
  visibility : Visibility
  content : List Command

structure GroupText where
  name : String
  members : List Declaration

namespace Declaration

def template? : Declaration → Option TemplateText
  | .template source options content => some ⟨source, options, content⟩
  | _ => none

def procedure? : Declaration → Option ProcedureText
  | .procedure name visibility content => some ⟨name, visibility, content⟩
  | _ => none

def group? : Declaration → Option GroupText
  | .group name members => some ⟨name, members⟩
  | _ => none

/-- What the declaration of a variable of a group is to be laid out as. -/
def labels (g : GroupId) : Declaration → List Label
  | .variable name select => (Label.variable name select (.group g)).around []
  | .parameter name select => (Label.parameter name (some select) (.group g)).around []
  | .required name => (Label.parameter name none (.group g)).around []
  | .locate _ | .bind .. | .template .. | .procedure .. | .group .. => []

end Declaration

/-! ## Views -/

/-- What is seen of a program, or of a draft of one: bodies by what they are labelled with. -/
structure View where
  template? : TemplateId → Option Template
  procedure? : ProcedureId → Option Procedure
  group? : GroupId → Option Group
  body : NodeId → List Label → Prop

/-- A template declaration, with the pattern that is read from it and its body. -/
structure LaidTemplate where
  text : TemplateText
  pattern : Path.Pattern
  body : NodeId

def LaidTemplate.renumber (f : NodeId → NodeId) (l : LaidTemplate) : LaidTemplate :=
  { l with body := f l.body }

namespace View

variable {v v' : View} {members members' : GroupId → List Declaration} {g : GroupId} {e e' : Group}
  {declared : List Declaration}

/-- The template is one alternative of a declaration in a group. -/
def Offers (v : View) (g : GroupId) (id : TemplateId) (x : LaidTemplate × Path.PathPattern) :
    Prop :=
  ∃ t, v.template? id = some t ∧ t.pattern = x.2 ∧ t.source = x.1.text.source ∧
    t.visibility = x.1.text.options.visibility ∧ t.group = g ∧ t.body = x.1.body

/-- The procedure is the one of a declaration in a group. -/
def Calls (v : View) (g : GroupId) (id : ProcedureId) (x : ProcedureText) : Prop :=
  ∃ q, v.procedure? id = some q ∧ q.name = x.name ∧ q.visibility = x.visibility ∧ q.group = g ∧
    v.body q.body (outline x.content)

/-- The group is the one of a declaration in a group, with its members. -/
def Nests (v : View) (members : GroupId → List Declaration) (g c : GroupId) (x : GroupText) : Prop :=
  ∃ e, v.group? c = some e ∧ e.name = some x.name ∧ e.parent = some g ∧ members c = x.members

/-- A group lists what is declared in it, in order. All alternatives of a pattern share a body. -/
structure Lists (v : View) (members : GroupId → List Declaration) (g : GroupId) (e : Group)
    (declared : List Declaration) : Prop where
  templates : ∃ laid : List LaidTemplate,
    laid.map LaidTemplate.text = declared.filterMap Declaration.template? ∧
    (∀ l ∈ laid, (∃ ns, Path.parsePattern ns l.text.source = .ok l.pattern) ∧
      v.body l.body (outline l.text.content)) ∧
    List.Forall₂ (v.Offers g) e.templates
      (laid.flatMap fun l => l.pattern.alternatives.map (l, ·))
  procedures : List.Forall₂ (v.Calls g) e.procedures (declared.filterMap Declaration.procedure?)
  children : List.Forall₂ (v.Nests members g) e.children (declared.filterMap Declaration.group?)

/-- A body is laid out for these labels, unless there are none. -/
def Starts (v : View) (ls : List Label) : Option NodeId → Prop
  | none => ls = []
  | some b => ls ≠ [] ∧ v.body b (Label.body.around ls)

/-- One view shows at least what another one does, with the bodies elsewhere. -/
structure Within (v v' : View) (f : NodeId → NodeId) : Prop where
  template : ∀ id t, v.template? id = some t → v'.template? id = some (t.renumber f)
  procedure : ∀ id q, v.procedure? id = some q → v'.procedure? id = some (q.renumber f)
  group : ∀ c e, v.group? c = some e →
    ∃ e', v'.group? c = some e' ∧ e'.name = e.name ∧ e'.parent = e.parent
  body : ∀ b ls, v.body b ls → v'.body (f b) ls

section
variable {f : NodeId → NodeId}

theorem Offers.mono {id : TemplateId} {x : LaidTemplate × Path.PathPattern} (h : v.Offers g id x)
    (hv : v.Within v' f) : v'.Offers g id (x.1.renumber f, x.2) := by
  obtain ⟨t, ht, hpattern, hsource, hvisibility, hgroup, hbody⟩ := h
  exact ⟨_, hv.template id t ht, hpattern, hsource, hvisibility, hgroup, congrArg f hbody⟩

theorem Calls.mono {id : ProcedureId} {x : ProcedureText} (h : v.Calls g id x)
    (hv : v.Within v' f) : v'.Calls g id x := by
  obtain ⟨q, hq, hname, hvisibility, hgroup, hbody⟩ := h
  exact ⟨_, hv.procedure id q hq, hname, hvisibility, hgroup, hv.body _ _ hbody⟩

theorem Nests.mono {c : GroupId} {x : GroupText} (h : v.Nests members g c x) (hv : v.Within v' f)
    (hm : ∀ c e, v.group? c = some e → members' c = members c) : v'.Nests members' g c x := by
  obtain ⟨e, he, hname, hparent, hx⟩ := h
  obtain ⟨e', he', hname', hparent'⟩ := hv.group c e he
  exact ⟨e', he', hname'.trans hname, hparent'.trans hparent, (hm c e he).trans hx⟩

/-- What a group lists it still lists when more is seen. -/
theorem Lists.mono (h : v.Lists members g e declared) (hv : v.Within v' f)
    (hm : ∀ c e, v.group? c = some e → members' c = members c)
    (ht : e'.templates = e.templates) (hp : e'.procedures = e.procedures)
    (hc : e'.children = e.children) : v'.Lists members' g e' declared where
  templates := by
    obtain ⟨laid, htexts, hlaid, hoffers⟩ := h.templates
    refine ⟨laid.map (LaidTemplate.renumber f), ?_, List.forall_mem_map.mpr fun l hl =>
      ⟨(hlaid l hl).1, hv.body _ _ (hlaid l hl).2⟩, ?_⟩
    · rw [List.map_map]
      exact htexts
    · have hoffers' : List.Forall₂ (v'.Offers g) e.templates
          ((laid.flatMap fun l => l.pattern.alternatives.map (l, ·)).map fun x =>
            (x.1.renumber f, x.2)) :=
        List.forall₂_map_right_iff.mpr (hoffers.imp fun _ _ h => h.mono hv)
      rw [List.map_flatMap] at hoffers'
      simp only [List.map_map] at hoffers'
      rw [ht, List.flatMap_map]
      exact hoffers'
  procedures := by
    rw [hp]
    exact h.procedures.imp fun _ _ h => h.mono hv
  children := by
    rw [hc]
    exact h.children.imp fun _ _ h => h.mono hv hm

theorem Starts.mono {ls : List Label} {b? : Option NodeId} (h : v.Starts ls b?)
    (hv : v.Within v' f) : v'.Starts ls (b?.map f) := by
  cases b? with
  | none => exact h
  | some b => exact ⟨h.1, hv.body b _ h.2⟩

end

section
variable {α : Type} {part? : Declaration → Option α} {x : Declaration}

theorem parts_concat_none (h : part? x = none) :
    (declared ++ [x]).filterMap part? = declared.filterMap part? := by
  rw [List.filterMap_append, List.filterMap_cons, h, List.filterMap_nil, List.append_nil]

theorem parts_concat_some (part? : Declaration → Option α) {a : α} (h : part? x = some a) :
    (declared ++ [x]).filterMap part? = declared.filterMap part? ++ [a] := by
  rw [List.filterMap_append, List.filterMap_cons, h, List.filterMap_nil]

end

/-- A member that declares neither a template nor a procedure nor a group changes nothing. -/
theorem Lists.aside (h : v.Lists members g e declared) {x : Declaration}
    (ht : x.template? = none) (hp : x.procedure? = none) (hg : x.group? = none) :
    v.Lists members g e (declared ++ [x]) where
  templates := by
    rw [parts_concat_none ht]
    exact h.templates
  procedures := by
    rw [parts_concat_none hp]
    exact h.procedures
  children := by
    rw [parts_concat_none hg]
    exact h.children

section
variable (h : v.Lists members g e declared)

include h

theorem Lists.template {x : TemplateText} {l : LaidTemplate} {ids : List TemplateId}
    (hx : l.text = x) (hp : ∃ ns, Path.parsePattern ns x.source = .ok l.pattern)
    (hb : v.body l.body (outline x.content))
    (hids : List.Forall₂ (v.Offers g) ids (l.pattern.alternatives.map (l, ·)))
    (hte : e'.templates = e.templates ++ ids) (hpe : e'.procedures = e.procedures)
    (hce : e'.children = e.children) :
    v.Lists members g e' (declared ++ [.template x.source x.options x.content]) where
  templates := by
    subst hx
    obtain ⟨laid, htexts, hlaid, hoffers⟩ := h.templates
    refine ⟨laid ++ [l], ?_, ?_, ?_⟩
    · rw [List.map_append, htexts]
      exact (parts_concat_some Declaration.template? rfl).symm
    · exact List.forall_mem_append.mpr ⟨hlaid, List.forall_mem_singleton.mpr ⟨hp, hb⟩⟩
    · rw [hte, List.flatMap_append, List.flatMap_singleton]
      exact List.rel_append hoffers hids
  procedures := by
    rw [hpe, parts_concat_none rfl]
    exact h.procedures
  children := by
    rw [hce, parts_concat_none rfl]
    exact h.children

theorem Lists.procedure {x : ProcedureText} {id : ProcedureId} (hid : v.Calls g id x)
    (hte : e'.templates = e.templates) (hpe : e'.procedures = e.procedures ++ [id])
    (hce : e'.children = e.children) :
    v.Lists members g e' (declared ++ [.procedure x.name x.visibility x.content]) where
  templates := by
    rw [hte, parts_concat_none rfl]
    exact h.templates
  procedures := by
    rw [hpe, parts_concat_some Declaration.procedure? rfl]
    exact List.rel_append h.procedures (.cons hid .nil)
  children := by
    rw [hce, parts_concat_none rfl]
    exact h.children

theorem Lists.group {x : GroupText} {c : GroupId} (hc : v.Nests members g c x)
    (hte : e'.templates = e.templates) (hpe : e'.procedures = e.procedures)
    (hce : e'.children = e.children ++ [c]) :
    v.Lists members g e' (declared ++ [.group x.name x.members]) where
  templates := by
    rw [hte, parts_concat_none rfl]
    exact h.templates
  procedures := by
    rw [hpe, parts_concat_none rfl]
    exact h.procedures
  children := by
    rw [hce, parts_concat_some Declaration.group? rfl]
    exact List.rel_append h.children (.cons hc .nil)

end

/-! ### Listed numbers -/

theorem forall_of_forall₂ {α β : Type} {R : α → β → Prop} {P : α → Prop} {as : List α}
    {bs : List β} (h : List.Forall₂ R as bs) (hP : ∀ a b, R a b → P a) : ∀ a ∈ as, P a :=
  ((List.forall₂_and_left as bs).mp (h.imp fun a b hr => ⟨hP a b hr, hr⟩)).1

section
variable (h : v.Lists members g e declared)

include h

theorem Lists.exists_template : ∀ id ∈ e.templates, ∃ t, v.template? id = some t := by
  obtain ⟨laid, -, -, hoffers⟩ := h.templates
  exact forall_of_forall₂ hoffers fun _ _ ⟨t, ht, _⟩ => ⟨t, ht⟩

theorem Lists.exists_procedure : ∀ id ∈ e.procedures, ∃ q, v.procedure? id = some q :=
  forall_of_forall₂ h.procedures fun _ _ ⟨q, hq, _⟩ => ⟨q, hq⟩

theorem Lists.exists_group : ∀ c ∈ e.children, ∃ e', v.group? c = some e' :=
  forall_of_forall₂ h.children fun _ _ ⟨e', he', _⟩ => ⟨e', he'⟩

end

end View

end StreamTransform.Script
