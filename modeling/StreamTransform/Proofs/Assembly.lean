import StreamTransform.Proofs.Layout
import StreamTransform.Proofs.Relinking

/-!
# Built programs are well nested

The code of a program that is built consists of bodies, one after the other, and where these start is
noted. So it is well nested, and templates, procedures and the declarations of groups start at bodies.
-/

namespace StreamTransform

/-- The code is well nested, and what can be run starts at a body. -/
structure Program.WellNested (p : Program) : Prop where
  code : StreamTransform.WellNested p.code
  template : ∀ (id : TemplateId) (t : Template), p.templates[id]? = some t →
    StartsBody p.code t.body
  procedure : ∀ (id : ProcedureId) (q : Procedure), p.procedures[id]? = some q →
    StartsBody p.code q.body
  initialiser : ∀ (g : GroupId) (b : NodeId), (p.group g).initialiser = some b →
    StartsBody p.code b

namespace Script

/-- Without problems, a program is that of the draft. -/
theorem draft_of_build {declarations : List Declaration} {p : Program}
    (h : build declarations = .ok p) :
    (draft declarations).reading.problems = [] ∧ p = (draft declarations).program := by
  rw [build_eq] at h
  unfold assembled at h
  simp only at h
  split at h
  next hempty => exact ⟨List.isEmpty_iff.mp hempty, (Except.ok.inj h).symm⟩
  next => cases h

theorem build_of_draft {declarations : List Declaration}
    (h : (draft declarations).reading.problems.isEmpty) :
    build declarations = .ok (draft declarations).program :=
  (build_eq declarations).trans (if_pos h)

theorem Assemble.Kept.of_build {I : Draft → Prop} (h : Kept I) (h₀ : I Draft.initial)
    {ds : List Declaration} {p : Program} (hb : build ds = .ok p) : ∃ d, I d ∧ p = d.program :=
  ⟨_, h.of_draft h₀ ds, (draft_of_build hb).2⟩

/-! ## Nesting -/

/-- The same of a draft. -/
structure Draft.WellNested (d : Draft) : Prop where
  code : StreamTransform.WellNested d.code
  template : ∀ (id : TemplateId) (t : Template), d.templates[id]? = some t →
    StartsBody d.code t.body
  procedure : ∀ (id : ProcedureId) (q : Procedure), d.procedures[id]? = some q →
    StartsBody d.code q.body
  initialiser : ∀ (g : GroupId) (e : GroupDraft) (b : NodeId), d.groups[g]? = some e →
    e.group.initialiser = some b → StartsBody d.code b

namespace Assemble

/-- The draft with a body still laid out at a position. -/
def Holds (i : NodeId) (d : Draft) : Prop := d.WellNested ∧ StartsBody d.code i

theorem resolving_keeps (r : Resolve α) :
    Leads Draft.WellNested (resolving r) fun _ => Draft.WellNested :=
  leads_resolving r fun _ _ h => ⟨h.code, h.template, h.procedure, h.initialiser⟩

theorem layOut_leads (b : Body) : Leads Draft.WellNested (layOut b) Holds := by
  intro d h
  obtain ⟨hcode, hstarts⟩ := h.code.layOut b
  exact ⟨⟨hcode, fun id t ht => (h.template id t ht).append,
    fun id q hq => (h.procedure id q hq).append,
    fun g e i he hi => (h.initialiser g e i he hi).append⟩, hstarts⟩

/-- A change of a group that keeps its initialiser, or takes a body that is laid out for it. -/
theorem wellNested_modifyGroup {d : Draft} (h : d.WellNested) (g : GroupId)
    {f : GroupDraft → GroupDraft}
    (hf : ∀ e b, (f e).group.initialiser = some b → e.group.initialiser = some b ∨
      StartsBody d.code b) :
    ({ d with groups := d.groups.modify g f } : Draft).WellNested where
  code := h.code
  template := h.template
  procedure := h.procedure
  initialiser k e b he hb := by
    simp only [Array.getElem?_modify] at he
    split at he
    · obtain ⟨e', he', rfl⟩ := Option.map_eq_some_iff.mp he
      rcases hf e' b hb with hold | hnew
      · exact h.initialiser k e' b he' hold
      · exact hnew
    · exact h.initialiser k e b he hb

theorem addTemplate_keeps {t : Template} {start : NodeId} (ht : t.body = start) :
    Leads (Holds start) (addTemplate t) fun _ => Holds start := by
  subst ht
  intro d ⟨h, hs⟩
  have hpushed : ({ d with templates := d.templates.push t } : Draft).WellNested := by
    refine ⟨h.code, fun id u hu => ?_, h.procedure, h.initialiser⟩
    rw [Array.getElem?_push] at hu
    split at hu
    · obtain rfl := Option.some.inj hu
      exact hs
    · exact h.template id u hu
  exact ⟨wellNested_modifyGroup hpushed t.group fun e b hb => .inl hb, hs⟩

theorem addProcedure_keeps {q : Procedure} {start : NodeId} (hq : q.body = start) :
    Leads (Holds start) (addProcedure q) fun _ => Draft.WellNested := by
  subst hq
  intro d ⟨h, hs⟩
  have hpushed : ({ d with procedures := d.procedures.push q } : Draft).WellNested := by
    refine ⟨h.code, h.template, fun id u hu => ?_, h.initialiser⟩
    rw [Array.getElem?_push] at hu
    split at hu
    · obtain rfl := Option.some.inj hu
      exact hs
    · exact h.procedure id u hu
  exact wellNested_modifyGroup hpushed q.group fun e b hb => .inl hb

theorem addGroup_keeps (name : String) (parent : GroupId) :
    Leads Draft.WellNested (addGroup name parent) fun _ => Draft.WellNested := by
  intro d h
  have hpushed : ∀ e : GroupDraft, e.group.initialiser = none →
      ({ d with groups := d.groups.push e } : Draft).WellNested := by
    intro e he
    refine ⟨h.code, h.template, h.procedure, fun g e' b hg hb => ?_⟩
    rw [Array.getElem?_push] at hg
    split at hg
    · obtain rfl := Option.some.inj hg
      simp [he] at hb
    · exact h.initialiser g e' b hg hb
  refine wellNested_modifyGroup (hpushed _ ?_) parent fun e b hb => .inl hb
  rfl

theorem declareIn_keeps (g : GroupId) (name : String) (c : Container) :
    Leads Draft.WellNested (declareIn g name c) fun _ => Draft.WellNested := by
  refine leads_bind (leads_group g) fun e => ?_
  split
  · exact resolving_keeps _
  · refine leads_bind (resolving_keeps _) fun s => leads_modify fun d h => ?_
    exact wellNested_modifyGroup h g fun e b hb => .inl hb

theorem layOutInitialiser_keeps (g : GroupId) :
    Leads Draft.WellNested (layOutInitialiser g) fun _ => Draft.WellNested := by
  refine leads_bind (leads_group g) fun e => ?_
  split
  · exact leads_pure fun _ h => h
  · refine leads_bind (resolving_keeps _) fun l => leads_bind (layOut_leads _) fun start =>
      leads_modify fun d h => ?_
    refine wellNested_modifyGroup h.1 g fun e b hb => .inr ?_
    obtain rfl : start = b := by simpa using hb
    exact h.2

theorem wellNested_kept : Kept Draft.WellNested where
  reading d r h := ⟨h.code, h.template, h.procedure, h.initialiser⟩
  template {n g} _ source options content := by
    have laidOut : Leads Draft.WellNested
        ((Declaration.template source options content).assemble g) fun _ => Draft.WellNested := by
      refine leads_bind (resolving_keeps _) fun pattern => leads_bind (resolving_keeps _) fun b =>
        leads_bind (layOut_leads b) fun start => ?_
      split
      · exact leads_pure fun _ h => h.1
      · have added := fun p => addTemplate_keeps (t := ⟨p, source, options.priority.getD p.priority,
          options.visibility, options.recursionEntry, g, b.opening, start⟩) rfl
        exact fun d h => (leads_forM added _ d h).1
    exact fun d h => laidOut d h.1
  procedure {n g} _ name visibility content := by
    have laidOut : Leads Draft.WellNested (do
        let b ← resolving (resolveBody content)
        let start ← layOut b
        addProcedure ⟨name, g, visibility, b.opening, start⟩) fun _ => Draft.WellNested :=
      leads_bind (resolving_keeps _) fun b => leads_bind (layOut_leads b) fun start =>
        addProcedure_keeps rfl
    have declared : Leads Draft.WellNested
        ((Declaration.procedure name visibility content).assemble g) fun _ => Draft.WellNested := by
      refine leads_bind (leads_get fun _ h => h) fun d => leads_bind (leads_group g) fun e => ?_
      split
      · exact leads_bind (resolving_keeps _) fun _ => laidOut
      · exact laidOut
    exact fun d h => declared d h.1
  group {n g} _ name d h := addGroup_keeps name g d h.1
  declaration {n g} _ name {c} _ d h := declareIn_keeps g name c d h.1
  initialiser := layOutInitialiser_keeps

end Assemble

open Assemble

theorem wellNested_initial : Draft.initial.WellNested where
  code := wellNested_empty
  template id t ht := by simp [Draft.initial] at ht
  procedure id q hq := by simp [Draft.initial] at hq
  initialiser g e b he hb := by
    cases g with
    | zero =>
      obtain rfl := Option.some.inj he
      cases hb
    | succ g => cases he

theorem Draft.initialiser_program {d : Draft} {g : GroupId} {b : NodeId}
    (h : (d.program.group g).initialiser = some b) :
    ∃ e, d.groups[g]? = some e ∧ e.group.initialiser = some b := by
  rw [Program.group, Array.getD_eq_getD_getElem?, d.getElem?_program] at h
  cases he : d.groups[g]? with
  | none =>
    rw [he] at h
    cases h
  | some e =>
    rw [he] at h
    exact ⟨e, rfl, h⟩

theorem Draft.WellNested.program {d : Draft} (h : d.WellNested) : d.program.WellNested where
  code := h.code
  template := h.template
  procedure := h.procedure
  initialiser g b hb := by
    obtain ⟨e, he, hb⟩ := d.initialiser_program hb
    exact h.initialiser g e b he hb

/-- Every program that is built is well nested. -/
theorem wellNested_of_build {ds : List Declaration} {p : Program} (h : build ds = .ok p) :
    p.WellNested := by
  obtain ⟨d, hd, rfl⟩ := wellNested_kept.of_build wellNested_initial h
  exact hd.program

/-- What no declarations make up. -/
def bareProgram : Program where
  code := #[]
  templates := #[]
  procedures := #[]
  groups := #[{ (default : Group) with ancestry := [Program.rootGroup] }]
  globals := []

theorem build_nil : build [] = .ok bareProgram := by
  with_unfolding_all rfl

end Script

end StreamTransform
