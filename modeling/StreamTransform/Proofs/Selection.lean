import StreamTransform.Proofs.Operation
import StreamTransform.Proofs.Visibility

/-!
# Selection takes the best template

A search stops at the first candidate that matches. As the candidates of a group are complete and
in order, the template it finds is the best one visible in the group that matches and is not
excluded, or else the best one visible everywhere. A pattern that cannot be evaluated counts as
one that does not match.
-/

namespace StreamTransform

/-! ## Search -/

section
variable {attempt : TemplateId → Except Path.Fault (Option Nat)} {ids : List TemplateId}
  {f : Found}

/-- The candidates that match after the one found are related to it as the list is ordered. -/
theorem of_search_some {r : TemplateId → TemplateId → Prop} (hr : ids.Pairwise r)
    (h : (search attempt ids).found = some f) :
    f.id ∈ ids ∧ attempt f.id = .ok (some f.position) ∧
      ∀ id ∈ ids, (∃ position, attempt id = .ok (some position)) → id = f.id ∨ r f.id id := by
  induction ids with
  | nil => cases h
  | cons id ids ih =>
    obtain ⟨hid, hr⟩ := List.pairwise_cons.1 hr
    -- a candidate that does not match is passed over
    have later : (∀ position, attempt id ≠ .ok (some position)) →
        (search attempt ids).found = some f →
        f.id ∈ id :: ids ∧ attempt f.id = .ok (some f.position) ∧ ∀ other ∈ id :: ids,
          (∃ position, attempt other = .ok (some position)) → other = f.id ∨ r f.id other := by
      intro hn hf
      obtain ⟨hm, ha, ho⟩ := ih hr hf
      exact ⟨List.mem_cons_of_mem _ hm, ha,
        List.forall_mem_cons.2 ⟨fun ⟨position, hp⟩ => (hn position hp).elim, ho⟩⟩
    unfold search at h
    split at h
    · rename_i position ha
      cases h
      exact ⟨List.mem_cons_self, ha,
        List.forall_mem_cons.2 ⟨fun _ => .inl rfl, fun other ho _ => .inr (hid other ho)⟩⟩
    · rename_i ha
      exact later (by simp [ha]) h
    · rename_i g ha
      exact later (by simp [ha]) h

theorem of_search_none (h : (search attempt ids).found = none) :
    ∀ id ∈ ids, ∀ position, attempt id ≠ .ok (some position) := by
  induction ids with
  | nil => exact fun id hm => (List.not_mem_nil hm).elim
  | cons id r ih =>
    unfold search at h
    split at h
    · cases h
    · rename_i ha
      exact List.forall_mem_cons.2 ⟨by simp [ha], ih h⟩
    · rename_i ha
      exact List.forall_mem_cons.2 ⟨by simp [ha], ih h⟩

theorem found_searchBoth (own global : List TemplateId) :
    (searchBoth attempt own global).found =
      (search attempt own).found.or (search attempt global).found := by
  simp only [searchBoth]
  split <;> simp [*]

end

/-! ## The best template -/

section
variable {p : Program} {g : GroupId} {exclude : List TemplateId} {hasChildren : Bool} {s : State}

/-- The template is not excluded, and its pattern matches the current node. -/
def State.Qualifies (s : State) (p : Program) (exclude : List TemplateId) (hasChildren : Bool)
    (id : TemplateId) : Prop :=
  id ∉ exclude ∧ ∃ position, s.matchTemplate p hasChildren id = .ok (some position)

/-- Of some templates one that qualifies, with none before it that qualifies. -/
structure State.IsBest (s : State) (p : Program) (exclude : List TemplateId) (hasChildren : Bool)
    (among : TemplateId → Prop) (id : TemplateId) : Prop where
  member : among id
  qualifies : s.Qualifies p exclude hasChildren id
  first : ∀ other, among other → s.Qualifies p exclude hasChildren other → ¬ p.Precedes other id

/-- What is to be found for the current node among the templates of a group. -/
structure State.Selected (s : State) (p : Program) (g : GroupId) (exclude : List TemplateId)
    (hasChildren : Bool) (found : Option Found) : Prop where
  /-- The best visible template, or the best global one if no visible one qualifies. -/
  best : ∀ id, found.map Found.id = some id ↔
    s.IsBest p exclude hasChildren (p.IsVisible g) id ∨
      (∀ other, p.IsVisible g other → ¬ s.Qualifies p exclude hasChildren other) ∧
        s.IsBest p exclude hasChildren p.IsGlobal id
  /-- Nothing is found exactly if no template qualifies. -/
  missing : found = none ↔ ∀ id, p.IsVisible g id ∨ p.IsGlobal id →
    ¬ s.Qualifies p exclude hasChildren id
  /-- The position is the one that the pattern gives the node. -/
  position : ∀ f, found = some f → s.matchTemplate p hasChildren f.id = .ok (some f.position)

/-- The candidates that are not excluded. -/
def eligible (exclude ids : List TemplateId) : List TemplateId :=
  ids.filter fun id => !exclude.contains id

theorem mem_eligible {ids : List TemplateId} {id : TemplateId} :
    id ∈ eligible exclude ids ↔ id ∈ ids ∧ id ∉ exclude := by
  simp [eligible]

variable {among : TemplateId → Prop} {ids : List TemplateId}

theorem template_of_match {id : TemplateId} {position : Nat}
    (h : s.matchTemplate p hasChildren id = .ok (some position)) :
    ∃ t, p.templates[id]? = some t := by
  unfold State.matchTemplate at h
  split at h
  · exact ⟨_, ‹_›⟩
  · cases h

/-- What a search through complete and ordered candidates finds is the best, and the only best. -/
theorem isBest_of_search (hm : ∀ id, id ∈ ids ↔ among id)
    (hs : ids.Pairwise fun a b => ¬ p.Precedes b a) {f : Found}
    (h : (search (s.matchTemplate p hasChildren) (eligible exclude ids)).found = some f)
    (id : TemplateId) : s.IsBest p exclude hasChildren among id ↔ f.id = id := by
  obtain ⟨hf, ha, hr⟩ := of_search_some (hs.sublist List.filter_sublist) h
  obtain ⟨hf, he⟩ := mem_eligible.1 hf
  constructor
  · intro hb
    rcases hr id (mem_eligible.2 ⟨(hm id).2 hb.member, hb.qualifies.1⟩) hb.qualifies.2 with
      rfl | hn
    · rfl
    · obtain ⟨t, ht⟩ := template_of_match ha
      obtain ⟨position, hp⟩ := hb.qualifies.2
      obtain ⟨u, hu⟩ := template_of_match hp
      exact Program.Precedes.total ht hu (hb.first _ ((hm _).1 hf) ⟨he, _, ha⟩) hn
  · rintro rfl
    refine ⟨(hm _).1 hf, ⟨he, _, ha⟩, fun other ho hq => ?_⟩
    rcases hr other (mem_eligible.2 ⟨(hm other).2 ho, hq.1⟩) hq.2 with rfl | hn
    · exact Program.Precedes.irrefl _
    · exact hn

theorem not_qualifies_of_search (hm : ∀ id, id ∈ ids ↔ among id)
    (h : (search (s.matchTemplate p hasChildren) (eligible exclude ids)).found = none)
    (id : TemplateId) (ha : among id) : ¬ s.Qualifies p exclude hasChildren id :=
  fun ⟨he, position, hp⟩ =>
    of_search_none h id (mem_eligible.2 ⟨(hm id).2 ha, he⟩) position hp

/-- Searching the candidates of a group selects as it should. -/
theorem selected_of_ranked (h : p.Ranked) (s : State) (g : GroupId) (exclude : List TemplateId)
    (hasChildren : Bool) :
    s.Selected p g exclude hasChildren (s.searchTemplates p g exclude hasChildren).found := by
  have hfound : (s.searchTemplates p g exclude hasChildren).found =
      (search (s.matchTemplate p hasChildren) (eligible exclude (p.group g).candidates)).found.or
        (search (s.matchTemplate p hasChildren) (eligible exclude p.globals)).found :=
    found_searchBoth _ _
  rw [hfound]
  cases hown : (search (s.matchTemplate p hasChildren)
      (eligible exclude (p.group g).candidates)).found with
  | some f =>
    have hb := isBest_of_search (h.visible g) (h.sorted g) hown
    have hf := (hb f.id).2 rfl
    refine ⟨fun id => ?_, ?_, fun f' hf' => ?_⟩
    · simp only [Option.some_or, Option.map_some, Option.some.injEq, hb]
      constructor
      · exact .inl
      · rintro (he | ⟨hn, -⟩)
        · exact he
        · exact (hn f.id hf.member hf.qualifies).elim
    · simp only [Option.some_or, reduceCtorEq, false_iff]
      exact fun hn => hn f.id (.inl hf.member) hf.qualifies
    · cases hf'
      exact (of_search_some ((h.sorted g).sublist List.filter_sublist) hown).2.1
  | none =>
    have hn := not_qualifies_of_search (h.visible g) hown
    have hv : ∀ id, ¬ s.IsBest p exclude hasChildren (p.IsVisible g) id := fun id hb =>
      hn id hb.member hb.qualifies
    rw [Option.none_or]
    cases hglobal : (search (s.matchTemplate p hasChildren) (eligible exclude p.globals)).found with
    | some f =>
      have hb := isBest_of_search h.everywhere h.globalSorted hglobal
      have hf := (hb f.id).2 rfl
      refine ⟨fun id => ?_, ?_, fun f' hf' => ?_⟩
      · simp only [Option.map_some, Option.some.injEq, hb]
        exact ⟨fun he => .inr ⟨hn, he⟩, fun hor => hor.elim (fun h => (hv id h).elim) And.right⟩
      · simp only [reduceCtorEq, false_iff]
        exact fun hn => hn f.id (.inr hf.member) hf.qualifies
      · cases hf'
        exact (of_search_some (h.globalSorted.sublist List.filter_sublist) hglobal).2.1
    | none =>
      have hg := not_qualifies_of_search h.everywhere hglobal
      refine ⟨fun id => ?_, ?_, nofun⟩
      · simp only [Option.map_none, reduceCtorEq, false_iff]
        rintro (hb | ⟨-, hb⟩)
        · exact hv id hb
        · exact hg id hb.member hb.qualifies
      · simp only [true_iff]
        rintro id (ha | ha)
        · exact hn id ha
        · exact hg id ha

/-! ## The operation -/

namespace Operation

variable {env : Environment}

/-- Reports apart, a selection comes to what the search finds. -/
theorem ensures_selectTemplate (env : Environment) (g : GroupId) (exclude : List TemplateId)
    (hasChildren : Bool) (s : State) :
    (selectTemplate env g exclude hasChildren).Ensures s
      (fun found _ => found = (s.searchTemplates env.program g exclude hasChildren).found)
      fun f s' => s'.record.Answered f := by
  have told : ∀ severity f node, Keeps (fun _ => True) (fun g s => s.record.Answered g)
      (report env severity f node) := fun _ _ _ _ _ => answered_report
  let result := s.searchTemplates env.program g exclude hasChildren
  have last : ∀ s₁ found, (do
      result.faults.forM fun p => report env .error (.evaluation p.2) (env.program.bodyOf p.1)
      pure found : Operation (Option Found)).Ensures s₁ (fun f _ => f = found)
        fun f s' => s'.record.Answered f := fun s₁ _ =>
    (keeps_forM (fun _ => told _ _ _) _).then trivial (fun _ _ _ => rfl) fun _ _ ha => ha
  have warned : ∀ f, Keeps (fun _ => True) (fun g s => s.record.Answered g)
      (warnOfRival env hasChildren f) := by
    intro f
    refine keeps_bind keeps_get fun _ => ?_
    split
    · exact told _ _ _
    · exact keeps_pure _
  rw [selectTemplate, ensures_bind, ensures_get]
  dsimp only
  split
  · exact (warned _).then trivial (fun _ s₁ _ => last s₁ _) fun _ _ ha => ha
  · exact last s _

end Operation

open Operation in
/-- In a program that is built, whatever the state, the best template is selected: the first one
of those that match the current node, among the templates visible in the group, or else among the
global ones. Only the answer of the listener to a report keeps the selection from its result. -/
theorem selection_is_optimal {ds : List Script.Declaration} {env : Environment}
    (h : Script.build ds = .ok env.program) (g : GroupId) (exclude : List TemplateId)
    (hasChildren : Bool) (s : State) :
    (selectTemplate env g exclude hasChildren).Ensures s
      (fun found _ => s.Selected env.program g exclude hasChildren found)
      fun f s' => s'.record.Answered f :=
  (ensures_selectTemplate env g exclude hasChildren s).mono
    (fun _ _ hf => hf ▸ selected_of_ranked (Script.ranked_of_build h) s g exclude hasChildren)
    fun _ _ ha => ha

end

/-- Two groups of the outermost one: the first shows a template, the second has a global one. -/
def selectingScript : List Script.Declaration :=
  [.group "inner" [.template "item" { visibility := .parent } []],
    .group "fallback" [.template "*" { visibility := .everywhere } []]]

def selecting : Environment :=
  ⟨(Script.draft selectingScript).program, {}, .plain fun _ => none⟩

/-- An element below the root is the current node. -/
def atItem : State :=
  { State.initial selecting.program with
    nodes := [.fresh (.met 1 (.element (.simple "item") [])), .fresh (.met 0 .root)] }

theorem build_selecting : Script.build selectingScript = .ok selecting.program :=
  Script.build_of_draft (by decide +kernel)

theorem selection_is_optimal_at_item :
    (Operation.selectTemplate selecting 0 [0] true).Ensures atItem
        (fun found _ => atItem.Selected selecting.program 0 [0] true found)
        (fun f s => s.record.Answered f) ∧
      (atItem.searchTemplates selecting.program 0 [] true).found.map Found.id = some 0 ∧
      (atItem.searchTemplates selecting.program 0 [0] true).found.map Found.id = some 1 :=
  ⟨selection_is_optimal build_selecting 0 [0] true atItem, by decide +kernel, by decide +kernel⟩

end StreamTransform
