import StreamTransform.Proofs.Assembly

/-!
# Built bodies are trees

Code is only ever appended, one laid-out body at a time, and nothing inside of a
body looks like the start of another. So at every start of a body there is the
tree that it was laid out from.
-/

namespace StreamTransform

/-! ## Trees -/

/-- Where a body starts, a tree is laid out. -/
def Grown (code : Array Node) : Prop :=
  ∀ b, StartsBody code b → ∃ body : Body, Sits code b (body.code b)

/-- In what is laid out for a body no other body starts. -/
theorem startsBody_layOut {code : Array Node} {body : Body} {b : NodeId}
    (h : StartsBody (code ++ body.code code.size) b) : StartsBody code b ∨ b = code.size := by
  obtain ⟨n, hn, hb⟩ := h
  by_cases hlt : b < code.size
  · rw [getElem?_append_of_lt hlt] at hn
    exact .inl ⟨n, hn, hb⟩
  · have hle := Nat.le_of_not_lt hlt
    rw [getElem?_append_of_le hle] at hn
    cases hi : b - code.size with
    | zero => exact .inr (Nat.le_antisymm (Nat.le_of_sub_eq_zero hi) hle)
    | succ i =>
      rw [hi] at hn
      have hinside : Inside (codeOf (code.size + 1) body.statements ++
          [⟨.closing code.size, body.closing, none⟩]) :=
        inside_append (inside_codeOf _ _) (inside_closing _ _)
      exact absurd hb (hinside n (List.mem_of_getElem? hn))

theorem Grown.layOut {code : Array Node} (h : Grown code) (body : Body) :
    Grown (code ++ body.code code.size) := by
  intro b hb
  rcases startsBody_layOut hb with hb | rfl
  · obtain ⟨old, hs⟩ := h b hb
    exact ⟨old, fun i m hm => getElem?_append_of_some (hs i m hm)⟩
  · exact ⟨body, sits_append code _⟩

namespace Script

open Assemble

/-- What laying a body out leaves true of the code is left true by every declaration. -/
theorem Assemble.kept_of_code {P : Array Node → Prop}
    (h : ∀ code (b : Body), P code → P (code ++ b.code code.size)) :
    Kept fun d => P d.code := by
  let I : Draft → Prop := fun d => P d.code
  have reads : ∀ {α : Type} (r : Resolve α), Leads I (resolving r) fun _ => I := fun r =>
    leads_resolving r fun _ _ hd => hd
  have laidOut : ∀ b : Body, Leads I (layOut b) fun _ => I := fun b d hd => h d.code b hd
  have changed : ∀ g f, Leads I (modifyGroup g f) fun _ => I := fun g f =>
    leads_modify fun _ hd => hd
  constructor
  case reading => exact fun _ _ hd => hd
  case template =>
    intro n g _ source options content
    have assembled : Leads I ((Declaration.template source options content).assemble g)
        fun _ => I := by
      refine leads_bind (reads _) fun pattern => leads_bind (reads _) fun b =>
        leads_bind (laidOut b) fun start => ?_
      split
      · exact leads_pure fun _ hd => hd
      · exact leads_forM (fun p _ hd => hd) _
    exact fun d hd => assembled d hd.1
  case procedure =>
    intro n g _ name visibility content
    have declared : Leads I (do
        let b ← resolving (resolveBody content)
        let start ← layOut b
        addProcedure ⟨name, g, visibility, b.opening, start⟩) fun _ => I :=
      leads_bind (reads _) fun b => leads_bind (laidOut b) fun start _ hd => hd
    have assembled : Leads I ((Declaration.procedure name visibility content).assemble g)
        fun _ => I := by
      refine leads_bind (leads_get fun _ hd => hd) fun d => leads_bind (leads_group g) fun e => ?_
      split
      · exact leads_bind (reads _) fun _ => declared
      · exact declared
    exact fun d hd => assembled d hd.1
  case group => exact fun _ _ d hd => hd.1
  case declaration =>
    intro n g _ name c _
    have declared : Leads I (declareIn g name c) fun _ => I := by
      refine leads_bind (leads_group g) fun e => ?_
      split
      · exact reads _
      · exact leads_bind (reads _) fun s => changed g _
    exact fun d hd => declared d hd.1
  case initialiser =>
    intro g
    refine leads_bind (leads_group g) fun e => ?_
    split
    · exact leads_pure fun _ hd => hd
    · exact leads_bind (reads _) fun l => leads_bind (laidOut _) fun start => changed g _

/-- In a program that is built, every body is laid out from a tree. -/
theorem grown_of_build {ds : List Declaration} {p : Program} (h : build ds = .ok p) :
    Grown p.code := by
  have hinitial : Grown Draft.initial.code := by
    rintro b ⟨n, hn, -⟩
    simp [Draft.initial] at hn
  have hkept : Kept fun d => Grown d.code := kept_of_code fun _ b hp => hp.layOut b
  obtain ⟨d, hd, rfl⟩ := hkept.of_build hinitial h
  exact hd

end Script

end StreamTransform
