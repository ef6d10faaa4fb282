import StreamTransform.Proofs.Structured

/-!
# Variables of a body

A variable of a body is bound in the innermost scope of what its declaration
stands in. That scope stays, with the names it has, as long as the content that
it belongs to is done, and goes with it. Further out no name is bound or lost
meanwhile.
-/

namespace StreamTransform

/-- The innermost scope has kept its names and may have got more; the others have the names they
had. -/
structure Scoped (s s' : List Bindings) : Prop where
  length : s'.length = s.length
  innermost : ∀ name, (s.headD []).holds name → (s'.headD []).holds name
  outer : s'.tail.map Bindings.holds = s.tail.map Bindings.holds

theorem Bindings.holds_insert (b : Bindings) (name other : String) (v : Value) :
    (b.insert name v).holds other = (other == name || b.holds other) := by
  have h := congrArg Option.isSome (b.get?_insert name other v)
  change (b.insert name v).holds other = _ at h
  rw [h]
  by_cases he : other = name
  · simp [he]
  · simp [he, Bindings.holds, Bindings.get?]

theorem Bindings.holds_insert_of_holds {b : Bindings} {name : String} (h : b.holds name)
    (v : Value) : (b.insert name v).holds = b.holds := by
  funext other
  rw [b.holds_insert]
  by_cases he : other = name
  · simp [he, h]
  · simp [he]

theorem holds_assignInScopes {name : String} {v : Value} {s s' : List Bindings}
    (h : assignInScopes name v s = some s') : s'.map Bindings.holds = s.map Bindings.holds := by
  induction s generalizing s' with
  | nil => cases h
  | cons b s ih =>
    unfold assignInScopes at h
    split at h
    · rename_i hb
      cases h
      rw [List.map_cons, List.map_cons, Bindings.holds_insert_of_holds hb]
    · obtain ⟨r, hr, rfl⟩ := Option.map_eq_some_iff.mp h
      rw [List.map_cons, List.map_cons, ih hr]

/-- Whether a variable is found depends on the names that are bound. -/
theorem isSome_findInScopes (s : List Bindings) (name : String) :
    (findInScopes s name).isSome = (s.map Bindings.holds).any (· name) := by
  induction s with
  | nil => rfl
  | cons b s ih =>
    have hb : b.holds name = (b.get? name).isSome := rfl
    rw [List.map_cons, List.any_cons, ← ih, hb, findInScopes, List.findSome?_cons]
    cases b.get? name <;> rfl

namespace Scoped

variable {s s' s'' : List Bindings}

theorem of_holds (h : s'.map Bindings.holds = s.map Bindings.holds) : Scoped s s' where
  length := by simpa using congrArg List.length h
  innermost name := by
    cases s with
    | nil => cases s' <;> simp at h ⊢
    | cons b s =>
      cases s' with
      | nil => simp at h
      | cons b' s' =>
        obtain ⟨hb, -⟩ := List.cons.inj h
        simp [hb]
  outer := by rw [List.map_tail, List.map_tail, h]

theorem refl (s : List Bindings) : Scoped s s := .of_holds rfl

theorem trans (h : Scoped s s') (h' : Scoped s' s'') : Scoped s s'' where
  length := h'.length.trans h.length
  innermost name hn := h'.innermost name (h.innermost name hn)
  outer := h'.outer.trans h.outer

/-- In scopes further out the same names are bound. -/
theorem holds_drop (h : Scoped s s') (k : Nat) :
    (s'.drop (k + 1)).map Bindings.holds = (s.drop (k + 1)).map Bindings.holds := by
  rw [← List.drop_tail, ← List.drop_tail, List.map_drop, List.map_drop, h.outer]

theorem drop (h : Scoped s s') (k : Nat) : Scoped (s.drop k) (s'.drop k) := by
  cases k with
  | zero => exact h
  | succ k => exact .of_holds (h.holds_drop k)

/-- What a container binds is bound in the innermost scope. -/
theorem bind (c : Container) (v : Value) (s : List Bindings) : Scoped s (c.bind v s) := by
  have declared : ∀ (home : Home) name, Scoped s (home.bind name v s) := by
    rintro (_ | g) name
    · cases s with
      | nil => exact .refl _
      | cons b s =>
        refine ⟨rfl, fun other h => ?_, rfl⟩
        have hb : b.holds other := h
        simp [Home.bind, declareInScopes, Bindings.holds_insert, hb]
    · exact .refl s
  cases c with
  | «variable» name _ home => exact declared home name
  | parameter name _ home => exact declared home name
  | assign name origin =>
    change Scoped s ((assignInScopes name v s).getD s)
    cases h : assignInScopes name v s with
    | none => exact .refl s
    | some s' => exact .of_holds (holds_assignInScopes h)
  | _ => exact .refl s

end Scoped

/-! ## Deeds in their scopes -/

def Piece.isClosing : Piece → Bool
  | .closing .. => true
  | .sequence _ | .statement _ | .branches .. | .plain .. | .rounds .. => false

/-- How many contents end in a plan that began before. -/
def Plan.closings (p : Plan) : Nat := p.countP fun w => w.2.isClosing

theorem Plan.closings_cons (w : NodeId × Piece) (p : Plan) :
    Plan.closings (w :: p) = Plan.closings [w] + Plan.closings p := by
  simp [Plan.closings, List.countP_cons, Nat.add_comm]

/-- The scopes outside so many contents are there for every deed, and are left at the end. -/
structure Confined (k : Nat) (s : List Bindings) (ds : List Deed) (s' : List Bindings)
    (e : Ending) : Prop where
  deeds : ∀ d ∈ ds, ∃ inner outer, d.frame.scopes = inner ++ outer ∧ Scoped (s.drop k) outer
  finished : e = .finished → Scoped (s.drop k) s'

section
variable {env : Environment} {s s' s₁ : List Bindings} {d : Deed} {ds ds' : List Deed} {e : Ending}
  {k k' : Nat} {p : Plan}

theorem Confined.none (h : e = .finished → s' = s) : Confined 0 s [] s' e :=
  ⟨by simp, fun he => h he ▸ .refl s⟩

theorem Confined.one (hd : d.frame.scopes = s) (h : Scoped s s') : Confined 0 s [d] s' e := by
  refine ⟨fun d' hd' => ?_, fun _ => h⟩
  obtain rfl := List.mem_singleton.mp hd'
  exact ⟨[], s, hd, .refl s⟩

/-- A first deed in front of others that have one scope more to end. -/
theorem Confined.enter {b : Bindings} (hd : d.frame.scopes = s) (h : Confined 1 (b :: s) ds s' e) :
    Confined 0 s (d :: ds) s' e :=
  ⟨List.forall_mem_cons.mpr ⟨⟨[], s, hd, .refl s⟩, h.deeds⟩, h.finished⟩

theorem Confined.after (hd : d.frame.scopes = s) (h : Confined 0 s ds s' e) :
    Confined 0 s (d :: ds) s' e :=
  ⟨List.forall_mem_cons.mpr ⟨⟨[], s, hd, .refl s⟩, h.deeds⟩, h.finished⟩

theorem Confined.append (h : Confined k s ds s₁ .finished) (h' : Confined k' s₁ ds' s' e) :
    Confined (k + k') s (ds ++ ds') s' e := by
  have hkept : Scoped (s.drop (k + k')) (s₁.drop k') := by
    rw [← List.drop_drop]
    exact (h.finished rfl).drop k'
  refine ⟨fun d hd => ?_, fun he => hkept.trans (h'.finished he)⟩
  rcases List.mem_append.mp hd with hd | hd
  · obtain ⟨inner, outer, heq, ho⟩ := h.deeds d hd
    refine ⟨inner ++ outer.take k', outer.drop k', by simpa using heq, ?_⟩
    rw [← List.drop_drop]
    exact ho.drop k'
  · obtain ⟨inner, outer, heq, ho⟩ := h'.deeds d hd
    exact ⟨inner, outer, heq, hkept.trans ho⟩

/-- The first deeds of a plan see the scopes that its later parts leave. -/
theorem Confined.weaken (h : Confined k s ds s' .stopped) (k' : Nat) :
    Confined (k + k') s ds s' .stopped := by
  refine ⟨fun d hd => ?_, by simp⟩
  obtain ⟨inner, outer, heq, ho⟩ := h.deeds d hd
  refine ⟨inner ++ outer.take k', outer.drop k', by simpa using heq, ?_⟩
  rw [← List.drop_drop]
  exact ho.drop k'

theorem Does.confined (h : Does env p s ds s' e) : Confined p.closings s ds s' e := by
  induction h with
  | stop w p s => exact ⟨by simp, by simp⟩
  | nil s => exact .none fun _ => rfl
  | @within w w' p _ _ _ _ ih => exact Plan.closings_cons w (w' :: p) ▸ ih.weaken _
  | @after w w' p _ _ _ _ _ _ _ _ ih ih' => exact Plan.closings_cons w (w' :: p) ▸ ih.append ih'
  | nothing => exact .none fun _ => rfl
  | noBranch => exact .none fun _ => rfl
  | act hr | refused _ hr | loopEnds hr | roundsEnd hr | conditionFails hr =>
    exact .one hr.scopes (.refl _)
  | selected v _ hr => exact .one hr.scopes (.bind _ v _)
  | entered _ hr _ _ _ ih => exact .enter hr.scopes ih
  | loop hr _ _ _ ih | round hr _ _ _ ih | condition hr _ _ _ ih | eitherYes hr _ _ _ ih
  | when hr _ _ _ ih => exact .enter hr.scopes ih
  | choose hr _ _ ih | plain hr _ _ ih => exact .enter hr.scopes ih
  | eitherNo hr _ _ _ ih | whenFails hr _ _ _ ih => exact .after hr.scopes ih
  | sequence _ ih | each _ ih | otherwise _ ih => exact ih
  | @closing _ _ _ _ s s' d hr hc =>
    have hkept : Scoped s.tail s' := by
      cases hc with
      | container v => exact .bind _ v _
      | body | lost | plain => exact .refl _
    refine ⟨fun d' hd => ?_, fun _ => show Scoped (s.drop 1) s' by rwa [List.drop_one]⟩
    obtain rfl := List.mem_singleton.mp hd
    exact ⟨s.take 1, s.drop 1, by rw [hr.scopes, List.take_append_drop], .refl _⟩

/-! ## From the declaration to the end of the content -/

/-- A name that is bound when the rest of a content begins is found by all of its deeds. -/
theorem Does.visible {i : NodeId} {xs : List Statement} {b : Bindings} {name : String}
    (h : Does env [(i, .sequence xs)] (b :: s) ds s' e) (hname : b.holds name) :
    ∀ d ∈ ds, (findInScopes d.frame.scopes name).isSome := by
  intro d hd
  obtain ⟨inner, outer, heq, ho⟩ := h.confined.deeds d hd
  have hnames := ho.innermost name hname
  rw [heq, isSome_findInScopes, List.map_append, List.any_append, Bool.or_eq_true]
  cases outer with
  | nil => cases hnames
  | cons b' outer => exact .inr (by simpa using .inl hnames)

/-- A declaration that is done has bound its name where it stands, unless its start or its end was
reported. -/
theorem Does.declared {i : NodeId} {l l' : Location} {c : Container} {xs : List Statement}
    {b : Bindings} {name : String}
    (h : Does env [(i, .statement (.enclose l c xs l'))] (b :: s) ds s' .finished)
    (hc : c.declares? = some name) :
    (∃ d, (ds.head? = some d ∨ ds.getLast? = some d) ∧ d.Complains) ∨
      ∃ b' r, s' = b' :: r ∧ b'.holds name := by
  have bound : ∀ v b r, ∃ b' r', c.bind v (b :: r) = b' :: r' ∧ b'.holds name := by
    intro v b r
    unfold Container.declares? at hc
    split at hc <;> cases hc <;>
      exact ⟨b.insert name v, r, rfl, by simp [Bindings.holds_insert]⟩
  cases h with
  | selected v _ _ _ _ => exact .inr (bound v b s)
  | @refused _ _ _ _ _ _ d _ _ _ hcomplains _ =>
    exact .inl ⟨d, .inl rfl, hcomplains⟩
  | entered _ _ _ _ hinside =>
    rcases hinside.split with ⟨he, -⟩ | ⟨s₁, ds₁, ds₂, hcontent, hend, rfl⟩
    · cases he
    · have hkept := hcontent.confined.finished rfl
      cases hend with
      | @closing _ _ _ _ _ _ d _ hcloses =>
        cases hcloses with
        | container v =>
          right
          have hlength : s₁.tail.length = s.length + 1 := by
            have h : s₁.length = s.length + 2 := hkept.length
            simp [h]
          obtain ⟨b₁, r₁, hb⟩ := List.exists_cons_of_length_eq_add_one hlength
          rw [hb]
          exact bound v b₁ r₁
        | lost hcomplains =>
          exact .inl ⟨d, .inr (by rw [← List.cons_append, List.getLast?_concat]), hcomplains⟩
        | plain _ hne => exact absurd rfl (hne c)
  | loopEnds | loop | each => cases hc

/-- A container binds no name that was not bound, but for one that it declares. -/
theorem Container.isSome_bind {c : Container} {name : String} (hc : c.declares? ≠ some name)
    (v : Value) (s : List Bindings) :
    (findInScopes (c.bind v s) name).isSome = (findInScopes s name).isSome := by
  have declared : ∀ (home : Home) (other : String), (home = .body → other ≠ name) →
      (findInScopes (home.bind other v s) name).isSome = (findInScopes s name).isSome := by
    rintro (_ | g) other hother
    · cases s with
      | nil => rfl
      | cons b s =>
        have hne : (name == other) = false := by simpa using (hother rfl).symm
        simp [Home.bind, declareInScopes, isSome_findInScopes, Bindings.holds_insert, hne]
    · rfl
  cases c with
  | «variable» other origin home =>
    refine declared home other ?_
    rintro rfl rfl
    exact hc rfl
  | parameter other default home =>
    refine declared home other ?_
    rintro rfl rfl
    exact hc rfl
  | assign other origin =>
    change (findInScopes ((assignInScopes other v s).getD s) name).isSome = _
    cases h : assignInScopes other v s with
    | none => rfl
    | some s' =>
      rw [Option.getD_some, isSome_findInScopes, isSome_findInScopes, holds_assignInScopes h]
  | _ => rfl

/-- After a content and its end the names are bound that were bound before it, and what its
container declares. -/
theorem Does.gone {i : NodeId} {instruction : Instruction} {xs : List Statement} {l : Location}
    {b : Bindings} {name : String}
    (h : Does env (Plan.inside i instruction (.sequence xs) l) (b :: s) ds s' .finished)
    (hname : ∀ c, instruction = .container c → c.declares? ≠ some name) :
    (findInScopes s' name).isSome = (findInScopes s name).isSome := by
  rcases h.split with ⟨he, -⟩ | ⟨s₁, ds₁, ds₂, hcontent, hend, -⟩
  · cases he
  · have houter : s₁.tail.map Bindings.holds = s.map Bindings.holds :=
      (hcontent.confined.finished rfl).outer
    have hleft : (findInScopes s₁.tail name).isSome = (findInScopes s name).isSome := by
      rw [isSome_findInScopes, isSome_findInScopes, houter]
    cases hend with
    | closing _ hcloses =>
      cases hcloses with
      | @container c v _ => exact (c.isSome_bind (hname c rfl) v s₁.tail).trans hleft
      | body | lost | plain => exact hleft

end

end StreamTransform
