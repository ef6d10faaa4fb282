import StreamTransform.Proofs.GroupFrames
import StreamTransform.Proofs.Locals

/-!
# Assignments

A look-up goes through places: the scopes of the body, the innermost first, and then the current
frames of the groups. An assignment goes through the same places in the same order, and binds the
name anew where the look-up finds it. All other places stay as they are, the frames below the
current ones among them, and no place gets or loses a name.
-/

namespace StreamTransform

/-- Where names are bound: in the scopes of a body and in the frames of the groups. -/
structure Variables where
  scopes : List Bindings
  frames : GroupFrames

/-- A place for bindings. Scopes are counted from the innermost one, and the frames of a group from
the current one. -/
inductive Place where
  | scope (index : Nat)
  | frame (group : GroupId) (index : Nat)
  deriving DecidableEq

namespace Variables

def at? (vs : Variables) : Place → Option Bindings
  | .scope i => vs.scopes[i]?
  | .frame g i => (vs.frames.stack g)[i]?

/-- The value of a name in a place. -/
def get? (vs : Variables) (p : Place) (name : String) : Option Value :=
  (vs.at? p).bind (·.get? name)

/-- Binds a name in a place. -/
def set (vs : Variables) (name : String) (v : Value) : Place → Variables
  | .scope i => { vs with scopes := vs.scopes.modify i (·.insert name v) }
  | .frame g i =>
    { vs with frames := vs.frames.modify g fun st => st.modify i (·.insert name v) }

/-- The places that are seen from a body of a group with these ancestors, the nearest first. -/
def seen (vs : Variables) (ancestry : List GroupId) : List Place :=
  (List.range vs.scopes.length).map .scope ++ ancestry.map (.frame · 0)

def find (vs : Variables) (ancestry : List GroupId) (name : String) : Option Value :=
  findVariable vs.scopes vs.frames ancestry name

/-- The variables after an assignment, in the scopes if the name is bound there, and otherwise in
the groups. -/
def assign? (vs : Variables) (ancestry : List GroupId) (name : String) (v : Value) :
    Option Variables :=
  match assignInScopes name v vs.scopes with
  | some scopes => some { vs with scopes := scopes }
  | none => (assignInGroups vs.frames ancestry name v).map fun frames =>
      { vs with frames := frames }

section
variable {vs vs' : Variables} {ancestry : List GroupId} {name other : String} {v : Value}
  {p q : Place}

/-! ## Places -/

/-- What is bound in one place changes this place only. -/
theorem at?_set : (vs.set name v p).at? q =
    if q = p then (vs.at? q).map (·.insert name v) else vs.at? q := by
  cases p with
  | scope i =>
    cases q with
    | scope k =>
      simp only [at?, set, List.getElem?_modify, Place.scope.injEq, eq_comm (a := k)]
      split <;> simp
    | frame g k => rfl
  | frame g i =>
    cases q with
    | scope k => rfl
    | frame h k =>
      have hstack : (vs.set name v (.frame g i)).frames.stack h =
          if g = h then (vs.frames.stack h).modify i (·.insert name v) else vs.frames.stack h :=
        GroupFrames.stack_modify (.inr (by simp))
      simp only [at?, hstack, Place.frame.injEq]
      by_cases hg : g = h
      · simp only [hg, if_true, List.getElem?_modify, true_and, eq_comm (a := k)]
        split <;> simp
      · simp [hg, eq_comm (a := h)]

theorem get?_set_of_ne (h : other ≠ name) : (vs.set name v p).get? q other = vs.get? q other := by
  rw [get?, at?_set, get?]
  split
  · cases vs.at? q with
    | none => rfl
    | some b =>
      rw [Option.map_some, Option.bind_some, Option.bind_some, Bindings.get?_insert, if_neg h]
  · rfl

theorem get?_set_self (h : (vs.get? p name).isSome) : (vs.set name v p).get? p name = some v := by
  rw [get?, at?_set, if_pos rfl]
  cases hp : vs.at? p with
  | none =>
    rw [get?, hp] at h
    cases h
  | some b => rw [Option.map_some, Option.bind_some, Bindings.get?_insert, if_pos rfl]

/-- A name that a place binds already is not added to it. -/
theorem holds_set (h : (vs.get? p name).isSome) :
    ((vs.set name v p).at? q).map Bindings.holds = (vs.at? q).map Bindings.holds := by
  rw [at?_set]
  split
  · rename_i heq
    subst heq
    cases hq : vs.at? q with
    | none => rfl
    | some b =>
      rw [get?, hq] at h
      rw [Option.map_some, Option.map_some, Option.map_some, Bindings.holds_insert_of_holds h]
  · rfl

theorem seen_set : (vs.set name v p).seen ancestry = vs.seen ancestry := by
  cases p with
  | scope i => simp [seen, set]
  | frame g i => rfl

/-! ## Look-ups and assignments -/

theorem map_getElem?_range {α : Type} (l : List α) :
    (List.range l.length).map (l[·]?) = l.map some := by
  refine List.ext_getElem (by simp) fun i hi _ => ?_
  have hi : i < l.length := by simpa using hi
  simp [hi]

/-- A look-up takes the first value in the places that it sees. -/
theorem find_eq : vs.find ancestry name = (vs.seen ancestry).findSome? (vs.get? · name) := by
  have hscopes : findInScopes vs.scopes name =
      ((List.range vs.scopes.length).map Place.scope).findSome? (vs.get? · name) := by
    have h := congrArg (List.findSome? (·.bind (·.get? name))) (map_getElem?_range vs.scopes)
    rw [List.findSome?_map, List.findSome?_map] at h
    rw [List.findSome?_map]
    exact h.symm
  have hgroups : findInGroups vs.frames ancestry name =
      (ancestry.map (Place.frame · 0)).findSome? (vs.get? · name) := by
    rw [List.findSome?_map, findInGroups]
    congr 1
    funext g
    simp [GroupFrames.get?, GroupFrames.current?_eq_head?, get?, at?, List.head?_eq_getElem?]
  rw [find, findVariable, hscopes, hgroups, seen, List.findSome?_append]

theorem assignInScopes_eq (name : String) (v : Value) (scopes : List Bindings) :
    assignInScopes name v scopes =
      ((List.range scopes.length).find? fun i => (scopes[i]?.bind (·.get? name)).isSome).map
        fun i => scopes.modify i (·.insert name v) := by
  induction scopes with
  | nil => rfl
  | cons b r ih =>
    rw [assignInScopes, List.length_cons, List.range_succ_eq_map, List.find?_cons]
    cases hb : b.holds name with
    | true =>
      have hbound : (b.get? name).isSome = true := hb
      simp [hbound]
    | false =>
      have hbound : (b.get? name).isSome = false := hb
      simp only [List.getElem?_cons_zero, Option.bind_some, hbound, Bool.false_eq_true, if_false,
        ih, List.find?_map, Option.map_map]
      rfl

theorem assignInGroups_eq (fs : GroupFrames) (ancestry : List GroupId) (name : String)
    (v : Value) : assignInGroups fs ancestry name v =
      (ancestry.find? fun g => ((fs.stack g)[0]?.bind (·.get? name)).isSome).map
        fun g => fs.modify g fun st => st.modify 0 (·.insert name v) := by
  have hinsert (g : GroupId) :
      fs.insert g name v = fs.modify g fun st => st.modify 0 (·.insert name v) := by
    rw [GroupFrames.insert]
    congr 1
    funext st
    cases st <;> rfl
  simp only [assignInGroups, hinsert, GroupFrames.get?, GroupFrames.current?_eq_head?,
    List.head?_eq_getElem?]

/-- An assignment binds the name in the first of the places where a look-up would see it. -/
theorem assign?_eq : vs.assign? ancestry name v =
    ((vs.seen ancestry).find? fun p => (vs.get? p name).isSome).map (vs.set name v) := by
  rw [assign?, assignInScopes_eq, assignInGroups_eq, seen, List.find?_append, List.find?_map,
    List.find?_map]
  have hscope : (fun p => (vs.get? p name).isSome) ∘ Place.scope =
      fun i => (vs.scopes[i]?.bind (·.get? name)).isSome := rfl
  have hframe : ((fun p => (vs.get? p name).isSome) ∘ fun g => Place.frame g 0) =
      fun g => ((vs.frames.stack g)[0]?.bind (·.get? name)).isSome := rfl
  rw [hscope, hframe]
  cases (List.range vs.scopes.length).find? fun i => (vs.scopes[i]?.bind (·.get? name)).isSome with
  | some i => rfl
  | none =>
    cases ancestry.find? fun g => ((vs.frames.stack g)[0]?.bind (·.get? name)).isSome <;> rfl

/-- The place in which a look-up finds a name, with the places before it. -/
theorem exists_place (h : (vs.find ancestry name).isSome) :
    ∃ before p after, vs.seen ancestry = before ++ p :: after ∧
      (∀ q ∈ before, vs.get? q name = none) ∧ (vs.get? p name).isSome ∧
      vs.get? p name = vs.find ancestry name ∧
      vs.assign? ancestry name v = some (vs.set name v p) := by
  rw [find_eq] at h ⊢
  obtain ⟨w, hw⟩ := Option.isSome_iff_exists.mp h
  obtain ⟨before, p, after, hseen, hp, hbefore⟩ := List.findSome?_eq_some_iff.mp hw
  refine ⟨before, p, after, hseen, hbefore, by rw [hp]; rfl, hp.trans hw.symm, ?_⟩
  have hfind : (vs.seen ancestry).find? (fun p => (vs.get? p name).isSome) = some p := by
    rw [List.find?_eq_some_iff_append]
    exact ⟨by rw [hp]; rfl, before, after, hseen, fun q hq => by rw [hbefore q hq]; rfl⟩
  rw [assign?_eq, hfind]
  rfl

theorem assign?_eq_none (h : vs.find ancestry name = none) :
    vs.assign? ancestry name v = none := by
  rw [find_eq, List.findSome?_eq_none_iff] at h
  rw [assign?_eq, Option.map_eq_none_iff, List.find?_eq_none]
  intro p hp
  rw [h p hp]
  exact Bool.false_ne_true

theorem exists_place_of_assign? (h : vs.assign? ancestry name v = some vs') :
    ∃ before p after, vs.seen ancestry = before ++ p :: after ∧
      (∀ q ∈ before, vs.get? q name = none) ∧ (vs.get? p name).isSome ∧
      vs.get? p name = vs.find ancestry name ∧ vs' = vs.set name v p := by
  cases hfound : vs.find ancestry name with
  | none =>
    rw [assign?_eq_none hfound] at h
    cases h
  | some w =>
    obtain ⟨before, p, after, hseen, hbefore, hp, hvalue, hassigned⟩ :=
      exists_place (v := v) (show (vs.find ancestry name).isSome by rw [hfound]; rfl)
    rw [hassigned, Option.some.injEq] at h
    exact ⟨before, p, after, hseen, hbefore, hp, hvalue.trans hfound, h.symm⟩

end

end Variables

/-! ## What an assignment does -/

/-- An assignment to a name, seen from a body of a group with these ancestors. -/
structure AssignsWhatIsFound (vs : Variables) (ancestry : List GroupId) (name : String)
    (v : Value) : Prop where
  /-- It succeeds exactly if the name is found. -/
  succeeds : (vs.assign? ancestry name v).isSome = (vs.find ancestry name).isSome
  /-- Afterwards the new value is found. -/
  assigned {vs' : Variables} : vs.assign? ancestry name v = some vs' →
    vs'.find ancestry name = some v
  /-- Other names are found as before, from this body and from any other one. -/
  others {vs' : Variables} {other : String} : vs.assign? ancestry name v = some vs' →
    other ≠ name → ∀ ancestry', vs'.find ancestry' other = vs.find ancestry' other ∧
      ∀ scopes, findVariable scopes vs'.frames ancestry' other =
        findVariable scopes vs.frames ancestry' other
  /-- Every scope and every frame binds the names that it bound. -/
  names {vs' : Variables} : vs.assign? ancestry name v = some vs' →
    ∀ p, (vs'.at? p).map Bindings.holds = (vs.at? p).map Bindings.holds
  /-- The value was found in the first place that binds the name, and every other place is left
  alone, whether it binds the name or not. -/
  shadowed {vs' : Variables} : vs.assign? ancestry name v = some vs' →
    ∃ before p after, vs.seen ancestry = before ++ p :: after ∧
      (∀ q ∈ before, vs.get? q name = none) ∧
      (vs.get? p name).isSome ∧ vs.get? p name = vs.find ancestry name ∧
      vs'.get? p name = some v ∧ ∀ q ≠ p, vs'.at? q = vs.at? q
  /-- This is what a body does with its own scopes and the frames of the groups. Where the name is
  not found, a report is all that happens. -/
  performed {env : Environment} {f : Frame} {s : State} : f.scopes = vs.scopes →
    s.frames = vs.frames → (env.program.group f.group).ancestry = ancestry →
    match vs.assign? ancestry name v with
    | some vs' => (Operation.assignVariable env f name v).Yields s
        { f with scopes := vs'.scopes } { s with frames := vs'.frames }
    | none => (Operation.assignVariable env f name v).Ensures s
        (fun f' s' => f' = f ∧ s' =
          Operation.reported env .error (.assignsUndeclared name) (some f.cursor) s)
        fun _ s' => s' =
          Operation.reported env .error (.assignsUndeclared name) (some f.cursor) s

namespace Variables

variable {vs vs' : Variables} {ancestry : List GroupId} {name other : String} {v : Value}

theorem find_set_of_ne (vs : Variables) (p : Place) (h : other ≠ name) (ancestry : List GroupId) :
    (vs.set name v p).find ancestry other = vs.find ancestry other := by
  rw [find_eq, find_eq, seen_set]
  congr 1
  funext q
  exact get?_set_of_ne h

/-- What other scopes see of the groups does not depend on the scopes of this body. -/
theorem findVariable_set_of_ne (vs : Variables) (p : Place) (h : other ≠ name)
    (scopes : List Bindings) (ancestry : List GroupId) :
    findVariable scopes (vs.set name v p).frames ancestry other =
      findVariable scopes vs.frames ancestry other := by
  cases p with
  | scope i => rfl
  | frame g i => exact find_set_of_ne ⟨scopes, vs.frames⟩ (.frame g i) h ancestry

theorem find_set_self {before after : List Place} {p : Place}
    (hseen : vs.seen ancestry = before ++ p :: after)
    (hbefore : ∀ q ∈ before, vs.get? q name = none) (hp : (vs.get? p name).isSome) :
    (vs.set name v p).find ancestry name = some v := by
  have hnone : before.findSome? ((vs.set name v p).get? · name) = none := by
    refine List.findSome?_eq_none_iff.mpr fun q hq => ?_
    have hne : q ≠ p := by
      rintro rfl
      rw [hbefore q hq] at hp
      cases hp
    rw [get?, at?_set, if_neg hne]
    exact hbefore q hq
  rw [find_eq, seen_set, hseen, List.findSome?_append, hnone, List.findSome?_cons,
    get?_set_self hp]
  rfl

theorem assignVariable_performs {env : Environment} {f : Frame} {s : State}
    (hscopes : f.scopes = vs.scopes) (hframes : s.frames = vs.frames)
    (hancestry : (env.program.group f.group).ancestry = ancestry) :
    match vs.assign? ancestry name v with
    | some vs' => (Operation.assignVariable env f name v).Yields s
        { f with scopes := vs'.scopes } { s with frames := vs'.frames }
    | none => (Operation.assignVariable env f name v).Ensures s
        (fun f' s' => f' = f ∧ s' =
          Operation.reported env .error (.assignsUndeclared name) (some f.cursor) s)
        fun _ s' => s' =
          Operation.reported env .error (.assignsUndeclared name) (some f.cursor) s := by
  rw [assign?, Operation.assignVariable, hscopes, ← hframes]
  cases hinner : assignInScopes name v vs.scopes with
  | some scopes => exact Operation.yields_pure.mpr ⟨rfl, rfl⟩
  | none =>
    cases houter : assignInGroups s.frames ancestry name v with
    | some frames =>
      simp only [Option.map_some]
      rw [Operation.yields_get_bind, hancestry, houter, Operation.yields_modify_bind,
        Operation.yields_pure]
      exact ⟨by rw [← hscopes], rfl⟩
    | none =>
      simp only [Option.map_none]
      rw [Operation.ensures_bind, Operation.ensures_get, hancestry, houter, Operation.ensures_bind,
        Operation.reportHere, Operation.ensures_report]
      split <;> simp

end Variables

open Variables in
/-- An assignment changes the one binding that a look-up of the name sees, and nothing else. -/
theorem assigns_what_is_found (vs : Variables) (ancestry : List GroupId) (name : String)
    (v : Value) : AssignsWhatIsFound vs ancestry name v where
  succeeds := by
    cases hfound : vs.find ancestry name with
    | none => rw [assign?_eq_none hfound]; rfl
    | some w =>
      obtain ⟨-, p, -, -, -, -, -, hassigned⟩ :=
        exists_place (v := v) (show (vs.find ancestry name).isSome by rw [hfound]; rfl)
      rw [hassigned]
      rfl
  assigned h := by
    obtain ⟨before, p, after, hseen, hbefore, hp, -, rfl⟩ := exists_place_of_assign? h
    exact find_set_self hseen hbefore hp
  others h hne ancestry' := by
    obtain ⟨-, p, -, -, -, -, -, rfl⟩ := exists_place_of_assign? h
    exact ⟨find_set_of_ne vs p hne ancestry', fun scopes =>
      findVariable_set_of_ne vs p hne scopes ancestry'⟩
  names h q := by
    obtain ⟨-, p, -, -, -, hp, -, rfl⟩ := exists_place_of_assign? h
    exact holds_set hp
  shadowed h := by
    obtain ⟨before, p, after, hseen, hbefore, hp, hvalue, rfl⟩ := exists_place_of_assign? h
    exact ⟨before, p, after, hseen, hbefore, hp, hvalue, get?_set_self hp, fun q hq => by
      rw [at?_set, if_neg hq]⟩
  performed hscopes hframes hancestry := assignVariable_performs hscopes hframes hancestry

end StreamTransform
