import StreamTransform.Proofs.GroupNames
import StreamTransform.Proofs.BuiltPrograms

/-!
# Declarations find their names free

In a program that was built, every content declares a name once. At run time a content has a scope
and a group a frame, of which there may be many for one place in the program: after jumps, in every
round of a loop, in every call and wherever recursion enters a group anew. Still no declaration
ever comes upon a binding of its own name where it is to bind it.
-/

namespace StreamTransform

/-- Where a variable is to live its name is not bound: in the innermost scope, or in the current
frame of its group. -/
def Deed.FindsFree (d : Deed) (home : Home) (name : String) : Prop :=
  match home with
  | .body => ∃ s r, d.inForce.scopes = s :: r ∧ s.holds name = false
  | .group g => ∃ s, d.before.frames.current? g = some s ∧ s.holds name = false

theorem home?_of_declared? {c : Container} {home : Home} {name : String}
    (h : c.declared? = some (home, name)) : c.home? = some home := by
  cases c with
  | «variable» | parameter =>
    cases h
    rfl
  | _ => cases h

namespace Deed

variable {env : Environment} {d : Deed} {m m' : Moment} {c : Container} {name : String}

/-- In the scopes of its content nothing was declared that is to be declared. -/
theorem Happens.finds_free_scope (hw : env.program.WellNested)
    (honce : DeclaresOnce env.program.code) (hd : d.Happens env)
    (h : d.frame.Lexical env.program.code) (hc : d.node.Concerns env.program.code c)
    (hx : c.declared? = some (.body, name)) : d.FindsFree .body name := by
  obtain ⟨k, n, hn, hi, hclose, hle, hk⟩ := hc.begins hw.code hd.node
  have hdeclared : DeclaredAt env.program.code (.body, name) k := ⟨n, c, hn, hi, hx⟩
  have hscopes : Lexical env.program.code d.frame.cursor (enclosing env.program.code k)
      d.inForce.scopes := by
    unfold Frame.Lexical at h
    rcases hk with ⟨rfl, hstart⟩ | hend
    · rw [inForce, hstart]
      exact h
    · rw [(enclosing_of_closing hw.code hd.node hend).1] at h
      obtain ⟨s, r, hr, -, h⟩ := h.exists_cons
      rw [inForce, hend]
      change Lexical _ _ _ d.frame.scopes.tail
      rw [hr]
      exact h
  exact hscopes.fresh hw.code honce hn hclose hdeclared hle

/-- Among the declarations of a group's variables none was made that is to be made. -/
theorem Occurs.finds_free_frame {g : GroupId} (hw : env.program.WellNested)
    (hp : env.program.Homed) (hu : env.program.UniqueNames)
    (honce : DeclaresOnce env.program.code) (hm : Reached env m) (ho : d.Occurs env m m')
    (hc : d.node.Concerns env.program.code c) (hx : c.declared? = some (.group g, name)) :
    d.FindsFree (.group g) name := by
  obtain ⟨l, hbodies, -⟩ := ho.leads hw hm
  have hnode := ho.happens.node
  have hhome := home?_of_declared? hx
  cases declaresInTurn_of_reached hw hp hu hm with
  | own h =>
    have hlocal := h d.frame (hbodies ▸ List.mem_cons_self)
    cases hlocal.home hw.code hnode hc _ hhome
  | @group _ _ f _ g' b _ _ hbodies' _ hb hinit =>
    obtain ⟨rfl, -⟩ := List.cons.inj (hbodies.symm.trans hbodies')
    obtain rfl := Home.group.inj (Option.some.inj
      (hhome.symm.trans (hinit.declares.home? hnode hc)))
    obtain ⟨s, hcurrent, hbound⟩ := hinit.bound
    obtain ⟨k, n, hn, hi, hclose, hle, -, hk⟩ := hinit.stands.begins hw.code hb hnode hc
    refine ⟨s, ho.before ▸ hcurrent, Bool.eq_false_iff.mpr fun hname => ?_⟩
    have hbefore := hbound name hname
    rw [← hk] at hbefore
    exact not_declaredBefore honce hn hclose ⟨n, c, hn, hi, hx⟩ hle hbefore

end Deed

/-- What holds of the declarations of a program. -/
structure DeclaresAfresh (env : Environment) : Prop where
  /-- Every content declares a name once. -/
  once : DeclaresOnce env.program.code
  /-- At every moment the scopes of each body are those of the contents around its cursor, and bind
  no names but those that their contents have declared so far, and the names of items. -/
  lexical : ∀ m f, Reached env m → f ∈ m.bodies → f.Lexical env.program.code
  /-- The start and the end of a declaration find its name free, and bind it at most. -/
  declares : ∀ m m' (d : Deed) (c : Container) home name, Reached env m → d.Occurs env m m' →
    d.node.Concerns env.program.code c → c.declared? = some (home, name) →
    d.FindsFree home name ∧
      d.flow.Declares d.inForce d.node home name d.before.frames d.after.frames
  /-- Every round of a loop over items binds its item in a scope that was empty. -/
  rounds : ∀ m m' (d : Deed) name select, Reached env m → d.Occurs env m m' →
    d.node.instruction = .container (.each name select) →
    ∃ g, d.flow.frame? = some g ∧ (g.scopes = d.frame.scopes ∨
      ∃ item, g.scopes = Bindings.insert [] name ⟨[item]⟩ :: d.frame.scopes)

/-- In a program that was built no declaration overwrites a binding. -/
theorem declares_afresh {ds : List Script.Declaration} {env : Environment}
    (h : Script.build ds = .ok env.program) : DeclaresAfresh env := by
  have hw : env.program.WellNested := Script.wellNested_of_build h
  have hp : env.program.Homed := Script.homed_of_build h
  have hu : env.program.UniqueNames := Script.unique_of_build h
  have hpointed : Pointed env.program.code := Script.pointed_of_build h
  have honce : DeclaresOnce env.program.code := declaresOnce_of_grown hw.code hu.bodies
  constructor
  case once => exact honce
  case lexical => exact fun m f hm hf => lexical_of_reached hw hpointed hm f hf
  case declares =>
    intro m m' d c home name hm ho hc hx
    refine ⟨?_, ho.happens.declares hw hc hx⟩
    cases home with
    | group g => exact ho.finds_free_frame hw hp hu honce hm hc hx
    | body =>
      obtain ⟨l, hbodies, -⟩ := ho.leads hw hm
      exact ho.happens.finds_free_scope hw honce
        (lexical_of_reached hw hpointed hm _ (hbodies ▸ List.mem_cons_self)) hc hx
  case rounds =>
    intro m m' d name select _ ho hi
    obtain ⟨close, hclose⟩ := close_of_isOpening hw.code ho.happens.node (by rw [hi]; rfl)
    obtain ⟨g, hg, hround⟩ := ho.happens.goes_round hi hclose
    exact ⟨g, hg, hround.imp And.right And.right⟩

/-- A loop over one item with a variable in it. -/
def holdingBody : Body :=
  ⟨.unknown, [.enclose .unknown (.each "i" (.literal "x"))
    [.enclose .unknown (.variable "v" .written .body) [] .unknown] .unknown], .unknown⟩

/-- The declaration of a parameter of the outermost group. -/
def holdingInitialiser : Body :=
  ⟨.unknown, [.enclose .unknown (.parameter "p" (some .written) (.group 0)) [] .unknown], .unknown⟩

/-- One template, for the root, with the loop, beside the parameter. -/
def holdingProgram : Program where
  code := (holdingBody.code 0 ++ holdingInitialiser.code 6).toArray
  templates := #[⟨⟨true, []⟩, "/", 0, .group, false, 0, .unknown, 0⟩]
  procedures := #[]
  groups := #[{ (default : Group) with
    templates := [0], candidates := [0], ancestry := [Program.rootGroup], initialiser := some 6 }]
  globals := []

theorem build_holding : Script.build [.parameter "p" none, .template "/" { priority := some 0 }
    [.each "i" "'x'" [.variableContent "v" []]]] = .ok holdingProgram :=
  (Script.build_eq _).trans (by with_unfolding_all rfl)

def holding : Environment := ⟨holdingProgram, {}, .plain fun _ => none⟩

/-- A moment of the run of these declarations. -/
def holdingAfter (n : Nat) : Moment :=
  (Moment.take .startDocument (.initial holding.program)).advance holding n []

/-- The end of the parameter binds it in the frame of the group, the round of the loop its item, and
the end of the variable the variable beside the item. -/
theorem declares_afresh_holding : DeclaresAfresh holding ∧
    (∃ m m' d, Reached holding m ∧ Deed.Occurs holding d m m' ∧
      d.node.Concerns holding.program.code (.parameter "p" (some .written) (.group 0)) ∧
      d.FindsFree (.group 0) "p") ∧
    (∃ m m' d, Reached holding m ∧ Deed.Occurs holding d m m' ∧
      d.node.Concerns holding.program.code (.variable "v" .written .body) ∧
      d.FindsFree .body "v") ∧
    ∃ m, Reached holding m ∧
      m.bodies.map (fun f => f.scopes.map (·.map Prod.fst)) = [[["i", "v"], []]] ∧
      (m.state.frames.current? 0).map (·.map Prod.fst) = some ["p"] := by
  have hafresh : DeclaresAfresh holding := declares_afresh build_holding
  have hw : holding.program.WellNested := Script.wellNested_of_build build_holding
  have hm (n : Nat) : Reached holding (holdingAfter n) := .advance (.first .startDocument rfl) n []
  obtain ⟨d, m, ho, hd⟩ := exists_deed_of_cursor? (b := 8) hw (hm 4) (by decide +kernel) rfl
    (by decide +kernel)
  obtain ⟨d', m', ho', hd'⟩ := exists_deed_of_cursor? (b := 3) hw (hm 11) (by decide +kernel) rfl
    (by decide +kernel)
  have hp : d.node.Concerns holding.program.code (.parameter "p" (some .written) (.group 0)) :=
    .ends (congrArg Node.instruction hd) rfl rfl
  have hv : d'.node.Concerns holding.program.code (.variable "v" .written .body) :=
    .ends (congrArg Node.instruction hd') rfl rfl
  exact ⟨hafresh, ⟨_, m, d, hm 4, ho, hp, (hafresh.declares _ _ _ _ _ _ (hm 4) ho hp rfl).1⟩,
    ⟨_, m', d', hm 11, ho', hv, (hafresh.declares _ _ _ _ _ _ (hm 11) ho' hv rfl).1⟩,
    _, hm 12, by decide +kernel, by decide +kernel⟩

end StreamTransform
