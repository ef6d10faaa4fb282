import StreamTransform.Proofs.Bodies
import StreamTransform.Proofs.Locals
import StreamTransform.Proofs.Spine
import StreamTransform.Proofs.Trees

/-!
# Bodies do what their trees mean

From its start to its end a body does what its tree stands for: of sequences,
conditions, choices and loops it does what they mean on the tree, wherever the
jumps of the code lead. Walks that suspend its activation and procedures that it
calls come in between, and it goes on where it was. Its variables are bound from
their declaration to the end of the content that the declaration stands in.
-/

namespace StreamTransform

/-- `Conducts env below m₁ ds m`: from one moment to the other, the deeds of the body on top of
others are `ds`. All else that happens is done by bodies on top of it, or by none. -/
inductive Conducts (env : Environment) (below : List Frame) (m₁ : Moment) :
    List Deed → Moment → Prop
  | start : Conducts env below m₁ [] m₁
  | own {ds : List Deed} {d : Deed} {m m' : Moment} : Conducts env below m₁ ds m →
      d.Occurs env m m' → m.bodies = d.frame :: below → Conducts env below m₁ (ds ++ [d]) m'
  | other {ds : List Deed} {f : Frame} {m m' : Moment} : Conducts env below m₁ ds m →
      Next env m m' → f :: below <:+ m.bodies →
      (∀ d : Deed, d.Occurs env m m' → m.bodies ≠ d.frame :: below) → Conducts env below m₁ ds m'

/-- What a body of a tree has done by a moment: part of what the tree stands for, with the scopes
that its frame has, or all of it. -/
def Body.Done (env : Environment) (body : Body) (b : NodeId) (g : GroupId) (passed : Bindings)
    (below : List Frame) (ds : List Deed) (m : Moment) : Prop :=
  (∃ f, f :: below <:+ m.bodies ∧ f.group = g ∧ f.passed = passed ∧
    Does env [(b, body.piece)] [] ds f.scopes .stopped) ∨
  (m.bodies = below ∧ ∃ s, Does env [(b, body.piece)] [] ds s .finished)

theorem ne_of_suffix {α : Type} {a : α} {below l : List α} (h : a :: below <:+ l) : l ≠ below := by
  rintro rfl
  exact absurd h.length_le (by simp)

theorem head_eq_of_suffix {α : Type} {a b : α} {below : List α} (h : a :: below <:+ b :: below) :
    a = b :=
  (List.cons.inj (h.eq_of_length rfl)).1

section
variable {env : Environment} {m₁ m m' : Moment} {f : Frame} {below : List Frame} {ds : List Deed}

theorem Conducts.reached (h : Conducts env below m₁ ds m) (hm : Reached env m₁) :
    Reached env m := by
  induction h with
  | start => exact hm
  | own _ ho _ ih => exact ih.next ho.next
  | other _ hn _ _ ih => exact ih.next hn

/-- A deed of the body on top of others takes that body further, or ends it. -/
theorem Deed.Occurs.leads_own {d : Deed} (hw : env.program.WellNested) (hm : Reached env m)
    (h : d.Occurs env m m') (hd : m.bodies = d.frame :: below) (hf : f :: below <:+ m.bodies) :
    f = d.frame ∧ d.Leads env below m'.bodies := by
  obtain ⟨l, hl, hleads⟩ := h.leads hw hm
  obtain ⟨-, rfl⟩ := List.cons.inj (hd.symm.trans hl)
  rw [hd] at hf
  exact ⟨head_eq_of_suffix hf, hleads⟩

/-- A body that is in execution is conducted through the next step. -/
theorem Conducts.next (h : Conducts env below m₁ ds m) (hn : Next env m m')
    (hf : f :: below <:+ m.bodies) : ∃ ds', Conducts env below m₁ ds' m' := by
  by_cases hown : ∃ d : Deed, d.Occurs env m m' ∧ m.bodies = d.frame :: below
  · obtain ⟨d, ho, hd⟩ := hown
    exact ⟨_, .own h ho hd⟩
  · exact ⟨ds, .other h hn hf fun d ho hd => hown ⟨d, ho, hd⟩⟩

/-- The body awaits the rest of what its tree stands for, or has come to its end. -/
theorem Conducts.awaits {body : Body} {b : NodeId} {g : GroupId} {passed : Bindings}
    (hw : env.program.WellNested) (hs : Sits env.program.code b (body.code b)) (ht : body.Tidy)
    (hm : Reached env m₁) (hb : m₁.bodies = .start g b passed :: below)
    (h : Conducts env below m₁ ds m) :
    (∃ f p, f :: below <:+ m.bodies ∧ f.group = g ∧ f.passed = passed ∧
      f.Awaits env.program.code p ∧
      ∀ ds' s e, Does env p f.scopes ds' s e → Does env [(b, body.piece)] [] (ds ++ ds') s e) ∨
    (m.bodies = below ∧ ∃ s, Does env [(b, body.piece)] [] ds s .finished) := by
  induction h with
  | start =>
    refine .inl ⟨.start g b passed, _, ?_, rfl, rfl, Frame.awaits_start hs ht g passed, ?_⟩
    · exact hb ▸ List.suffix_refl _
    · exact fun _ _ _ h => h
  | @own ds d m m' hc ho hd ih =>
    rcases ih with ⟨f, p, hf, hgroup, hpassed, hawaits, hdoes⟩ | ⟨hends, -⟩
    · obtain ⟨rfl, hleads⟩ := ho.leads_own hw (hc.reached hm) hd hf
      cases Deed.begins ho.happens hawaits with
      | @on f' q hf' hgroup' hpassed' hawaits' hdoes' =>
        refine .inl ⟨f', q, hleads.keeps hf', hgroup'.trans hgroup, hpassed'.trans hpassed,
          hawaits', ?_⟩
        intro ds' s e h
        rw [List.append_assoc]
        exact hdoes _ s e (hdoes' ds' s e h)
      | done hflow hfinished =>
        exact .inr ⟨hleads.eq_below (by rw [hflow]; rfl), _, hdoes _ _ _ hfinished⟩
    · rw [hd] at hends
      exact absurd hends (ne_of_suffix (List.suffix_refl _))
  | @other ds f₀ m m' hc hn hf₀ hothers ih =>
    rcases ih with ⟨f, p, hf, hrest⟩ | ⟨hends, -⟩
    · exact .inl ⟨f, p, (body_move hw (hc.reached hm) hn).keeps hf hothers, hrest⟩
    · exact absurd hends (ne_of_suffix hf₀)

/-- The deeds of a body are those of its tree. -/
theorem Conducts.done {body : Body} {b : NodeId} {g : GroupId} {passed : Bindings}
    (hw : env.program.WellNested) (hs : Sits env.program.code b (body.code b)) (ht : body.Tidy)
    (hm : Reached env m₁) (hb : m₁.bodies = .start g b passed :: below)
    (h : Conducts env below m₁ ds m) : body.Done env b g passed below ds m := by
  rcases h.awaits hw hs ht hm hb with ⟨f, p, hf, hgroup, hpassed, hawaits, hdoes⟩ | hends
  · refine .inl ⟨f, hf, hgroup, hpassed, ?_⟩
    cases p with
    | nil => cases hawaits.pending
    | cons w p => simpa using hdoes [] _ _ (.stop w p f.scopes)
  · exact .inr hends

/-- What is in execution was started on what is below it, and has been conducted since. -/
theorem exists_start_of_body (hw : env.program.WellNested) (hm : Reached env m)
    (hf : f :: below <:+ m.bodies) : ∃ m₁ g b passed ds, Reached env m₁ ∧
      StartsBody env.program.code b ∧ m₁.bodies = .start g b passed :: below ∧
      Conducts env below m₁ ds m := by
  induction hm generalizing f with
  | first i _ => simp [Moment.bodies, live_take_initial] at hf
  | @next m m' hm hn ih =>
    rcases (body_move hw hm hn).origin hf with ⟨f₀, hf₀⟩ | ⟨hbodies, g, b, passed, hb, rfl⟩
    · obtain ⟨m₁, g, b, passed, ds, hm₁, hb, hbodies, hc⟩ := ih hf₀
      obtain ⟨ds', hc'⟩ := hc.next hn hf₀
      exact ⟨m₁, g, b, passed, ds', hm₁, hb, hbodies, hc'⟩
    · exact ⟨m', g, b, passed, [], hm.next hn, hb, hbodies, .start⟩

/-- However a run goes on, a body is conducted to where the run is or to its own end. -/
theorem conducts_of_stretch (hw : env.program.WellNested) (hm : Reached env m₁)
    (hf : f :: below <:+ m₁.bodies) (h : Stretch env (fun _ => True) m₁ m) :
    (∃ ds f', Conducts env below m₁ ds m ∧ f' :: below <:+ m.bodies) ∨
      ∃ ds m₂, Conducts env below m₁ ds m₂ ∧ m₂.bodies = below ∧
        Stretch env (fun _ => True) m₂ m := by
  induction h with
  | refl _ => exact .inl ⟨[], f, .start, hf⟩
  | @next m m' hstretch hn _ ih =>
    rcases ih with ⟨ds, f', hc, hf'⟩ | ⟨ds, m₂, hc, hbodies, hlater⟩
    · obtain ⟨ds', hc'⟩ := hc.next hn hf'
      rcases (body_move hw (hc.reached hm) hn).goesOn hf' with ⟨f'', hf''⟩ | hends
      · exact .inl ⟨ds', f'', hc', hf''⟩
      · exact .inr ⟨ds', m', hc', hends, .refl trivial⟩
    · exact .inr ⟨ds, m₂, hc, hbodies, hlater.next hn trivial⟩

end

/-- What holds of the bodies in execution, and of trees. -/
structure FollowsTrees (env : Environment) : Prop where
  /-- Every body is laid out from a tree. -/
  grown : ∀ b, StartsBody env.program.code b →
    ∃ body : Body, Sits env.program.code b (body.code b)
  /-- What is in execution was started on what is below it now, and what it did since are its
  deeds. -/
  started : ∀ m f below, Reached env m → f :: below <:+ m.bodies → ∃ m₁ g b passed ds,
    Reached env m₁ ∧ StartsBody env.program.code b ∧ m₁.bodies = .start g b passed :: below ∧
    Conducts env below m₁ ds m
  /-- However a run goes on, a body has its deeds up to there, or up to its own end. -/
  conducted : ∀ m₁ m f below, Reached env m₁ → f :: below <:+ m₁.bodies →
    Stretch env (fun _ => True) m₁ m →
    (∃ ds f', Conducts env below m₁ ds m ∧ f' :: below <:+ m.bodies) ∨
    ∃ ds m₂, Conducts env below m₁ ds m₂ ∧ m₂.bodies = below ∧ Stretch env (fun _ => True) m₂ m
  /-- When the document has ended, no body is left in execution. -/
  ended : ∀ m, Reached env m → m.input = .endDocument → m.agenda = [] → m.bodies = []
  /-- The deeds of a body are what its tree stands for, as far as it has come: all of it at its
  end. -/
  done : ∀ (body : Body) b g passed below m₁ ds m, Sits env.program.code b (body.code b) →
    body.Tidy → Reached env m₁ → m₁.bodies = .start g b passed :: below →
    Conducts env below m₁ ds m → body.Done env b g passed below ds m
  /-- A variable that is declared, unless the start or the end of its declaration is reported, -/
  declared : ∀ i l (c : Container) xs l' (b : Bindings) s ds s' name,
    Does env [(i, .statement (.enclose l c xs l'))] (b :: s) ds s' .finished →
    c.declares? = some name →
    (∃ d, (ds.head? = some d ∨ ds.getLast? = some d) ∧ d.Complains) ∨
      ∃ b' r, s' = b' :: r ∧ b'.holds name
  /-- is found by all that follows in the content, -/
  visible : ∀ i xs (b : Bindings) s ds s' e name, Does env [(i, .sequence xs)] (b :: s) ds s' e →
    b.holds name → ∀ d ∈ ds, (findInScopes d.frame.scopes name).isSome
  /-- and not after the end of the content. -/
  gone : ∀ i instruction xs l (b : Bindings) s ds s' name,
    Does env (Plan.inside i instruction (.sequence xs) l) (b :: s) ds s' .finished →
    (∀ c, instruction = .container c → c.declares? ≠ some name) →
    (findInScopes s' name).isSome = (findInScopes s name).isSome

/-- Whatever tests and selects come to, and whatever is suspended, bodies do what their trees
mean. -/
theorem follows_trees {ds : List Script.Declaration} {env : Environment}
    (h : Script.build ds = .ok env.program) : FollowsTrees env := by
  have hw : env.program.WellNested := Script.wellNested_of_build h
  constructor
  case grown => exact Script.grown_of_build h
  case started => exact fun m f below hm hf => exists_start_of_body hw hm hf
  case conducted => exact fun m₁ m f below hm hf hs => conducts_of_stretch hw hm hf hs
  case ended =>
    intro m hm hi hd
    have hnone : m.state.nodes = [] := nodes_of_ended hm hi hd
    rw [Moment.bodies, Moment.live, hd, live_nil, hnone]
    rfl
  case done => exact fun body b g passed below m₁ ds m hs ht hm hb hc => hc.done hw hs ht hm hb
  case declared => exact fun i l c xs l' b s ds s' name hd hc => hd.declared hc
  case visible => exact fun i xs b s ds s' e name hd hb => hd.visible hb
  case gone => exact fun i instruction xs l b s ds s' name hd hn => hd.gone hn

/-- A loop that has the children processed and ends after one round, with a choice after it. -/
def pausingBody : Body :=
  ⟨.unknown, [.enclose .unknown (.variable "b" (.selected (.literal "x")) .body) [] .unknown,
    .enclose .unknown (.loop (.reference "b")) [
      .enclose .unknown (.assign "b" (.selected (.literal ""))) [] .unknown,
      .act .unknown (.process .children ⟨none, []⟩)] .unknown,
    .choose .unknown [.when .unknown (.reference "b") [.act .unknown (.text "y")] .unknown,
      .otherwise .unknown [.act .unknown (.text "z")] .unknown] .unknown], .unknown⟩

/-- One template, for the root, with this body. -/
def pausingProgram : Program where
  code := (pausingBody.code 0).toArray
  templates := #[⟨⟨true, []⟩, "/", 0, .group, false, 0, .unknown, 0⟩]
  procedures := #[]
  groups := #[{ (default : Group) with
    templates := [0], candidates := [0], ancestry := [Program.rootGroup] }]
  globals := []

theorem build_pausing : Script.build [.template "/" { priority := some 0 }
    [.variable "b" "'x'", .loop "$b" [.assign "b" "''", .process .children {}],
      .choose [.when "$b" [.text "y"], .otherwise [.text "z"]]]] = .ok pausingProgram :=
  (Script.build_eq _).trans (by with_unfolding_all rfl)

def pausing : Environment := ⟨pausingProgram, {}, .plain fun _ => none⟩

/-- The moment at which the body is started. -/
def pausingStart : Moment :=
  (Moment.take .startDocument (.initial pausing.program)).advance pausing 3 []

/-- Calls for one element without content, up to the end of the document. -/
def pausingCalls : List Input := [.opening (.simple "a") [], .closing (.simple "a"), .endDocument]

/-- The body is suspended in the loop while a child is processed, and is done to its end when the
document ends. -/
theorem follows_trees_pausing : FollowsTrees pausing ∧ ∃ m₁ m₂ m ds s, Reached pausing m₁ ∧
    m₁.bodies = [.start 0 0 []] ∧ Stretch pausing (fun _ => True) m₁ m₂ ∧
    m₂.state.parked.length = 2 ∧ m₂.bodies.length = 1 ∧ Conducts pausing [] m₁ ds m ∧
    m.bodies = [] ∧ Does pausing [(0, pausingBody.piece)] [] ds s .finished := by
  have hfollows : FollowsTrees pausing := follows_trees build_pausing
  have hstart : Reached pausing pausingStart := .advance (.first .startDocument rfl) 3 []
  have hbodies : pausingStart.bodies = [.start 0 0 []] := by with_unfolding_all rfl
  have hrun (n : Nat) : Stretch pausing (fun _ => True) pausingStart
      (pausingStart.advance pausing n pausingCalls) := .advance n pausingCalls (.refl trivial)
  have hsits : Sits pausing.program.code 0 (pausingBody.code 0) := fun i n hn => by
    rw [Nat.zero_add]
    exact List.getElem?_toArray.trans hn
  have htidy : pausingBody.Tidy := by
    simp [pausingBody, Body.Tidy, TidyContent, Statement.Tidy, TidyBranches]
  have hended : (pausingStart.advance pausing 40 pausingCalls).bodies = [] :=
    List.length_eq_zero_iff.mp (by decide +kernel)
  have hfirst : [.start 0 0 []] <:+ pausingStart.bodies := hbodies ▸ List.suffix_refl _
  rcases hfollows.conducted _ _ _ [] hstart hfirst (hrun 40) with
    ⟨ds, f, -, hf⟩ | ⟨ds, m, hc, hends, -⟩
  · rw [hended] at hf
    cases List.suffix_nil.mp hf
  · rcases hfollows.done pausingBody 0 0 [] [] _ ds m hsits htidy hstart hbodies hc with
      ⟨f, hf, -⟩ | ⟨-, s, hdoes⟩
    · rw [hends] at hf
      cases List.suffix_nil.mp hf
    · exact ⟨hfollows, _, _, m, ds, s, hstart, hbodies, hrun 15, by decide +kernel,
        by decide +kernel, hc, hends, hdoes⟩

end StreamTransform
