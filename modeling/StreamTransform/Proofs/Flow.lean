import StreamTransform.Proofs.Calm

/-!
# Where control may go

The declarations of a group's variables run while another activation is about
to start. They can call procedures but never ask for a walk, whatever their
instructions are. No activation is suspended by a second walk, and a template that
is excluded is not selected.
-/

namespace StreamTransform

/-- A flow that an activation may take: the declarations of a group's variables never walk, and one
walk at most suspends an activation. -/
def Flow.IsPermitted (a : Activation) : Flow → Prop
  | .walk _ r => a.isInitialiser = false ∧ (r.walk.suspends → a.suspendedBy = none)
  | .on _ | .call .. | .done => True

namespace Operation

variable {α β : Type} {env : Environment} {a : Activation} {f : Frame}

/-- Whatever the operation yields from any state satisfies `Q`. -/
def Gives (Q : α → Prop) (op : Operation α) : Prop := ∀ s b s', Yields op s b s' → Q b

theorem gives_pure {Q : α → Prop} {b : α} (h : Q b) : Gives Q (pure b) := by
  intro s c s' hy
  obtain ⟨rfl, -⟩ := yields_pure.mp hy
  exact h

theorem gives_bind {Q : β → Prop} {op : Operation α} {k : α → Operation β}
    (h : ∀ b, Gives Q (k b)) : Gives Q (op >>= k) := by
  intro s c s' hy
  obtain ⟨b, s₁, -, hk⟩ := yields_bind.mp hy
  exact h b _ _ _ hk

theorem Gives.bind {P : α → Prop} {Q : β → Prop} {op : Operation α} {k : α → Operation β}
    (h : Gives P op) (hk : ∀ b, P b → Gives Q (k b)) : Gives Q (op >>= k) := by
  intro s c s' hy
  obtain ⟨b, s₁, hop, hy⟩ := yields_bind.mp hy
  exact hk b (h _ _ _ hop) _ _ _ hy

/-- To declare a variable changes at most the scopes of the frame. -/
theorem gives_declareVariable (home : Home) (name : String) (v : Value) :
    Gives (fun g => g = { f with scopes := match home with
      | .body => declareInScopes f.scopes name v
      | .group _ => f.scopes }) (declareVariable env f home name v) := by
  cases home with
  | body => exact gives_pure rfl
  | group g =>
    change Gives (· = f) _
    refine gives_bind fun s => ?_
    split
    · exact gives_bind fun _ => gives_pure rfl
    · exact gives_bind fun _ => gives_pure rfl

theorem Gives.ensures {Q : α → Prop} {op : Operation α} {s : State} (h : Gives Q op) :
    op.Ensures s (fun b _ => Q b) fun _ _ => True := by
  unfold Ensures
  split
  · rename_i hy
    exact h _ _ _ hy
  · trivial

theorem Keeps.giving {P : State → Prop} {F : Fault → State → Prop} {Q : α → Prop}
    {op : Operation α} {s : State} (h : Keeps P F op) (hg : Gives Q op) (hs : P s) :
    op.Ensures s (fun b s' => Q b ∧ P s') F :=
  (hg.ensures.both (h s hs)).mono (fun _ _ h => h) fun _ _ h => h.2

section
variable {Q : Flow → Prop} (hon : ∀ g, Q (.on g))
include hon

theorem gives_act (action : Action) (hwalk : ∀ w d, Gives Q (requestWalk env a f w d))
    (hcall : ∀ name d, action = .call name d → Gives Q (callProcedure env a f name d)) :
    Gives Q (act env a f action) := by
  cases action with
  | process w d => exact hwalk w d
  | processSiblings d _ _ => exact hwalk .siblings d
  | call name d => exact hcall name d rfl
  | startElement t =>
    refine gives_bind fun name => ?_
    cases name with
    | none => exact gives_pure (hon _)
    | some name => exact gives_bind fun _ => gives_pure (hon _)
  | endElement t =>
    refine gives_bind fun name => ?_
    cases name with
    | none => exact gives_pure (hon _)
    | some name => exact gives_bind fun _ => gives_pure (hon _)
  | text s => exact gives_bind fun _ => gives_pure (hon _)
  | valueOf select separator =>
    exact gives_bind fun _ => gives_bind fun _ => gives_bind fun _ => gives_pure (hon _)

theorem gives_capture (n : Node) (context : String) (owed : Option QName) :
    Gives Q (capture env f n context owed) := by
  refine gives_bind fun opened => ?_
  cases opened with
  | none => exact gives_pure (hon _)
  | some u => cases owed <;> exact gives_pure (hon _)

theorem gives_openVariable (n : Node) (name : String) (origin : Origin) (home : Home) :
    Gives Q (openVariable env a f n name origin home) := by
  cases origin with
  | selected e => exact gives_bind fun _ => gives_bind fun _ => gives_pure (hon _)
  | written => exact gives_capture hon n _ none

theorem gives_startContainer (n : Node) (c : Container) :
    Gives Q (startContainer env a f n c) := by
  cases c with
  | literal name as => exact gives_bind fun _ => gives_bind fun _ => gives_pure (hon _)
  | element t =>
    refine gives_bind fun name => ?_
    cases name with
    | none => exact gives_pure (hon _)
    | some name => exact gives_bind fun _ => gives_pure (hon _)
  | attr t origin =>
    refine gives_bind fun name => ?_
    cases name with
    | none => exact gives_pure (hon _)
    | some name =>
      cases origin with
      | written => exact gives_capture hon n _ _
      | selected e => exact gives_bind fun _ => gives_bind fun _ => gives_pure (hon _)
  | copy as => exact gives_bind fun _ => gives_pure (hon _)
  | comment => exact gives_capture hon n "comment" none
  | processingInstruction t =>
    refine gives_bind fun target => ?_
    split
    · exact gives_bind fun _ => gives_pure (hon _)
    · exact gives_capture hon n _ _
  | cdata => exact gives_capture hon n "CDATA section" none
  | document t =>
    refine gives_bind fun href => gives_bind fun opened => ?_
    cases opened <;> exact gives_pure (hon _)
  | message origin terminate =>
    cases origin with
    | selected e => exact gives_bind fun _ => gives_bind fun _ => gives_pure (hon _)
    | written => exact gives_capture hon n "message" none
  | «variable» name origin home => exact gives_openVariable hon n _ _ _
  | parameter name default home =>
    simp only [startContainer, openParameter]
    split
    · exact gives_bind fun _ => gives_pure (hon _)
    · split
      · exact gives_openVariable hon n _ _ _
      · exact gives_bind fun _ => gives_bind fun _ => gives_pure (hon _)
  | assign name origin =>
    cases origin with
    | selected e => exact gives_bind fun _ => gives_bind fun _ => gives_pure (hon _)
    | written => exact gives_capture hon n s!"assign `{name}'" none
  | loop test => exact gives_bind fun _ => gives_pure (hon _)
  | each name select =>
    refine gives_bind fun g => ?_
    unfold nextItem
    split <;> exact gives_pure (hon _)

theorem gives_finishContainer (begun : NodeId) (c : Container) :
    Gives Q (finishContainer env a f begun c) := by
  cases c with
  | literal name as => exact gives_bind fun _ => gives_pure (hon _)
  | element t =>
    simp only [finishContainer]
    split
    · exact gives_bind fun _ => gives_pure (hon _)
    · exact gives_pure (hon _)
  | attr t origin =>
    refine gives_bind fun text => ?_
    cases text with
    | none => exact gives_pure (hon _)
    | some value =>
      simp only
      split
      · exact gives_bind fun _ => gives_pure (hon _)
      · exact gives_pure (hon _)
  | copy as =>
    refine gives_bind fun e => ?_
    split
    · exact gives_bind fun _ => gives_pure (hon _)
    all_goals exact gives_pure (hon _)
  | comment =>
    refine gives_bind fun text => ?_
    cases text with
    | none => exact gives_pure (hon _)
    | some text => exact gives_bind fun _ => gives_pure (hon _)
  | processingInstruction t =>
    refine gives_bind fun text => ?_
    split
    · exact gives_bind fun _ => gives_pure (hon _)
    · exact gives_pure (hon _)
  | cdata =>
    refine gives_bind fun text => ?_
    cases text with
    | none => exact gives_pure (hon _)
    | some text =>
      exact gives_bind fun _ => gives_bind fun _ => gives_bind fun _ => gives_pure (hon _)
  | document t => exact gives_bind fun _ => gives_pure (hon _)
  | message origin terminate =>
    refine gives_bind fun text => ?_
    cases text with
    | none => exact gives_pure (hon _)
    | some text => exact gives_bind fun _ => gives_pure (hon _)
  | «variable» name origin home => exact gives_bind fun _ => gives_pure (hon _)
  | parameter name default home => exact gives_bind fun _ => gives_pure (hon _)
  | assign name origin =>
    refine gives_bind fun text => ?_
    cases text with
    | none => exact gives_pure (hon _)
    | some text => exact gives_bind fun _ => gives_pure (hon _)
  | loop test => exact gives_pure (hon _)
  | each name select => exact gives_pure (hon _)

/-- Where an instruction leads if it is no action: on, or out of the body. -/
theorem gives_execute (n : Node) (hdone : Q .done)
    (hact : ∀ action, n.instruction = .act action → Gives Q (act env a f action)) :
    Gives Q (execute env a f n) := by
  unfold execute
  split
  case h_5 action hi => exact hact action hi
  case h_6 => exact gives_startContainer hon n _
  case h_9 =>
    unfold closeAt
    split
    · exact gives_pure (hon _)
    · split
      case h_1 => exact gives_pure hdone
      case h_2 => exact gives_finishContainer hon _ _
      all_goals exact gives_pure (hon _)
  case h_7 => exact gives_bind fun _ => gives_pure (hon _)
  case h_8 => exact gives_bind fun _ => gives_pure (hon _)
  all_goals exact gives_pure (hon _)

end

theorem permitted_requestWalk (w : Walk) (d : Delegation) :
    Gives (Flow.IsPermitted a) (requestWalk env a f w d) := by
  unfold requestWalk
  split
  · exact gives_bind fun _ => gives_pure trivial
  · rename_i ha
    split
    · exact gives_bind fun _ => gives_pure trivial
    · rename_i hnone
      have hfirst : w.suspends → a.suspendedBy = none := fun hw => (if_pos hw).symm.trans hnone
      refine gives_bind fun g => ?_
      split
      · exact gives_pure trivial
      · exact gives_bind fun _ => gives_pure ⟨eq_false_of_ne_true ha, hfirst⟩

theorem permitted_callProcedure (name : String) (d : Delegation) :
    Gives (Flow.IsPermitted a) (callProcedure env a f name d) := by
  refine gives_bind fun g => ?_
  split
  · exact gives_pure trivial
  · split
    · exact gives_bind fun _ => gives_pure trivial
    · exact gives_bind fun _ => gives_pure trivial

theorem permitted_execute (n : Node) : Gives (Flow.IsPermitted a) (execute env a f n) :=
  gives_execute (fun _ => trivial) n trivial fun action _ =>
    gives_act (fun _ => trivial) action permitted_requestWalk fun name d _ =>
      permitted_callProcedure name d

/-! ## Selection -/

theorem mem_of_search {attempt : TemplateId → Except Path.Fault (Option Nat)}
    {ids : List TemplateId} {found : Found} (h : (search attempt ids).found = some found) :
    found.id ∈ ids := by
  induction ids with
  | nil => cases h
  | cons id ids ih =>
    unfold search at h
    split at h
    · cases h
      exact List.mem_cons_self
    · exact List.mem_cons_of_mem _ (ih h)
    · exact List.mem_cons_of_mem _ (ih h)

theorem not_excluded_of_search {p : Program} {s : State} {g : GroupId} {exclude : List TemplateId}
    {hasChildren : Bool} {found : Found}
    (h : (s.searchTemplates p g exclude hasChildren).found = some found) :
    found.id ∉ exclude := by
  have eligible : ∀ {ids : List TemplateId},
      found.id ∈ ids.filter (fun id => !exclude.contains id) → found.id ∉ exclude := by
    intro ids hm
    simpa using (List.mem_filter.mp hm).2
  simp only [State.searchTemplates, searchBoth] at h
  split at h
  · rename_i hown
    cases h
    exact eligible (mem_of_search hown)
  · exact eligible (mem_of_search h)

/-- No template that is excluded is selected. -/
theorem gives_selectTemplate (g : GroupId) (exclude : List TemplateId) (hasChildren : Bool) :
    Gives (fun found => ∀ f, found = some f → f.id ∉ exclude)
      (selectTemplate env g exclude hasChildren) := by
  intro s b s' hy
  rw [selectTemplate, yields_get_bind] at hy
  let result := s.searchTemplates env.program g exclude hasChildren
  have last : Gives (fun found => ∀ f, found = some f → f.id ∉ exclude) (do
      result.faults.forM fun p => report env .error (.evaluation p.2) (env.program.bodyOf p.1)
      pure result.found : Operation (Option Found)) :=
    gives_bind fun _ => gives_pure fun _ hf => not_excluded_of_search hf
  dsimp only at hy
  split at hy
  · exact gives_bind (fun _ => last) _ _ _ hy
  · exact last _ _ _ hy

end Operation

end StreamTransform
