import StreamTransform.Proofs.Construct
import StreamTransform.Proofs.Pending

/-!
# Where control goes

An instruction leaves its frame in the content that it starts, among the
contents where it was, or, at a closing node, outside of the content that ends
there. So a frame that has entered a content stays in it up to the closing node,
through all jumps that are made inside.
-/

namespace StreamTransform

/-- The position lies in the content of what starts at `b`; the closing node still does. -/
def LiesIn (code : Array Node) (b i : NodeId) : Prop := b :: enclosing code b <:+ enclosing code i

namespace Operation

variable {env : Environment} {a : Activation} {f : Frame} {n : Node}

theorem gives_enterLoop (select : Path.Expr) :
    Gives (fun g => ∃ loops, g = { f with loops := loops }) (enterLoop env a f select) := by
  unfold enterLoop
  split
  · exact gives_pure ⟨f.loops, rfl⟩
  · exact gives_bind fun _ => gives_pure ⟨_, rfl⟩

/-- A loop over items goes into its content for the next item, or past it. -/
theorem goes_nextItem {close : NodeId} (hclose : n.close = some close) (name : String)
    {left : List Loop} : Gives (fun flow =>
      (∃ scopes loops, flow.Goes f (f.cursor + 1) scopes loops) ∨
        ∃ scopes loops, flow.Goes f (close + 1) scopes loops)
      (nextItem { f with loops := left } n name) := by
  unfold nextItem
  split
  · exact gives_pure (.inl ⟨_, _, f.owed, rfl⟩)
  · refine gives_pure (.inr ⟨f.scopes, left.tail, f.owed, ?_⟩)
    simp [Flow.frame?, Frame.skip, Frame.moveTo, hclose]

end Operation

/-- The contents around the position where a deed leaves its frame. Only the end of a body leaves
no frame. -/
inductive Deed.Moves (env : Environment) (d : Deed) : Prop
  | enters {f : Frame} : d.flow.frame? = some f → enclosing env.program.code f.cursor =
      d.frame.cursor :: enclosing env.program.code d.frame.cursor → Moves env d
  | stays {f : Frame} : d.flow.frame? = some f →
      enclosing env.program.code f.cursor = enclosing env.program.code d.frame.cursor → Moves env d
  | leaves {f : Frame} {b : NodeId} : d.node.instruction = .closing b →
      d.flow.frame? = some f → enclosing env.program.code f.cursor = enclosing env.program.code b →
      Moves env d
  | ends {b : NodeId} : d.node.instruction = .closing b → StartsBody env.program.code b →
      Moves env d

/-! ## Inside of a content -/

section
variable {code : Array Node} {env : Environment} {d : Deed} {b i j : NodeId} {n : Node}

theorem liesIn_of_opening (hn : code[b]? = some n) {c : NodeId} (hc : n.close = some c) :
    LiesIn code b (b + 1) := by
  have hin : enclosing code (b + 1) = b :: enclosing code b := by
    rw [enclosing_succ hn, Node.after, hc]
  exact ⟨[], hin.symm⟩

theorem LiesIn.congr (h : LiesIn code b i) (he : enclosing code j = enclosing code i) :
    LiesIn code b j := by
  rw [LiesIn, he]
  exact h

theorem LiesIn.deeper (h : LiesIn code b i) (he : enclosing code j = i :: enclosing code i) :
    LiesIn code b j := by
  rw [LiesIn, he]
  exact h.trans (List.suffix_cons _ _)

/-- From a content that ends further inside, control stays where it is. -/
theorem LiesIn.outward {b' : NodeId} (h : LiesIn code b i)
    (hi : enclosing code i = b' :: enclosing code b') (hne : b' ≠ b)
    (he : enclosing code j = enclosing code b') : LiesIn code b j := by
  rw [LiesIn, he]
  rw [LiesIn, hi] at h
  rcases List.suffix_cons_iff.mp h with heq | h
  · exact absurd (List.cons.inj heq).1.symm hne
  · exact h

/-! ## Where contents end -/

/-- The closing node of what starts at a node lies in its content, and what follows does not. -/
theorem enclosing_closeFrom {place start : NodeId} {st : List NodeId} (hw : WellNested code)
    (h : OpensIn code start st) : enclosing code (closeFrom code place start) = start :: st ∧
      enclosing code (closeFrom code place start + 1) = st := by
  obtain ⟨n, c, hn, hc, -, hst⟩ := h
  have hplace : closeFrom code place start = c := by simp [closeFrom, hn, hc]
  rw [hplace]
  exact ⟨hst ▸ ((hw.lawful _ _ hn).close c hc).1, hst ▸ enclosing_after_close hw hn hc⟩

/-- Where control goes from the end of a content, it is among the contents around the start. -/
theorem enclosing_exit (hw : WellNested code) (hn : code[i]? = some n)
    (hb : n.instruction = .closing b) {o : Node} (ho : code[b]? = some o) {place : NodeId}
    (hx : o.instruction.exit? code b i = some place) :
    enclosing code place = enclosing code b := by
  have hlawful := hw.lawful _ _ ho
  have next (h : some (i + 1) = some place) : enclosing code place = enclosing code b :=
    Option.some.inj h ▸ (enclosing_of_closing hw hn hb).2.1
  cases hi : o.instruction with
  | body =>
    rw [hi] at hx
    cases hx
  | container c =>
    rw [hi] at hx
    cases hr : c.isRepeated with
    | true =>
      rw [Instruction.exit?, if_pos hr] at hx
      exact Option.some.inj hx ▸ rfl
    | false => exact next (by simpa [Instruction.exit?, hr] using hx)
  | condition test other =>
    rw [hi] at hx
    cases other with
    | none => exact next hx
    | some other =>
      exact Option.some.inj hx ▸ (enclosing_closeFrom hw (hlawful.alternative test other hi)).2
  | when test choice =>
    rw [hi] at hx
    obtain ⟨st, hopens, hst⟩ := hlawful.choice test choice hi
    exact Option.some.inj hx ▸ (enclosing_closeFrom hw hopens).1.trans hst.symm
  | _ =>
    rw [hi] at hx
    exact next hx

/-! ## Deeds -/

namespace Deed

/-- Into the content or past it: what an opening node may do. -/
theorem Happens.moves_of_opening (hw : WellNested env.program.code) (hd : d.Happens env)
    {close : NodeId} (hclose : d.node.close = some close)
    (h : (∃ scopes loops, d.flow.Goes d.frame (d.frame.cursor + 1) scopes loops) ∨
      ∃ scopes loops, d.flow.Goes d.frame (close + 1) scopes loops) : d.Moves env := by
  rcases h with ⟨_, _, owed, hf⟩ | ⟨_, _, owed, hf⟩
  · exact .enters hf (enclosing_of_opening hd.node hclose)
  · exact .stays hf (enclosing_after_close hw hd.node hclose)

theorem Happens.moves_of_container (hw : WellNested env.program.code) (hd : d.Happens env)
    {c : Container} (hc : d.node.instruction = .container c) : d.Moves env := by
  obtain ⟨close, hclose⟩ := close_of_isOpening hw hd.node (by rw [hc]; rfl)
  refine hd.moves_of_opening hw hclose ?_
  have hy := hd.startContainer hc
  cases hr : c.isRepeated with
  | false =>
    cases hs : c.isSelected d.frame.passed with
    | true =>
      obtain ⟨v, hg⟩ := Operation.passes_startContainer hclose c hs _ _ _ hy
      exact .inr ⟨_, _, hg⟩
    | false =>
      rcases Operation.unless_startContainer hclose c hr hs _ _ _ hy with hg | ⟨hg, -⟩
      · exact .inl ⟨_, _, hg⟩
      · exact .inr ⟨_, _, hg⟩
  | true =>
    cases c with
    | loop test =>
      have hruns : d.Runs d.frame.cursor (.container (.loop test)) d.node.location d.frame.scopes :=
        ⟨rfl, hc, rfl, rfl⟩
      rcases tested hd hruns rfl hclose with ⟨-, hg⟩ | ⟨-, hg⟩
      · exact .inl ⟨_, _, hg⟩
      · exact .inr ⟨_, _, hg⟩
    | each name select =>
      obtain ⟨g, s₁, hg, hy⟩ := Operation.yields_bind.mp hy
      obtain ⟨left, rfl⟩ := Operation.gives_enterLoop select _ _ _ hg
      exact Operation.goes_nextItem hclose name _ _ _ hy
    | _ => cases hr

/-- After a closing node control is where the start says, unless it was that of a body. -/
theorem Happens.exits (hd : d.Happens env) (hb : d.node.instruction = .closing b) {o : Node}
    (ho : env.program.code[b]? = some o) {place : NodeId}
    (hx : o.instruction.exit? env.program.code b d.frame.cursor = some place) :
    ∃ f, d.flow.frame? = some f ∧ f.cursor = place := by
  have hy := hd.closeAt hb
  rw [Operation.closeAt, ho] at hy
  have goes {f : Frame} (hy : (pure (.on f) : Operation Flow).Yields d.before d.flow d.after)
      (hf : some f.cursor = some place) : ∃ f, d.flow.frame? = some f ∧ f.cursor = place :=
    ⟨f, congrArg Flow.frame? (Operation.yields_pure.mp hy).1, Option.some.inj hf⟩
  cases hi : o.instruction with
  | body =>
    rw [hi] at hx
    cases hx
  | container c =>
    simp only [hi] at hy hx
    cases hr : c.isRepeated with
    | true =>
      rw [Instruction.exit?, if_pos hr] at hx
      cases c with
      | loop | each => exact goes hy hx
      | _ => cases hr
    | false =>
      simp only [Instruction.exit?, hr] at hx
      obtain rfl : d.frame.cursor + 1 = place := Option.some.inj hx
      rcases Operation.unless_finishContainer b c hr _ _ _ hy with ⟨_, _, hf⟩ | ⟨⟨_, hf⟩, -⟩
      · exact ⟨_, hf, rfl⟩
      · exact ⟨_, hf, rfl⟩
  | condition test other =>
    simp only [hi] at hy hx
    cases other with
    | none => exact goes hy hx
    | some other =>
      simp only [Operation.leaveTo_eq] at hy
      exact goes hy hx
  | when test choice =>
    simp only [hi, Operation.leaveTo_eq] at hy hx
    exact goes hy hx
  | _ =>
    simp only [hi] at hy hx
    exact goes hy hx

theorem Happens.moves_of_closing (hw : WellNested env.program.code) (hd : d.Happens env)
    (hb : d.node.instruction = .closing b) : d.Moves env := by
  obtain ⟨-, -, o, ho, -⟩ := enclosing_of_closing hw hd.node hb
  cases hx : o.instruction.exit? env.program.code b d.frame.cursor with
  | none =>
    refine .ends hb ⟨o, ho, ?_⟩
    unfold Instruction.exit? at hx
    split at hx <;> first | assumption | cases hx
  | some place =>
    obtain ⟨f, hf, rfl⟩ := hd.exits hb ho hx
    exact .leaves hb hf (enclosing_exit hw hd.node hb ho hx)

/-- Wherever jumps lead, a deed keeps its frame among the contents of its body. -/
theorem Happens.moves (hw : WellNested env.program.code) (hd : d.Happens env) : d.Moves env := by
  have hruns : d.Runs d.frame.cursor d.node.instruction d.node.location d.frame.scopes :=
    ⟨rfl, rfl, rfl, rfl⟩
  have plain (hi : d.node.instruction.isPlain) : d.Moves env := by
    have ho : d.node.instruction.isOpening := by
      cases h : d.node.instruction <;> first | rfl | (rw [h] at hi; cases hi)
    obtain ⟨close, hclose⟩ := close_of_isOpening hw hd.node ho
    exact hd.moves_of_opening hw hclose (.inl ⟨_, _, enters hd hruns hi⟩)
  have decided {test : Path.Expr} (hi : d.node.instruction.test? = some test) : d.Moves env := by
    have ho : d.node.instruction.isOpening := by
      cases h : d.node.instruction <;> first | rfl | (rw [h] at hi; cases hi)
    obtain ⟨close, hclose⟩ := close_of_isOpening hw hd.node ho
    rcases tested hd hruns hi hclose with ⟨-, hg⟩ | ⟨-, hg⟩
    · exact hd.moves_of_opening hw hclose (.inl ⟨_, _, hg⟩)
    · exact hd.moves_of_opening hw hclose (.inr ⟨_, _, hg⟩)
  cases hi : d.node.instruction with
  | act action =>
    obtain ⟨owed, hf⟩ := Operation.goes_act action _ _ _ (hd.act hi)
    exact .stays hf (enclosing_of_act hw hd.node hi)
  | container c => exact hd.moves_of_container hw hi
  | condition | when => exact decided (by rw [hi]; rfl)
  | body | alternative | choice | «otherwise» => exact plain (by rw [hi]; rfl)
  | closing b => exact hd.moves_of_closing hw hi

/-- A frame stays in a content that it is in, up to the closing node. -/
theorem Happens.within (hw : WellNested env.program.code) (hd : d.Happens env)
    (h : LiesIn env.program.code b d.frame.cursor) (hne : d.node.instruction ≠ .closing b) :
    ∃ f, d.flow.frame? = some f ∧ LiesIn env.program.code b f.cursor := by
  have inside {b' : NodeId} (hb : d.node.instruction = .closing b') : b' ≠ b := by
    rintro rfl
    exact hne hb
  cases hd.moves hw with
  | enters hf he => exact ⟨_, hf, h.deeper he⟩
  | stays hf he => exact ⟨_, hf, h.congr he⟩
  | leaves hb hf he =>
    exact ⟨_, hf, h.outward (enclosing_of_closing hw hd.node hb).1 (inside hb) he⟩
  | @ends b' hb hs =>
    rw [LiesIn, (enclosing_of_closing hw hd.node hb).1, hs.enclosing_eq_nil hw] at h
    rcases List.suffix_cons_iff.mp h with heq | hnil
    · exact absurd (List.cons.inj heq).1.symm (inside hb)
    · cases List.suffix_nil.mp hnil

end Deed

end

end StreamTransform
