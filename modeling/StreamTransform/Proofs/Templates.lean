import StreamTransform.Proofs.Evaluability
import StreamTransform.Proofs.Quoting

/-!
# Writing and reading templates

A template is written piece by piece: a fixed text with its braces doubled, an
expression between braces. Reading it gives the pieces back, since the search
for the brace that closes an expression ends where the expression does.
-/

namespace StreamTransform.Path

/-- What a template is made of: a fixed text, or an expression and a text that it is parsed from. -/
inductive Piece (ns : Namespaces) where
  | fixed (text : String)
  | computed (text : String) (expr : Expr) (parsed : parseExpr ns text = .ok expr)

def isBrace (c : Char) : Bool := c == Char.ofNat 0x7B || c == Char.ofNat 0x7D

/-- A character as it is written outside expressions. -/
def doubled (c : Char) : List Char := if isBrace c then [c, c] else [c]

namespace Piece

variable {ns : Namespaces}

def written : Piece ns → List Char
  | fixed s => s.toList.flatMap doubled
  | computed t _ _ => Char.ofNat 0x7B :: (t.toList ++ [Char.ofNat 0x7D])

/-- The text that the piece stands for. -/
def text (ctx : Context) (top : Nat) : Piece ns → Except Fault String
  | fixed s => .ok s
  | computed _ e _ => do .ok (← e.evaluate ctx top).toText

/-- The parts of the template that some pieces are read as, after some reversed characters. -/
def partsAfter (collected : List Char) : List (Piece ns) → List TemplatePart
  | [] => flushFixed collected
  | fixed s :: ps => partsAfter (s.toList.reverse ++ collected) ps
  | computed _ e _ :: ps => flushFixed collected ++ .computed e :: partsAfter [] ps

end Piece

/-- The text of a template with the given pieces. -/
def writtenTemplate {ns : Namespaces} (ps : List (Piece ns)) : String :=
  String.ofList (ps.flatMap Piece.written)

/-! ## Reading -/

section
variable (ns : Namespaces) (input : String)

theorem templateParts_doubled (s r collected : List Char) :
    templateParts ns input collected (s.flatMap doubled ++ r) =
      templateParts ns input (s.reverse ++ collected) r := by
  induction s generalizing collected with
  | nil => rfl
  | cons c s ih =>
    have hstep : templateParts ns input collected (doubled c ++ (s.flatMap doubled ++ r)) =
        templateParts ns input (c :: collected) (s.flatMap doubled ++ r) := by
      unfold doubled isBrace
      by_cases hopen : c = Char.ofNat 0x7B
      · subst hopen
        rw [templateParts.eq_def]
        rfl
      · by_cases hclose : c = Char.ofNat 0x7D
        · subst hclose
          rw [templateParts.eq_def]
          rfl
        · rw [templateParts.eq_def]
          simp [hopen, hclose]
    rw [List.flatMap_cons, List.append_assoc, hstep, ih]
    simp

theorem templateParts_fixed (s : List Char) :
    templateParts ns input [] (s.flatMap doubled) = .ok (flushFixed s.reverse) := by
  have := templateParts_doubled ns input s [] []
  rw [List.append_nil, List.append_nil] at this
  rw [this, templateParts.eq_def]

theorem templateParts_computed {ns : Namespaces} {t : List Char} {e : Expr} (h : Closed t)
    (parsed : parseExpr ns (String.ofList t) = .ok e) (r collected : List Char) :
    templateParts ns input collected (Char.ofNat 0x7B :: (t ++ Char.ofNat 0x7D :: r)) =
      (templateParts ns input [] r).map fun parts =>
        flushFixed collected ++ .computed e :: parts := by
  have htake : takeEmbedded none (t ++ Char.ofNat 0x7D :: r) = some (t, r) := takeEmbedded_append h
  obtain ⟨d, u, hu⟩ : ∃ d u, t ++ Char.ofNat 0x7D :: r = d :: u :=
    List.exists_cons_of_ne_nil (by simp)
  have hd : (d == Char.ofNat 0x7B) = false := by
    cases t with
    | nil =>
      cases hu
      rfl
    | cons c t =>
      cases hu
      simpa using h.head
  rw [hu] at htake ⊢
  rw [templateParts.eq_def]
  simp only [beq_self_eq_true, if_true, hd, Bool.false_eq_true, if_false]
  split
  · rename_i hnone
    rw [htake] at hnone
    cases hnone
  · rename_i text rest hsome
    rw [htake] at hsome
    cases hsome
    rw [parsed]
    cases templateParts ns input [] r <;> rfl

theorem templateParts_written {ns : Namespaces} (ps : List (Piece ns)) (collected : List Char) :
    templateParts ns input collected (ps.flatMap Piece.written) =
      .ok (Piece.partsAfter collected ps) := by
  induction ps generalizing collected with
  | nil => rw [List.flatMap_nil, templateParts.eq_def, Piece.partsAfter]
  | cons p ps ih =>
    cases p with
    | fixed s => rw [List.flatMap_cons, Piece.written, templateParts_doubled, ih, Piece.partsAfter]
    | computed t e parsed =>
      have hread := templateParts_computed input (closed_of_parseExpr parsed)
        (by rwa [String.ofList_toList]) (ps.flatMap Piece.written) collected
      rw [List.flatMap_cons, Piece.written, List.cons_append, List.append_assoc,
        List.singleton_append, hread, ih]
      rfl

end

/-- A text without braces is one fixed part, so it does not matter that it is not read at all. -/
theorem templateParts_of_no_brace {ns : Namespaces} {input : String} {s : List Char}
    (h : s.any isBrace = false) : templateParts ns input [] s = .ok (flushFixed s.reverse) := by
  have hdoubled : s.flatMap doubled = s := by
    induction s with
    | nil => rfl
    | cons c s ih =>
      obtain ⟨hc, hs⟩ : isBrace c = false ∧ s.any isBrace = false := by simpa using h
      rw [List.flatMap_cons, ih hs, doubled, hc]
      rfl
  have hfixed := templateParts_fixed ns input s
  rwa [hdoubled] at hfixed

/-! ## Evaluation -/

/-- The texts of some items, joined; the first that has none decides what is wrong. -/
def joined {α : Type} (text : α → Except Fault String) (items : List α) : Except Fault String :=
  (items.mapM text).map String.join

section
variable {α : Type} {text : α → Except Fault String} {items : List α}

theorem joined_nil : joined text [] = .ok "" := rfl

theorem joined_cons (a : α) :
    joined text (a :: items) = (text a).bind fun s => (joined text items).map (s ++ ·) := by
  rw [joined, List.mapM_cons, joined]
  cases text a with
  | error f => rfl
  | ok s =>
    cases items.mapM text with
    | error f => rfl
    | ok texts => exact congrArg Except.ok String.join_cons

theorem fails_joined_iff :
    (∃ f, joined text items = .error f) ↔ ∃ a ∈ items, ∃ f, text a = .error f := by
  induction items with
  | nil => simp [joined_nil]
  | cons a items ih =>
    simp only [joined_cons, List.mem_cons, exists_eq_or_imp, ← ih]
    cases text a with
    | error f => simp [Except.bind]
    | ok s => cases joined text items <;> simp [Except.bind, Except.map]

end

def TemplatePart.text (ctx : Context) (top : Nat) : TemplatePart → Except Fault String
  | .fixed s => .ok s
  | .computed e => do .ok (← e.evaluate ctx top).toText

section
variable {ns : Namespaces} (ctx : Context) (top : Nat)

theorem evaluate_parts (parts : List TemplatePart) :
    (TextTemplate.parts parts).evaluate ctx top = joined (TemplatePart.text ctx top) parts := by
  change (do
    let texts ← parts.mapM (TemplatePart.text ctx top)
    .ok (String.join texts)) = joined (TemplatePart.text ctx top) parts
  rw [joined]
  cases parts.mapM (TemplatePart.text ctx top) <;> rfl

theorem joined_flushFixed (collected : List Char) (parts : List TemplatePart) :
    joined (TemplatePart.text ctx top) (flushFixed collected ++ parts) =
      (joined (TemplatePart.text ctx top) parts).map (String.ofList collected.reverse ++ ·) := by
  cases collected with
  | nil =>
    change joined (TemplatePart.text ctx top) parts = _
    cases joined (TemplatePart.text ctx top) parts <;> simp [Except.map]
  | cons c collected => exact joined_cons _

/-- The parts that the pieces are read as have the texts of the pieces. -/
theorem joined_partsAfter (ps : List (Piece ns)) (collected : List Char) :
    joined (TemplatePart.text ctx top) (Piece.partsAfter collected ps) =
      (joined (Piece.text ctx top) ps).map (String.ofList collected.reverse ++ ·) := by
  induction ps generalizing collected with
  | nil =>
    have := joined_flushFixed ctx top collected []
    rwa [List.append_nil] at this
  | cons p ps ih =>
    cases p with
    | fixed s =>
      rw [Piece.partsAfter, ih, joined_cons, Piece.text]
      cases joined (Piece.text ctx top) ps <;> simp [Except.map, Except.bind, String.append_assoc]
    | computed t e parsed =>
      rw [Piece.partsAfter, joined_flushFixed, joined_cons, joined_cons, ih]
      rw [TemplatePart.text, Piece.text]
      congr 1
      cases joined (Piece.text ctx top) ps <;> simp [Except.map]

end

/-- A text that is read as these parts is read as a template, fixed if they are one fixed part. -/
theorem parseTemplate_of_parts {ns : Namespaces} {input : String} {parts : List TemplatePart}
    (h : templateParts ns input [] input.toList = .ok parts) :
    ∃ t, parseTemplate ns input = .ok t ∧
      (∀ s, parts = [.fixed s] → t = .fixed s) ∧
      ∀ ctx top, t.evaluate ctx top = joined (TemplatePart.text ctx top) parts := by
  have hevaluate (s : String) (ctx : Context) (top : Nat) :
      joined (TemplatePart.text ctx top) [.fixed s] = .ok s := by
    simp [joined_cons, joined_nil, TemplatePart.text, Except.bind, Except.map]
  unfold parseTemplate
  split
  · rename_i hbrace
    have hparts : parts = flushFixed input.toList.reverse := by
      rw [templateParts_of_no_brace (by simpa [isBrace] using hbrace)] at h
      exact (Except.ok.inj h).symm
    have htext : ∀ ctx top, joined (TemplatePart.text ctx top) parts = .ok input := by
      intro ctx top
      have := joined_flushFixed ctx top input.toList.reverse []
      rw [List.append_nil, ← hparts, joined_nil, List.reverse_reverse, String.ofList_toList] at this
      simpa [Except.map] using this
    refine ⟨.fixed input, rfl, fun s hs => ?_, fun ctx top => (htext ctx top).symm⟩
    rw [hparts, flushFixed] at hs
    split at hs
    · cases hs
    · simpa using hs
  · rw [h]
    simp only [bind, Except.bind]
    split
    · rename_i s
      refine ⟨.fixed s, rfl, fun s' hs => ?_, fun ctx top => (hevaluate s ctx top).symm⟩
      simpa using hs
    · rename_i hother
      exact ⟨.parts parts, rfl, fun s hs => absurd hs (hother s),
        fun ctx top => evaluate_parts ctx top parts⟩

/-- Braces that are doubled stand for themselves. -/
theorem parseTemplate_doubled (ns : Namespaces) (s : String) :
    parseTemplate ns (String.ofList (s.toList.flatMap doubled)) = .ok (.fixed s) := by
  by_cases hempty : s = ""
  · subst hempty
    rfl
  · have hparts : templateParts ns (String.ofList (s.toList.flatMap doubled)) []
        (String.ofList (s.toList.flatMap doubled)).toList = .ok [.fixed s] := by
      rw [String.toList_ofList, templateParts_fixed]
      simp [flushFixed, hempty]
    obtain ⟨t, ht, hfixed, -⟩ := parseTemplate_of_parts hparts
    rw [ht, hfixed s rfl]

/-- A written template is read as one that has the texts of its pieces, joined, and none just if an
expression among them cannot be evaluated. -/
theorem written_templates_are_read_back {ns : Namespaces} :
    (∀ ps : List (Piece ns), ∃ t, parseTemplate ns (writtenTemplate ps) = .ok t ∧
      ∀ ctx top, t.evaluate ctx top = (ps.mapM (Piece.text ctx top)).map String.join ∧
        ((∃ f, t.evaluate ctx top = .error f) ↔
          ∃ s e parsed, .computed s e parsed ∈ ps ∧ ∃ f, e.evaluate ctx top = .error f)) ∧
    ∀ s : String, parseTemplate ns (String.ofList (s.toList.flatMap doubled)) = .ok (.fixed s) := by
  refine ⟨fun ps => ?_, parseTemplate_doubled ns⟩
  obtain ⟨t, ht, -, htext⟩ :=
    parseTemplate_of_parts (show templateParts ns (writtenTemplate ps) []
        (writtenTemplate ps).toList = .ok (Piece.partsAfter [] ps) by
      rw [writtenTemplate, String.toList_ofList, templateParts_written])
  refine ⟨t, ht, fun ctx top => ?_⟩
  have hjoined : t.evaluate ctx top = joined (Piece.text ctx top) ps := by
    rw [htext, joined_partsAfter]
    cases joined (Piece.text ctx top) ps <;> simp [Except.map]
  refine ⟨hjoined, ?_⟩
  rw [hjoined, fails_joined_iff]
  constructor
  · rintro ⟨p, hmem, f, hf⟩
    cases p with
    | fixed s => cases hf
    | computed s e parsed => exact ⟨s, e, parsed, hmem, f, fails_of_bind_ok hf⟩
  · rintro ⟨s, e, parsed, hmem, f, hf⟩
    exact ⟨.computed s e parsed, hmem, f, by rw [Piece.text, hf]; rfl⟩

end StreamTransform.Path
