import StreamTransform.Proofs.Primary

/-!
# Reading inverts printing

The text of a phrase is read as the expression that the phrase stands for. The
induction is over the phrase, at every depth of nesting that its length leaves:
an operand is read at the depth of its operator, and what stands between
delimiters one depth below. One numeral is not read as it is written: at the end
of the text the fraction after whole digits is lost.
-/

namespace StreamTransform.Path

open Reader

variable {ns : Namespaces}

/-! ## The ends of texts -/

theorem solid_parenthesize {t : List Char} (needed : Bool) (h : Solid t) :
    Solid (parenthesize needed t) := by
  cases needed
  · exact h
  · exact (Solid.single (by decide)).append t (.single (by decide))

theorem NcName.solid (n : NcName) : Solid n.text.toList :=
  .of_all n.toList_ne_nil fun c hc => isBlank_of_isNameChar (n.isNameChar_of_mem c hc)

theorem LexicalName.solid (n : LexicalName) : Solid n.print := by
  cases n with
  | plain n => exact n.solid
  | qualified q l => exact q.solid.append [':'] l.solid

theorem Numeral.solid (n : Numeral) : Solid n.print :=
  .of_all n.print_ne_nil fun c hc => isBlank_of_isNameChar <| by
    rcases n.mem_print c hc with digit | rfl
    · exact isNameChar_of_isAsciiDigit digit
    · decide

theorem Quotable.solid (t : Quotable) : Solid t.print := by
  have quote : Text.isBlank t.quote = false := by
    rcases t.isQuote with h | h <;> rw [h] <;> decide
  exact (Solid.single quote).append t.text.toList (.single quote)

theorem kindText_solid {word : String} (h : Solid word.toList) (argument : List Char) :
    Solid (kindText word argument) :=
  h.append ('(' :: argument) (.single (by decide))

theorem TestPhrase.solid (t : TestPhrase ns) : Solid t.print := by
  cases t with
  | name l => exact l.solid
  | qualified q l => exact q.name.solid.append [':'] l.solid
  | anyNamespace l => exact (Solid.single (by decide)).append [':'] l.solid
  | inNamespace q => exact q.name.solid.append [':'] (.single (by decide))
  | wildcard => exact .single (by decide)
  | text => exact kindText_solid ⟨⟨_, rfl, by decide⟩, ⟨_, rfl, by decide⟩⟩ _
  | comment => exact kindText_solid ⟨⟨_, rfl, by decide⟩, ⟨_, rfl, by decide⟩⟩ _
  | instruction target => exact kindText_solid ⟨⟨_, rfl, by decide⟩, ⟨_, rfl, by decide⟩⟩ _
  | node => exact kindText_solid ⟨⟨_, rfl, by decide⟩, ⟨_, rfl, by decide⟩⟩ _

theorem solid_bracketed {a : List Char} (h : Solid a) (ts : List (List Char)) :
    Solid (a ++ (ts.map bracket).flatten) := by
  induction ts generalizing a with
  | nil => simpa using h
  | cons t ts ih =>
    have := ih (h.append ('[' :: t) (.single (c := ']') (by decide)))
    simpa [bracket] using this

theorem solid_intercalate (sep : List Char) {ts : List (List Char)} (some : ts ≠ [])
    (h : ∀ t ∈ ts, Solid t) : Solid (sep.intercalate ts) := by
  induction ts with
  | nil => exact absurd rfl some
  | cons t ts ih =>
    obtain ⟨first, others⟩ := List.forall_mem_cons.mp h
    rw [intercalate_cons]
    cases ts with
    | nil => simpa [continued] using first
    | cons u ts =>
      rw [continued_cons, ← intercalate_cons]
      exact first.append sep (ih (by simp) others)

theorem Trail.length_prints {n : Nat} (ts : Trail ns n) : ts.prints.length = n := by
  cases ts with
  | nil => rfl
  | cons axis test predicates ts => simp [Trail.prints, ts.length_prints]

theorem Trail.solid {n : Nat} (ts : Trail ns n) : ∀ t ∈ ts.prints, Solid t := by
  cases ts with
  | nil => simp [Trail.prints]
  | cons axis test predicates ts =>
    have first : Solid (axis.word.toList ++ ([':', ':'] ++ test.print)) :=
      Solid.append (by cases axis <;> exact ⟨⟨_, rfl, by decide⟩, ⟨_, rfl, by decide⟩⟩) _ test.solid
    have := solid_bracketed first predicates.prints
    rw [Trail.prints, List.forall_mem_cons]
    exact ⟨by simpa using this, ts.solid⟩

theorem Phrase.solid : ∀ p : Phrase ns, Solid p.print
  | .literal t => t.solid
  | .number n => n.solid
  | .reference n => (Solid.single (by decide)).append [] n.solid
  | .sequence items _ => (Solid.single (by decide)).append _ (.single (by decide))
  | .call f args _ => kindText_solid (NcName.solid ⟨f.title, title_legal f⟩) _
  | .path absolute steps moves => by
    rw [Phrase.print]
    by_cases none : steps.prints = []
    · have : absolute = true := moves.resolve_right fun some => some (by
        rw [← steps.length_prints, none, List.length_nil])
      rw [none, this]
      exact .single (by decide)
    · have path := solid_intercalate ['/'] none steps.solid
      cases absolute
      · exact path
      · exact (Solid.single (by decide)).append [] path
  | .binary op l r => by
    have := (solid_parenthesize (l.precedence < op.precedence) l.solid).append
      (' ' :: (op.sign.toList ++ [' '])) (solid_parenthesize (r.precedence ≤ op.precedence) r.solid)
    simpa [Phrase.print] using this
  | .negate e => (Solid.single (by decide)).append [] (solid_parenthesize _ e.solid)
  | .conditional t y n => by
    have := (Solid.single (c := 'i') (by decide)).append
      (['f', ' ', '('] ++ (t.print ++ ([')', ' ', 't', 'h', 'e', 'n', ' '] ++
        (y.print ++ [' ', 'e', 'l', 's', 'e', ' '])))) n.solid
    simpa [Phrase.print, conditionalText] using this

/-! ## Operands -/

theorem Climbs.of_read {expr : Reader Expr} {t : List Char} {e : Bool → Expr} (solid : Solid t)
    (unsigned : t.head? ≠ some '-')
    (h : ∀ rest, Follows rest → ∃ r, firstOf (alternatives expr) (t ++ rest) =
      some (e rest.isEmpty, r) ∧ skipSpace r = skipSpace rest) :
    Climbs expr [] t e := by
  intro rest follows stops
  obtain ⟨r, read, done⟩ := h rest follows
  have front : (t ++ rest).head? ≠ some '-' := by
    obtain ⟨c, hc, -⟩ := solid.starts
    obtain ⟨s, rfl⟩ := List.head?_eq_some_iff.mp hc
    exact unsigned
  rw [rung_of_alternatives (skipSpace_solid solid rest) front read, done]

/-- What is in parentheses is an operand of every level. -/
theorem Climbs.parenthesized {expr : Reader Expr} {t : List Char} {e : Expr}
    (h : Delimited expr t e) (nothing : ∀ s, expr (')' :: s) = none) :
    Climbs expr [] ('(' :: (t ++ [')'])) fun _ => e := by
  refine .of_read (solid_parenthesize true h.solid) (by simp) fun rest _ => ?_
  have read := read_parenthesized (.cons h .nil) nothing rest
  have front : '(' :: (t ++ [')']) ++ rest = '(' :: (listed [t] ++ ')' :: rest) := by
    simp [listed, List.intercalate]
  rw [front]
  exact ⟨_, read, skipSpace_skipSpace rest⟩

/-- A phrase is read as an operand of every operator that binds less tightly, and as the first
operand of those that bind as tightly. -/
structure Phrase.Reads (expr : Reader Expr) (p : Phrase ns) : Prop where
  chains : ∀ k sign ss, signs.drop k = sign :: ss → k < p.precedence →
    Chains expr sign ss p.print (p.expr Qualifier.pending)
  climbs : ∀ k < p.precedence, Climbs expr (signs.drop k) p.print (p.expr Qualifier.pending)
  whole : Climbs expr signs p.print (p.expr Qualifier.pending)

theorem Phrase.Reads.of_unary {expr : Reader Expr} {p : Phrase ns}
    (h : Climbs expr [] p.print (p.expr Qualifier.pending)) : p.Reads expr where
  climbs k _ := by simpa using h.above (signs.drop k)
  chains k sign ss _ _ := by simpa using (h.above ss).chains
  whole := by simpa using h.above signs

theorem Phrase.Reads.binary {expr : Reader Expr} {op : BinaryOperator} {l r : Phrase ns}
    (h : Chains expr op.reader op.tighter (Phrase.binary op l r).print
      ((Phrase.binary op l r).expr Qualifier.pending)) : (Phrase.binary op l r).Reads expr := by
  have positive := op.precedence_pos
  have climbs (k : Nat) (hk : k < op.precedence) :
      Climbs expr (signs.drop k) (Phrase.binary op l r).print
        ((Phrase.binary op l r).expr Qualifier.pending) := by
    have own := (op.drop_signs ▸ h.climbs).above ((signs.drop k).take (op.precedence - 1 - k))
    have levels : (signs.drop k).drop (op.precedence - 1 - k) = signs.drop (op.precedence - 1) := by
      rw [List.drop_drop]
      congr 1
      omega
    rwa [← levels, List.take_append_drop] at own
  refine ⟨fun k sign ss levels hk => ?_, climbs, climbs 0 positive⟩
  by_cases own : k = op.precedence - 1
  · rw [own, op.drop_signs] at levels
    cases levels
    exact h
  · have tail : ss = signs.drop (k + 1) := by rw [← List.tail_drop, levels, List.tail_cons]
    rw [tail]
    exact (climbs (k + 1) (by change k < op.precedence at hk; omega)).chains

/-- A phrase that is short enough for every depth is read whole. -/
theorem whole_of_reads {p : Phrase ns} (solid : Solid p.print)
    (h : ∀ d, p.print.length ≤ d → p.Reads (expression d)) {d : Nat}
    (short : p.print.length < d) :
    Whole (expression d) p.print (p.expr Qualifier.pending) := by
  obtain ⟨d, rfl⟩ := Nat.exists_eq_succ_of_ne_zero (Nat.ne_zero_of_lt short)
  exact ⟨solid, fun rest ends => (h d (by omega)).whole rest ends.toFollows ends.stops⟩

/-- The right operand of an operator. -/
theorem climbs_right {expr : Reader Expr} {p : Phrase ns} (m : Nat) (reads : p.Reads expr)
    (delimited : p.precedence ≤ m → Delimited expr p.print (p.expr Qualifier.pending false))
    (nothing : ∀ s, expr (')' :: s) = none) :
    Climbs expr (signs.drop m) (parenthesize (p.precedence ≤ m) p.print)
      fun atEnd => p.expr Qualifier.pending (atEnd && m < p.precedence) := by
  by_cases loose : p.precedence ≤ m
  · have : ¬ m < p.precedence := by omega
    simpa [parenthesize, loose, this] using
      (Climbs.parenthesized (delimited loose) nothing).above (signs.drop m)
  · have tight : m < p.precedence := by omega
    simpa [parenthesize, loose, tight] using reads.climbs m tight

/-- The left operand of an operator. -/
theorem chains_left {expr : Reader Expr} {p : Phrase ns} (op : BinaryOperator)
    (reads : p.Reads expr)
    (delimited : p.precedence < op.precedence →
      Delimited expr p.print (p.expr Qualifier.pending false))
    (nothing : ∀ s, expr (')' :: s) = none) :
    ∃ e : Bool → Expr, e false = p.expr Qualifier.pending false ∧
      Chains expr op.reader op.tighter (parenthesize (p.precedence < op.precedence) p.print) e := by
  by_cases loose : p.precedence < op.precedence
  · refine ⟨fun _ => p.expr Qualifier.pending false, rfl, ?_⟩
    simpa [parenthesize, loose] using
      ((Climbs.parenthesized (delimited loose) nothing).above op.tighter).chains
  · refine ⟨p.expr Qualifier.pending, rfl, ?_⟩
    have := op.precedence_pos
    simpa [parenthesize, loose] using
      reads.chains (op.precedence - 1) _ _ op.drop_signs (by omega)

/-! ## Lengths -/

theorem length_le_intercalate (sep : List Char) {t : List Char} {ts : List (List Char)}
    (h : t ∈ ts) : t.length ≤ (sep.intercalate ts).length := by
  induction ts with
  | nil => cases h
  | cons u ts ih =>
    rw [intercalate_cons]
    rcases List.mem_cons.mp h with rfl | h
    · simp
    · cases ts with
      | nil => cases h
      | cons v ts =>
        rw [continued_cons, ← intercalate_cons]
        have := ih h
        simp only [List.length_append]
        omega

theorem length_lt_bracketed {t : List Char} {ts : List (List Char)} (h : t ∈ ts) :
    t.length < (ts.map bracket).flatten.length := by
  induction ts with
  | nil => cases h
  | cons u ts ih =>
    simp only [List.map_cons, List.flatten_cons, List.length_append, bracket, List.length_cons]
    rcases List.mem_cons.mp h with rfl | h
    · omega
    · have := ih h
      omega

theorem length_lt_parenthesize {needed : Bool} (h : needed = true) (t : List Char) :
    t.length < (parenthesize needed t).length := by
  simp only [parenthesize, h, if_true, List.length_cons, List.length_append]
  omega

theorem length_le_parenthesize (needed : Bool) (t : List Char) :
    t.length ≤ (parenthesize needed t).length := by
  cases needed
  · exact Nat.le_refl _
  · exact Nat.le_of_lt (length_lt_parenthesize rfl t)

theorem unsigned_of_name {c : Char} (r : List Char) (h : isNameStart c = true) :
    (c :: r).head? ≠ some '-' := by
  rintro ⟨⟩
  exact absurd h (by decide)

theorem unsigned_path {expr : Reader Expr} (absolute : Bool) {ts : List (List Char)}
    {ss : List Step} (h : List.Forall₂ (StepReads expr) ts ss)
    (moves : absolute = true ∨ ts ≠ []) :
    ((if absolute then ['/'] else []) ++ ['/'].intercalate ts).head? ≠ some '-' := by
  cases absolute with
  | true => simp
  | false =>
    cases h with
    | nil => simp at moves
    | @cons t u ts ss one others =>
      obtain ⟨c, word, rfl, start, -⟩ := one.starts
      rw [intercalate_cons]
      exact unsigned_of_name _ start

theorem grouped_of_length {es : List Expr} (h : es.length ≠ 1) : grouped es = .sequence es := by
  match es, h with
  | [], _ => rfl
  | _ :: _ :: _, _ => rfl

/-! ## Phrases -/

mutual

/-- A phrase is read at every depth that its length leaves. -/
theorem reads_phrase : ∀ (p : Phrase ns) (depth : Nat), p.print.length ≤ depth →
    p.Reads (expression depth)
  | .literal t, depth, _ => .of_unary <|
    .of_read (Phrase.solid (.literal t))
      (by rcases t.isQuote with h | h <;> simp [Phrase.print, Quotable.print, h])
      fun rest _ => ⟨rest, read_literal t rest, rfl⟩
  | .number n, depth, _ => .of_unary <|
    .of_read n.solid (by simpa [Phrase.print] using (n.head_print []).2)
      fun rest follows => ⟨rest, read_number n follows, rfl⟩
  | .reference n, depth, _ => .of_unary <|
    .of_read (Phrase.solid (.reference n)) (by simp [Phrase.print])
      fun rest follows => ⟨rest, read_reference n follows, rfl⟩
  | .sequence items notOne, depth, short => .of_unary <| by
    have parts := reads_items items depth fun t ht => by
      have := length_le_intercalate [',', ' '] ht
      simp only [Phrase.print, listed, List.length_cons, List.length_append] at short
      omega
    refine .of_read (Phrase.solid (.sequence items notOne)) (by simp [Phrase.print])
      fun rest _ => ?_
    have read := read_parenthesized parts (expression_close depth) rest
    rw [grouped_of_length (by rw [length_exprs]; exact notOne)] at read
    exact ⟨_, by simpa [Phrase.print, Phrase.expr] using read, skipSpace_skipSpace rest⟩
  | .call f args admitted, depth, short => .of_unary <| by
    have parts := reads_items args depth fun t ht => by
      have := length_le_intercalate [',', ' '] ht
      simp only [Phrase.print, kindText, listed, List.length_cons, List.length_append] at short
      omega
    refine .of_read (Phrase.solid (.call f args admitted)) ?_ fun rest _ => ?_
    · obtain ⟨c, r, spelled, start, -⟩ := NcName.spelled ⟨f.title, title_legal f⟩
      simp only [Phrase.print, kindText, spelled, List.cons_append]
      exact unsigned_of_name _ start
    · exact ⟨_, read_call f parts (expression_close depth) rest, skipSpace_skipSpace rest⟩
  | .path absolute steps moves, depth, short => .of_unary <| by
    have parts := reads_trail steps depth fun t ht => by
      have := length_le_intercalate ['/'] ht
      simp only [Phrase.print, List.length_append] at short
      omega
    have moves' : absolute = true ∨ steps.prints ≠ [] := moves.imp_right fun some none => some (by
      rw [← steps.length_prints, none, List.length_nil])
    refine .of_read (Phrase.solid (.path absolute steps moves)) ?_ fun rest follows => ?_
    · rw [Phrase.print]
      exact unsigned_path absolute parts moves'
    · obtain ⟨r, read, done⟩ := read_path absolute parts moves' follows
      exact ⟨r, by simpa [Phrase.print, Phrase.expr] using read, done⟩
  | .binary op l r, depth, short => .binary <| by
    have left := length_le_parenthesize (l.precedence < op.precedence) l.print
    have right := length_le_parenthesize (r.precedence ≤ op.precedence) r.print
    simp only [Phrase.print, List.length_cons, List.length_append] at short
    obtain ⟨el, value, chains⟩ := chains_left op (reads_phrase l depth (by omega))
      (fun loose => (whole_of_reads l.solid (reads_phrase l) (by
        have := length_lt_parenthesize (decide_eq_true loose) l.print
        omega)).delimited) (expression_close depth)
    have climbs := climbs_right op.precedence (reads_phrase r depth (by omega))
      (fun loose => (whole_of_reads r.solid (reads_phrase r) (by
        have := length_lt_parenthesize (decide_eq_true loose) r.print
        omega)).delimited) (expression_close depth)
    have := chains.binary climbs (solid_parenthesize _ r.solid)
    rw [value] at this
    exact this
  | .negate e, depth, short => .of_unary <| by
    have tight : (e.precedence < 7) = (e.precedence ≤ 6) := propext Nat.lt_succ_iff
    have inner := length_le_parenthesize (e.precedence ≤ 6) e.print
    simp only [Phrase.print, tight, List.length_cons] at short
    have operand := climbs_right 6 (reads_phrase e depth (by omega))
      (fun loose => (whole_of_reads e.solid (reads_phrase e) (by
        have := length_lt_parenthesize (decide_eq_true loose) e.print
        omega)).delimited) (expression_close depth)
    have := operand.negate (solid_parenthesize _ e.solid)
    simp only [Phrase.print, Phrase.expr, tight]
    exact this
  | .conditional t y n, depth, short => by
    simp only [Phrase.print, conditionalText, List.length_append, List.length_cons,
      List.length_nil] at short
    have test := whole_of_reads t.solid (reads_phrase t) (d := depth) (by omega)
    have yes := whole_of_reads y.solid (reads_phrase y) (d := depth) (by omega)
    have no := whole_of_reads n.solid (reads_phrase n) (d := depth) (by omega)
    refine ⟨fun _ _ _ _ h => absurd h (Nat.not_lt_zero _), fun _ h => absurd h (Nat.not_lt_zero _),
      fun rest follows stops => ?_⟩
    have read := read_conditional test.delimited yes.delimited no ⟨follows, stops⟩
    have start := skipSpace_solid (Phrase.solid (.conditional t y n)) rest
    have below := rung_of_alternatives start (by simp [Phrase.print, conditionalText]) read
    have above : Stops signs (skipSpace (skipSpace rest)) := by
      rw [Stops, skipSpace_skipSpace, skipSpace_skipSpace]
      exact stops
    have := rung_above below above
    simpa [skipSpace_skipSpace, Phrase.expr] using this

theorem reads_items : ∀ {n : Nat} (ps : Phrases ns n) (depth : Nat),
    (∀ t ∈ ps.prints, t.length < depth) →
    List.Forall₂ (Delimited (expression depth)) ps.prints (ps.exprs Qualifier.pending)
  | _, .nil, _, _ => .nil
  | _, .cons p ps, depth, short => by
    obtain ⟨first, others⟩ := List.forall_mem_cons.mp short
    exact .cons (whole_of_reads p.solid (reads_phrase p) first).delimited
      (reads_items ps depth others)

theorem reads_trail : ∀ {n : Nat} (ts : Trail ns n) (depth : Nat),
    (∀ t ∈ ts.prints, t.length ≤ depth) →
    List.Forall₂ (StepReads (expression depth)) ts.prints (ts.steps Qualifier.pending)
  | _, .nil, _, _ => .nil
  | _, .cons axis test predicates ts, depth, short => by
    obtain ⟨first, others⟩ := List.forall_mem_cons.mp short
    have parts := reads_items predicates depth fun t ht => by
      have := length_lt_bracketed ht
      simp only [List.length_cons, List.length_append] at first
      omega
    exact .cons (step_append axis test parts) (reads_trail ts depth others)

end

/-! ## Whole texts -/

theorem readExpr_print (p : Phrase ns) :
    readExpr (String.ofList p.print) = .ok (p.expr Qualifier.pending true) := by
  have read := (reads_phrase p p.print.length (Nat.le_refl _)).whole [] Ends.nil.toFollows
    Ends.nil.stops
  rw [List.append_nil] at read
  simp only [readExpr, String.toList_ofList, p.solid.trim, readWhole, expression_succ, read]
  rfl

theorem reading_eq_meaning : ∀ {p : Phrase ns}, p.endsMixed = false → p.reading = p.meaning
  | .number n, h => by
    simp only [Phrase.reading, Phrase.meaning, Phrase.expr, Numeral.value_of_not_isMixed h]
  | .binary op l r, h => by
    by_cases tight : op.precedence < r.precedence
    · have := reading_eq_meaning (p := r) (by simpa [Phrase.endsMixed, tight] using h)
      simpa [Phrase.reading, Phrase.meaning, Phrase.expr, tight] using this
    · simp [Phrase.reading, Phrase.meaning, Phrase.expr, tight]
  | .negate e, h => by
    by_cases tight : 7 ≤ e.precedence
    · have := reading_eq_meaning (p := e) (by simpa [Phrase.endsMixed, tight] using h)
      simpa [Phrase.reading, Phrase.meaning, Phrase.expr, tight] using this
    · simp [Phrase.reading, Phrase.meaning, Phrase.expr, tight]
  | .conditional t y n, h => by
    have := reading_eq_meaning (p := n) h
    simpa [Phrase.reading, Phrase.meaning, Phrase.expr] using this
  | .literal _, _ | .reference _, _ | .sequence _ _, _ | .call _ _ _, _ | .path _ _ _, _ => by
    simp only [Phrase.reading, Phrase.meaning, Phrase.expr]

/-- Reading inverts printing. -/
structure PrintingInverted (ns : Namespaces) : Prop where
  /-- The text of a phrase is read as the phrase, except for a numeral at its very end: of that one
  only the whole digits count, if there are any. -/
  reads (p : Phrase ns) : parseExpr ns (String.ofList p.print) = .ok p.reading
  /-- The exception makes no difference if the text ends with no numeral that has digits on both
  sides of its point: what is read is what the phrase stands for, its qualifiers bound. -/
  exact (p : Phrase ns) : p.endsMixed = false →
    parseExpr ns (String.ofList p.print) = .ok p.meaning

theorem printing_inverted (ns : Namespaces) : PrintingInverted ns := by
  have reads (p : Phrase ns) : parseExpr ns (String.ofList p.print) = .ok p.reading := by
    rw [parseExpr, readExpr_print]
    exact bind_phrase p true
  exact ⟨reads, fun p h => by rw [reads p, reading_eq_meaning h]⟩

/-- The fraction of a numeral that a text ends with is lost. -/
example : readExpr "1.5" = .ok (.number (Decimal.read "1")) :=
  readExpr_print (.number ⟨['1'], some ['5'], by simp [Text.isAsciiDigit],
    by simp [Text.isAsciiDigit], by simp⟩ : Phrase [])

end StreamTransform.Path
