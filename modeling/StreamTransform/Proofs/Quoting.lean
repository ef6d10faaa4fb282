import StreamTransform.Path.Embedding

/-!
# Quotes and braces in expressions

Whatever a reader of expressions takes from a text, every quote in it is closed
again and no brace stands outside quotes. So a text that is an expression can be
put between braces: the search for the closing brace, which knows quotes only
and nothing of the grammar, ends where the expression ends.
-/

namespace StreamTransform.Path

/-! ## Closed texts -/

/-- The characters that the search for a closing brace looks at, and the opening brace. -/
def specialCharacters : List Char := ['"', Char.ofNat 39, Char.ofNat 0x7B, Char.ofNat 0x7D]

def isPlain (c : Char) : Bool := !specialCharacters.contains c

/-- The quote that is open after a text, if none but `quote` was open before; `none` if a brace
stands outside quotes. -/
def quoteAfter (quote : Option Char) : List Char → Option (Option Char)
  | [] => some quote
  | c :: r =>
    match quote with
    | none =>
      if c == Char.ofNat 0x7B || c == Char.ofNat 0x7D then none
      else quoteAfter (if c == '"' || c == Char.ofNat 39 then some c else none) r
    | some q => quoteAfter (if c == q then none else some q) r

/-- Every quote is closed, and no brace stands outside quotes. -/
def Closed (t : List Char) : Prop := quoteAfter none t = some none

section
variable {q : Option Char} {c : Char} {t u r : List Char}

theorem quoteAfter_append :
    quoteAfter q (t ++ u) = (quoteAfter q t).bind fun q => quoteAfter q u := by
  induction t generalizing q with
  | nil => rfl
  | cons c t ih =>
    cases q with
    | none =>
      simp only [List.cons_append, quoteAfter, ih]
      split <;> rfl
    | some q => simp only [List.cons_append, quoteAfter, ih]

theorem Closed.nil : Closed [] := rfl

theorem Closed.append (ht : Closed t) (hu : Closed u) : Closed (t ++ u) := by
  unfold Closed at *
  rw [quoteAfter_append, ht]
  exact hu

theorem Closed.of_plain (h : ∀ c ∈ t, isPlain c = true) : Closed t := by
  induction t with
  | nil => exact .nil
  | cons c t ih =>
    obtain ⟨hc, ht⟩ := List.forall_mem_cons.mp h
    simp only [isPlain, specialCharacters, List.contains_cons, List.contains_nil, Bool.or_false,
      Bool.not_eq_true', Bool.or_eq_false_iff] at hc
    obtain ⟨h₁, h₂, h₃, h₄⟩ := hc
    simpa [Closed, quoteAfter, h₁, h₂, h₃, h₄] using ih ht

theorem quoteAfter_within {q : Char} (h : q ∉ t) : quoteAfter (some q) t = some (some q) := by
  induction t with
  | nil => rfl
  | cons c t ih =>
    obtain ⟨hc, ht⟩ : q ≠ c ∧ q ∉ t := by simpa using h
    simpa [quoteAfter, Ne.symm hc] using ih ht

/-- Between two quotes anything but the quote can stand. -/
theorem Closed.quoted {q : Char} (hq : q = '"' ∨ q = Char.ofNat 39) (h : q ∉ t) :
    Closed (q :: (t ++ [q])) := by
  have hopen : quoteAfter none (q :: (t ++ [q])) = quoteAfter (some q) (t ++ [q]) := by
    rcases hq with rfl | rfl <;> rfl
  rw [Closed, hopen, quoteAfter_append, quoteAfter_within h]
  simp [quoteAfter]

theorem Closed.head (h : Closed t) : t.head? ≠ some (Char.ofNat 0x7B) := by
  intro hhead
  obtain ⟨r, rfl⟩ := List.head?_eq_some_iff.mp hhead
  cases h

/-- The search for the closing brace finds the one after a closed text. -/
theorem takeEmbedded_append (h : quoteAfter q t = some none) :
    takeEmbedded q (t ++ Char.ofNat 0x7D :: r) = some (t, r) := by
  induction t generalizing q with
  | nil =>
    cases h
    rfl
  | cons c t ih =>
    cases q with
    | none =>
      simp only [quoteAfter] at h
      split at h
      · cases h
      · rename_i hbrace
        have hclosing : (c == Char.ofNat 0x7D) = false := by
          rw [Bool.not_eq_true, Bool.or_eq_false_iff] at hbrace
          exact hbrace.2
        simp only [List.cons_append, takeEmbedded, hclosing, Bool.false_eq_true, if_false, ih h,
          Option.map_some]
    | some q =>
      simp only [quoteAfter] at h
      simp only [List.cons_append, takeEmbedded, ih h, Option.map_some]

example : takeEmbedded none ['"', Char.ofNat 0x7D, '"', Char.ofNat 0x7D, 'a'] =
    some (['"', Char.ofNat 0x7D, '"'], ['a']) := by decide

end

/-- A property of characters that holds of none of the special ones. -/
theorem isPlain_of {p : Char → Bool} (h : specialCharacters.all fun d => !p d) {c : Char}
    (hc : p c = true) : isPlain c = true := by
  cases hplain : isPlain c with
  | true => rfl
  | false =>
    have hmem : c ∈ specialCharacters := by simpa [isPlain] using hplain
    have := List.all_eq_true.mp h c hmem
    simp [hc] at this

theorem isPlain_of_isNameChar {c : Char} (h : isNameChar c = true) : isPlain c = true :=
  isPlain_of (by decide) h

theorem isPlain_of_isNameStart {c : Char} (h : isNameStart c = true) : isPlain c = true :=
  isPlain_of (by decide) h

theorem isPlain_of_isAsciiDigit {c : Char} (h : Text.isAsciiDigit c = true) : isPlain c = true :=
  isPlain_of (by decide) h

theorem isPlain_of_isBlank {c : Char} (h : Text.isBlank c = true) : isPlain c = true :=
  isPlain_of (by decide) h

theorem isPlain_of_isXmlSpace {c : Char} (h : Text.isXmlSpace c = true) : isPlain c = true :=
  isPlain_of_isBlank (Text.isBlank_of_isXmlSpace h)

theorem closed_takeWhile {p : Char → Bool} (h : ∀ c, p c = true → isPlain c = true)
    (s : List Char) : Closed (s.takeWhile p) :=
  .of_plain fun c hc => h c (List.all_eq_true.mp List.all_takeWhile c hc)

/-! ## Readers -/

/-- What is left of a text after a closed part. -/
def Leaves (s r : List Char) : Prop := ∃ t, s = t ++ r ∧ Closed t

section
variable {s r u : List Char}

theorem Leaves.refl (s : List Char) : Leaves s s := ⟨[], rfl, .nil⟩

theorem Leaves.trans (h : Leaves s r) (h' : Leaves r u) : Leaves s u := by
  obtain ⟨t, rfl, ht⟩ := h
  obtain ⟨t', rfl, ht'⟩ := h'
  exact ⟨t ++ t', by rw [List.append_assoc], ht.append ht'⟩

theorem leaves_dropWhile {p : Char → Bool} (h : ∀ c, p c = true → isPlain c = true)
    (s : List Char) : Leaves s (s.dropWhile p) :=
  ⟨s.takeWhile p, List.takeWhile_append_dropWhile.symm, closed_takeWhile h s⟩

theorem leaves_cons {c : Char} (h : isPlain c = true) (s : List Char) : Leaves (c :: s) s :=
  ⟨[c], rfl, .of_plain (by simpa using h)⟩

theorem leaves_skipSpace (s : List Char) : Leaves s (Reader.skipSpace s) :=
  leaves_dropWhile (fun _ => isPlain_of_isXmlSpace) s

end

/-- A reader that takes closed texts only. -/
def Reader.Closes {α : Type} (p : Reader α) : Prop := ∀ s a r, p s = some (a, r) → Leaves s r

namespace Reader.Closes

variable {α β : Type} {p : Reader α} {q : Reader β} {ps : List (Reader α)}

theorem map (f : α → β) (h : Closes p) : Closes (Reader.map f p) := by
  intro s b r hr
  obtain ⟨a, hp, -⟩ := exists_of_map hr
  exact h s a r hp

theorem seq (hp : Closes p) (hq : Closes q) : Closes (Reader.seq p q) := by
  intro s c r hr
  obtain ⟨r', hfirst, hsecond⟩ := exists_of_seq hr
  exact (hp s _ r' hfirst).trans (hq r' _ r hsecond)

theorem after (hp : Closes p) (hq : Closes q) : Closes (Reader.after p q) := (hp.seq hq).map _

theorem before (hp : Closes p) (hq : Closes q) : Closes (Reader.before p q) := (hp.seq hq).map _

theorem firstOf (h : ∀ p ∈ ps, Closes p) : Closes (Reader.firstOf ps) := by
  intro s a r hr
  obtain ⟨p, hmem, hread⟩ := exists_of_firstOf hr
  exact h p hmem s a r hread

theorem optional (h : Closes p) : Closes (Reader.optional p) := by
  intro s o r hr
  rcases cases_of_optional hr with ⟨-, rfl⟩ | ⟨a, -, hread⟩
  · exact .refl r
  · exact h s a r hread

theorem spaced (h : Closes p) : Closes (Reader.spaced p) := by
  intro s a r hr
  obtain ⟨r', hread, rfl⟩ := exists_of_spaced hr
  exact (leaves_skipSpace s).trans ((h _ a r' hread).trans (leaves_skipSpace r'))

theorem many (h : Closes p) (s : List Char) : Leaves s (Reader.many p s).2 :=
  many_induction (P := fun s _ r => Leaves s r) Leaves.refl
    (fun s a r _ _ hread hrest => (h s a r hread).trans hrest) s

theorem separated (hq : Closes q) (hp : Closes p) : Closes (Reader.separated q p) := by
  intro s as r hr
  rcases cases_of_separated hr with ⟨-, rfl⟩ | ⟨a, r', hread, -, rfl⟩
  · exact .refl r
  · exact (hp s a r' hread).trans ((hq.after hp).many r')

/-! ### Characters, words and names -/

theorem char {c : Char} (h : isPlain c = true) : Closes (Reader.char c) := by
  intro s a r hr
  cases s with
  | nil => cases hr
  | cons d s =>
    simp only [Reader.char] at hr
    split at hr
    · rename_i heq
      cases hr
      exact leaves_cons (heq ▸ h) r
    · cases hr

theorem literally {w : List Char} (h : w.all isPlain = true) : Closes (Reader.literally w) := by
  intro s a r hr
  simp only [Reader.literally] at hr
  split at hr
  · rename_i hprefix
    obtain ⟨u, rfl⟩ := List.isPrefixOf_iff_prefix.mp hprefix
    cases hr
    exact ⟨w, by simp, .of_plain (List.all_eq_true.mp h)⟩
  · cases hr

theorem keyword {w : List Char} (h : w.all isPlain = true) : Closes (Reader.keyword w) := by
  intro s a r hr
  simp only [Reader.keyword] at hr
  split at hr
  · rename_i r' hword
    split at hr
    · cases hr
    · cases hr
      exact literally h s _ r hword
  · cases hr

theorem ncName : Closes Reader.ncName := by
  intro s a r hr
  cases s with
  | nil => cases hr
  | cons c s =>
    simp only [Reader.ncName] at hr
    split at hr
    · rename_i hstart
      cases hr
      exact (leaves_cons (isPlain_of_isNameStart hstart) s).trans
        (leaves_dropWhile (fun _ => isPlain_of_isNameChar) s)
    · cases hr

theorem name : Closes Reader.name := by
  intro s a r hr
  simp only [Reader.name] at hr
  split at hr
  · rename_i first r₁ hfirst
    have hleft := ncName s first r₁ hfirst
    split at hr
    · rename_i second r₂ hsecond
      cases hr
      exact hleft.trans ((char (by decide)).after ncName _ _ _ hsecond)
    · cases hr
      exact hleft
  · cases hr

theorem writtenName : Closes Reader.writtenName := name.map _

end Reader.Closes

/-! ## The grammar -/

section
open Reader

theorem closes_numeral : Closes numeral := by
  have hdigits : ∀ c, Text.isAsciiDigit c = true → isPlain c = true := fun _ =>
    isPlain_of_isAsciiDigit
  have hpoint (u : List Char) : Leaves ('.' :: u) (u.dropWhile Text.isAsciiDigit) :=
    (leaves_cons (by decide) u).trans (leaves_dropWhile hdigits u)
  intro s a r hr
  have hwhole := leaves_dropWhile hdigits s
  simp only [numeral] at hr
  split at hr
  · rename_i l r' hlexeme
    cases hr
    split at hlexeme
    · rename_i u _ hrest
      rw [hrest] at hwhole
      split at hlexeme
      · cases hlexeme
      · cases hlexeme
        exact hwhole.trans (hpoint u)
    · cases hlexeme
    · rename_i u _ hrest
      rw [hrest] at hwhole
      cases hlexeme
      exact hwhole.trans (hpoint u)
    · cases hlexeme
      exact hwhole
  · cases hr

theorem closes_quotedBy {q : Char} (hq : q = '"' ∨ q = Char.ofNat 39) : Closes (quotedBy q) := by
  intro s a r hr
  cases s with
  | nil => cases hr
  | cons c s =>
    simp only [quotedBy] at hr
    split at hr
    · rename_i heq
      subst heq
      split at hr
      · rename_i d rest hrest
        cases hr
        have hend : d = c := by
          have := List.head?_dropWhile_not (· != c) s
          simpa [hrest] using this
        refine ⟨c :: (s.takeWhile (· != c) ++ [c]), ?_, Closed.quoted hq fun hmem => ?_⟩
        · rw [List.cons_append, List.append_assoc, List.singleton_append, ← hend, ← hrest, hend,
            List.takeWhile_append_dropWhile]
        · simpa using List.all_eq_true.mp List.all_takeWhile c hmem
      · cases hr
    · cases hr

theorem closes_stringLiteral : Closes stringLiteral :=
  .firstOf (by simp [closes_quotedBy])

theorem closes_kindTest {w : List Char} (h : w.all isPlain = true) : Closes (kindTest w) :=
  (Closes.literally h).after ((Closes.char (by decide)).spaced.after (.char (by decide)))

theorem closes_instructionTest : Closes instructionTest :=
  (((Closes.literally (by decide)).seq (Closes.char (by decide)).spaced).after
    (closes_stringLiteral.spaced.optional.before (.char (by decide)))).map _

theorem closes_nodeTest : Closes nodeTest := by
  refine .firstOf ?_
  simp only [List.forall_mem_cons]
  exact ⟨(closes_kindTest (by decide)).map _, (closes_kindTest (by decide)).map _,
    (closes_kindTest (by decide)).map _, closes_instructionTest,
    ((Closes.literally (by decide)).after .ncName).map _,
    (Closes.ncName.before (.literally (by decide))).map _, (Closes.char (by decide)).map _,
    Closes.name.map _, by simp⟩

theorem closes_axisName : Closes axisName := by
  refine .before (.firstOf ?_) (.literally (by decide))
  simp only [List.forall_mem_cons]
  exact ⟨(Closes.literally (by decide)).map _, (Closes.literally (by decide)).map _,
    (Closes.literally (by decide)).map _, (Closes.literally (by decide)).map _,
    (Closes.literally (by decide)).map _, by simp⟩

theorem closes_separator : Closes separator := by
  refine .spaced (.firstOf ?_)
  simp only [List.forall_mem_cons]
  exact ⟨(Closes.literally (by decide)).map _, (Closes.char (by decide)).map _, by simp⟩

variable {expr : Reader Expr} (h : Closes expr)
include h

theorem closes_predicate : Closes (predicate expr) :=
  ((Closes.char (by decide)).spaced.after h).before (Closes.char (by decide)).spaced

theorem closes_predicates : Closes (predicates expr) := by
  intro s ps r hr
  simp only [predicates, Option.some.injEq] at hr
  simpa [hr] using (closes_predicate h).many s

theorem closes_step : Closes (step expr) := by
  refine .firstOf ?_
  simp only [List.forall_mem_cons]
  exact ⟨(Closes.literally (by decide)).map _, (Closes.char (by decide)).map _,
    (closes_axisName.seq (closes_nodeTest.seq (closes_predicates h))).map _,
    (((Closes.char (by decide)).after closes_nodeTest).seq (closes_predicates h)).map _,
    (closes_nodeTest.seq (closes_predicates h)).map _, by simp⟩

theorem closes_relativePath : Closes (relativePath expr) := by
  intro s p r hr
  obtain ⟨r', hfirst, -, rfl⟩ := exists_of_relativePath hr
  exact (closes_step h s p.1 r' hfirst).trans ((closes_separator.seq (closes_step h)).many r')

theorem closes_locationPath : Closes (locationPath expr) := by
  refine .firstOf ?_
  simp only [List.forall_mem_cons]
  exact ⟨((Closes.literally (by decide)).after (closes_relativePath h)).map _,
    ((Closes.char (by decide)).after (closes_relativePath h).optional).map _,
    (closes_relativePath h).map _, by simp⟩

/-- Any number of expressions in parentheses. -/
theorem closes_arguments :
    Closes (before (after (spaced (char '(')) (separated (spaced (char ',')) expr))
      (spaced (char ')'))) :=
  ((Closes.char (by decide)).spaced.after (.separated (Closes.char (by decide)).spaced h)).before
    (Closes.char (by decide)).spaced

theorem closes_parenthesized : Closes (parenthesized expr) := (closes_arguments h).map _

theorem closes_functionCall : Closes (functionCall expr) := by
  intro s e r hr
  obtain ⟨n, r', args, hname, hargs, -⟩ := exists_of_functionCall hr
  exact (Closes.writtenName s n r' hname).trans (closes_arguments h r' args r hargs)

theorem closes_conditional : Closes (conditional expr) :=
  (((Closes.keyword (by decide)).after
      (((Closes.char (by decide)).spaced.after h).before (Closes.char (by decide)).spaced)).seq
    (((Closes.keyword (by decide)).spaced.after h).seq
      ((Closes.keyword (by decide)).spaced.after h))).map _

theorem closes_primary : Closes (primary expr) := by
  refine .spaced (.firstOf ?_)
  simp only [List.forall_mem_cons]
  exact ⟨closes_conditional h, closes_numeral.map _, closes_stringLiteral.map _,
    ((Closes.char (by decide)).after .writtenName).map _, closes_parenthesized h,
    closes_functionCall h, closes_locationPath h, by simp⟩

theorem closes_unary : Closes (unary expr) :=
  unary_induction h fun s r _ _ hsign hrest =>
    ((Closes.char (by decide)).spaced s _ r hsign).trans hrest

theorem closes_chain {sign : Reader BinaryOperator} (hsign : Closes sign) :
    Closes (chain sign expr) := by
  intro s e r hr
  obtain ⟨first, r', hfirst, -, rfl⟩ := exists_of_chain hr
  exact (h s first r' hfirst).trans ((hsign.spaced.seq h).many r')

omit h in
theorem closes_expression (depth : Nat) : Closes (expression depth) := by
  induction depth with
  | zero => exact fun s e r hr => by cases hr
  | succ depth ih =>
    refine closes_chain (closes_chain (closes_chain (closes_chain (closes_chain
      (closes_chain (closes_unary (closes_primary ih)) ?multiplicative) ?additive) ?order)
      ?equality) ?and) ?or
    case or => exact (Closes.keyword (by decide)).map _
    case and => exact (Closes.keyword (by decide)).map _
    all_goals
      refine .firstOf ?_
      simp only [List.forall_mem_cons]
    case equality =>
      exact ⟨(Closes.literally (by decide)).map _, (Closes.literally (by decide)).map _, by simp⟩
    case order =>
      exact ⟨(Closes.literally (by decide)).map _, (Closes.literally (by decide)).map _,
        (Closes.literally (by decide)).map _, (Closes.literally (by decide)).map _, by simp⟩
    case additive =>
      exact ⟨(Closes.char (by decide)).map _, (Closes.char (by decide)).map _, by simp⟩
    case multiplicative =>
      exact ⟨(Closes.char (by decide)).map _, (Closes.keyword (by decide)).map _,
        (Closes.keyword (by decide)).map _, by simp⟩

end

/-! ## Whole texts -/

theorem closed_of_trim {t : List Char} (h : Closed (Text.trim t)) : Closed t := by
  obtain ⟨before, after, whole, hbefore, hafter⟩ := Text.eq_append_trim t
  have hend : Closed after := .of_plain fun c hc => isPlain_of_isBlank (hafter c hc)
  rw [whole]
  exact Closed.append (.of_plain fun c hc => isPlain_of_isBlank (hbefore c hc)) (h.append hend)

theorem closed_of_readExpr {input : String} {e : Expr} (h : readExpr input = .ok e) :
    Closed input.toList := by
  obtain ⟨t, ht, hclosed⟩ := closes_expression _ _ _ _ (read_of_readWhole h)
  rw [List.append_nil] at ht
  exact closed_of_trim (ht ▸ hclosed)

/-- A text that is an expression closes its quotes and has no brace outside them. -/
theorem closed_of_parseExpr {ns : Namespaces} {input : String} {e : Expr}
    (h : parseExpr ns input = .ok e) : Closed input.toList := by
  cases hread : readExpr input with
  | ok e' => exact closed_of_readExpr hread
  | error f =>
    rw [parseExpr, hread] at h
    cases h

end StreamTransform.Path
