import StreamTransform.Markup.Reference
import StreamTransform.Text.Blank

/-!
# Tokens of markup

Splits a document into text, references and markup. Only the outer shape of a
piece is checked here: comments, CDATA sections and processing instructions end
at their end marks, a tag ends at the first right angle bracket outside of
quotes, a document type declaration at the one that balances its start.
-/

namespace StreamTransform.Markup

inductive Token where
  | text (text : List Char)
  /-- What stands between the ampersand and the semicolon. -/
  | reference (body : List Char)
  /-- What stands in a start tag; `selfClosing` says that a slash ended it. -/
  | opening (tag : List Char) (selfClosing : Bool)
  | closing (tag : List Char)
  | comment (text : List Char)
  | cdata (text : List Char)
  | instruction (target data : List Char)
  /-- A declaration, which means nothing to a transformation. -/
  | declaration
  deriving Repr, DecidableEq

/-- The text of a tag and the rest after its right angle bracket. `quote` is the open quote, if
there is one. -/
def takeTag (quote : Option Char) : List Char → Option (List Char × List Char)
  | [] => none
  | c :: r =>
    match quote with
    | none =>
      if c == '>' then some ([], r)
      else
        let quote := if c == '"' || c == Char.ofNat 39 then some c else none
        (takeTag quote r).map fun p => (c :: p.1, p.2)
    | some q => (takeTag (if c == q then none else some q) r).map fun p => (c :: p.1, p.2)

/-- The text up to the right angle bracket that has no partner; `depth` counts the open ones. -/
def takeBalanced (depth : Nat) : List Char → Option (List Char × List Char)
  | [] => none
  | c :: r =>
    if c == '<' then (takeBalanced (depth + 1) r).map fun p => (c :: p.1, p.2)
    else if c == '>' then
      match depth with
      | 0 => some ([], r)
      | d + 1 => (takeBalanced d r).map fun p => (c :: p.1, p.2)
    else (takeBalanced depth r).map fun p => (c :: p.1, p.2)

/-- The parts of a text before and after the first mark. -/
def splitAtMark (mark : String) (s : List Char) : Option (List Char × List Char) :=
  Text.splitAtFirst mark.toList s

/-- Whether a declaration is one of the document type, which has a name. -/
def isDoctype (s : List Char) : Bool :=
  (s.take 7).map Char.toUpper == "DOCTYPE".toList && (s.drop 7).any fun c => !Text.isXmlSpace c

/-- The token after a left angle bracket and an exclamation mark. -/
def scanBang (s : List Char) : Option (Token × List Char) :=
  match s with
  | '-' :: '-' :: r => (splitAtMark "-->" r).map fun p => (.comment p.1, p.2)
  | '[' :: r =>
    if "CDATA[".toList.isPrefixOf r then
      (splitAtMark "]]>" (r.drop 6)).map fun p => (.cdata p.1, p.2)
    else none
  | s =>
    match takeBalanced 0 s with
    | some (text, r) => if isDoctype text then some (.declaration, r) else none
    | none => none

/-- The token for the text of a processing instruction. The target `xml` makes it a declaration. -/
def instructionToken (s : List Char) : Token :=
  let target := s.takeWhile fun c => !Text.isXmlSpace c
  if target == "xml".toList then .declaration
  else .instruction target (Text.trimStart (s.drop target.length))

/-- The token for the text of a start tag. -/
def openingToken (s : List Char) : Token :=
  if s.getLast? == some '/' then .opening s.dropLast true else .opening s false

/-- The token after a left angle bracket. -/
def scanMarkup (s : List Char) : Option (Token × List Char) :=
  match s with
  | '!' :: r => scanBang r
  | '/' :: r => (takeTag none r).map fun p => (.closing p.1, p.2)
  | '?' :: '>' :: _ => none
  | '?' :: r => (splitAtMark "?>" r).map fun p => (instructionToken p.1, p.2)
  | s => (takeTag none s).map fun p => (openingToken p.1, p.2)

def isTextChar (c : Char) : Bool := c != '<' && c != '&'

/-- The first token of a document that begins with `c`. -/
def scan (c : Char) (s : List Char) : Option (Token × List Char) :=
  if c == '<' then scanMarkup s
  else if c == '&' then
    (takeReference (fun d => d == '&' || d == '<') s).map fun p => (.reference p.1, p.2)
  else some (.text (c :: s.takeWhile isTextChar), s.dropWhile isTextChar)

/-! ## Every token takes something off the document -/

theorem eq_some_of_map_rest {α β : Type} {o : Option (α × List Char)} {f : α → β} {t : β}
    {r : List Char} (h : (o.map fun p => (f p.1, p.2)) = some (t, r)) : ∃ a, o = some (a, r) := by
  obtain ⟨⟨a, r'⟩, hp, he⟩ := Option.map_eq_some_iff.1 h
  simp only [Prod.mk.injEq] at he
  exact ⟨a, he.2 ▸ hp⟩

theorem length_takeTag {q : Option Char} {s a r : List Char} (h : takeTag q s = some (a, r)) :
    r.length < s.length := by
  induction s generalizing q a with
  | nil => simp [takeTag] at h
  | cons c s ih =>
    cases q with
    | none =>
      simp only [takeTag] at h
      split at h
      · simp only [Option.some.injEq, Prod.mk.injEq] at h
        simp [← h.2]
      · obtain ⟨a, hp⟩ := eq_some_of_map_rest h
        exact Nat.lt_succ_of_lt (ih hp)
    | some q =>
      simp only [takeTag] at h
      obtain ⟨a, hp⟩ := eq_some_of_map_rest h
      exact Nat.lt_succ_of_lt (ih hp)

theorem length_takeBalanced {d : Nat} {s a r : List Char} (h : takeBalanced d s = some (a, r)) :
    r.length < s.length := by
  induction s generalizing d a with
  | nil => simp [takeBalanced] at h
  | cons c s ih =>
    simp only [takeBalanced] at h
    split at h
    · obtain ⟨a, hp⟩ := eq_some_of_map_rest h
      exact Nat.lt_succ_of_lt (ih hp)
    · split at h
      · cases d with
        | zero =>
          simp only [Option.some.injEq, Prod.mk.injEq] at h
          simp [← h.2]
        | succ d =>
          obtain ⟨a, hp⟩ := eq_some_of_map_rest h
          exact Nat.lt_succ_of_lt (ih hp)
      · obtain ⟨a, hp⟩ := eq_some_of_map_rest h
        exact Nat.lt_succ_of_lt (ih hp)

theorem length_splitAtFirst {key s a r : List Char} (h : Text.splitAtFirst key s = some (a, r)) :
    r.length ≤ s.length := by
  induction s generalizing a with
  | nil =>
    unfold Text.splitAtFirst at h
    split at h
    · simp only [Option.some.injEq, Prod.mk.injEq] at h
      simp [← h.2]
    · simp at h
  | cons c s ih =>
    unfold Text.splitAtFirst at h
    split at h
    · simp only [Option.some.injEq, Prod.mk.injEq] at h
      simp [← h.2]
    · obtain ⟨a, hp⟩ := eq_some_of_map_rest h
      exact Nat.le_succ_of_le (ih hp)

theorem length_scanBang {s r : List Char} {t : Token} (h : scanBang s = some (t, r)) :
    r.length ≤ s.length := by
  unfold scanBang at h
  split at h
  · obtain ⟨a, hp⟩ := eq_some_of_map_rest h
    have := length_splitAtFirst hp
    simp only [List.length_cons]
    omega
  · split at h
    · obtain ⟨a, hp⟩ := eq_some_of_map_rest h
      have := length_splitAtFirst hp
      simp only [List.length_cons, List.length_drop] at this ⊢
      omega
    · simp at h
  · split at h
    · rename_i hp
      split at h
      · simp only [Option.some.injEq, Prod.mk.injEq] at h
        exact h.2 ▸ Nat.le_of_lt (length_takeBalanced hp)
      · simp at h
    · simp at h

theorem length_scanMarkup {s r : List Char} {t : Token} (h : scanMarkup s = some (t, r)) :
    r.length ≤ s.length := by
  unfold scanMarkup at h
  split at h
  · exact Nat.le_succ_of_le (length_scanBang h)
  · obtain ⟨a, hp⟩ := eq_some_of_map_rest h
    exact Nat.le_succ_of_le (Nat.le_of_lt (length_takeTag hp))
  · simp at h
  · obtain ⟨⟨a, r'⟩, hp, he⟩ := Option.map_eq_some_iff.1 h
    simp only [Prod.mk.injEq] at he
    exact Nat.le_succ_of_le (he.2 ▸ length_splitAtFirst hp)
  · obtain ⟨⟨a, r'⟩, hp, he⟩ := Option.map_eq_some_iff.1 h
    simp only [Prod.mk.injEq] at he
    exact he.2 ▸ Nat.le_of_lt (length_takeTag hp)

theorem length_scan {c : Char} {s r : List Char} {t : Token} (h : scan c s = some (t, r)) :
    r.length ≤ s.length := by
  unfold scan at h
  split at h
  · exact length_scanMarkup h
  · split at h
    · obtain ⟨a, hp⟩ := eq_some_of_map_rest h
      exact Nat.le_of_lt (length_takeReference hp)
    · simp only [Option.some.injEq, Prod.mk.injEq] at h
      rw [← h.2]
      exact (List.dropWhile_sublist _).length_le

end StreamTransform.Markup
