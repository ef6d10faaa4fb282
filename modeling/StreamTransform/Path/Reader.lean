import StreamTransform.Text.Blank
import StreamTransform.Text.Letter
import StreamTransform.Name

/-!
# Readers

A reader takes a value from the front of a text and returns the rest, or fails
and leaves the choice to an alternative. `many` stops at the first item that
fails or takes nothing, so it always ends and never fails.
-/

namespace StreamTransform.Path

abbrev Reader (α : Type) := List Char → Option (α × List Char)

namespace Reader

def map {α β : Type} (f : α → β) (p : Reader α) : Reader β := fun s =>
  match p s with
  | some (a, r) => some (f a, r)
  | none => none

/-- One reader after the other. -/
def seq {α β : Type} (p : Reader α) (q : Reader β) : Reader (α × β) := fun s =>
  match p s with
  | some (a, r) =>
    match q r with
    | some (b, r') => some ((a, b), r')
    | none => none
  | none => none

/-- `p` and then `q`; the value is that of `q`. -/
def after {α β : Type} (p : Reader α) (q : Reader β) : Reader β := map Prod.snd (seq p q)

/-- `p` and then `q`; the value is that of `p`. -/
def before {α β : Type} (p : Reader α) (q : Reader β) : Reader α := map Prod.fst (seq p q)

/-- The first of the readers that succeeds. -/
def firstOf {α : Type} : List (Reader α) → Reader α
  | [], _ => none
  | p :: ps, s =>
    match p s with
    | some r => some r
    | none => firstOf ps s

/-- The value if there is one; never fails. -/
def optional {α : Type} (p : Reader α) : Reader (Option α) := fun s =>
  match p s with
  | some (a, r) => some (some a, r)
  | none => some (none, s)

def skipSpace (s : List Char) : List Char := s.dropWhile Text.isXmlSpace

/-- Spaces on both sides are skipped. -/
def spaced {α : Type} (p : Reader α) : Reader α := fun s =>
  match p (skipSpace s) with
  | some (a, r) => some (a, skipSpace r)
  | none => none

def char (c : Char) : Reader Unit
  | d :: r => if c = d then some ((), r) else none
  | [] => none

def literally (word : List Char) : Reader Unit := fun s =>
  if word.isPrefixOf s then some ((), s.drop word.length) else none

/-- A word that no name character follows. -/
def keyword (word : List Char) : Reader Unit := fun s =>
  match literally word s with
  | some ((), r) => if r.head?.any isNameChar then none else some ((), r)
  | none => none

/-- The items that `p` reads one after the other, and the rest. -/
def many {α : Type} (p : Reader α) (s : List Char) : List α × List Char :=
  match p s with
  | some (a, r) =>
    if r.length < s.length then
      let rest := many p r
      (a :: rest.1, rest.2)
    else ([], s)
  | none => ([], s)
termination_by s.length

/-- Any number of items with separators between them; a separator that no item follows is left. -/
def separated {α β : Type} (separator : Reader β) (p : Reader α) : Reader (List α) := fun s =>
  match p s with
  | some (a, r) =>
    let rest := many (after separator p) r
    some (a :: rest.1, rest.2)
  | none => some ([], s)

/-- A name without a colon. -/
def ncName : Reader (List Char)
  | c :: r => if isNameStart c then some (c :: r.takeWhile isNameChar, r.dropWhile isNameChar) else none
  | [] => none

/-- A name and, if a colon and a second name follow at once, that one too. -/
def name : Reader (Option (List Char) × List Char) := fun s =>
  match ncName s with
  | some (first, r) =>
    match after (char ':') ncName r with
    | some (second, r') => some ((some first, second), r')
    | none => some ((none, first), r)
  | none => none

/-- A name as it is written, with its qualifier. -/
def writtenName : Reader String := map written name
where
  written : Option (List Char) × List Char → String
  | (some q, l) => String.ofList (q ++ ':' :: l)
  | (none, l) => String.ofList l

/-! ## What readers take -/

section
variable {α β : Type} {p : Reader α} {q : Reader β} {s r : List Char} {a : α} {b : β}

theorem exists_of_map {f : α → β} (h : map f p s = some (b, r)) :
    ∃ a, p s = some (a, r) ∧ f a = b := by
  unfold map at h
  split at h
  · rename_i a r' hread
    cases h
    exact ⟨a, hread, rfl⟩
  · cases h

theorem exists_of_seq {c : α × β} (h : seq p q s = some (c, r)) :
    ∃ r', p s = some (c.1, r') ∧ q r' = some (c.2, r) := by
  unfold seq at h
  split at h
  · rename_i a r' hfirst
    split at h
    · rename_i b r'' hsecond
      cases h
      exact ⟨r', hfirst, hsecond⟩
    · cases h
  · cases h

theorem exists_of_firstOf {ps : List (Reader α)} (h : firstOf ps s = some (a, r)) :
    ∃ p ∈ ps, p s = some (a, r) := by
  induction ps with
  | nil => cases h
  | cons p ps ih =>
    unfold firstOf at h
    split at h
    · rename_i hread
      exact ⟨p, List.mem_cons_self, hread.trans h⟩
    · obtain ⟨p', hmem, hread⟩ := ih h
      exact ⟨p', List.mem_cons_of_mem p hmem, hread⟩

theorem cases_of_optional {o : Option α} (h : optional p s = some (o, r)) :
    (o = none ∧ r = s) ∨ ∃ a, o = some a ∧ p s = some (a, r) := by
  unfold optional at h
  split at h
  · rename_i a r' hread
    cases h
    exact .inr ⟨a, rfl, hread⟩
  · cases h
    exact .inl ⟨rfl, rfl⟩

theorem exists_of_spaced (h : spaced p s = some (a, r)) :
    ∃ r', p (skipSpace s) = some (a, r') ∧ skipSpace r' = r := by
  unfold spaced at h
  split at h
  · rename_i b r' hread
    cases h
    exact ⟨r', hread, rfl⟩
  · cases h

/-- What holds of no items, and with one more item in front, holds of the items that are read one
after the other. -/
theorem many_induction {P : List Char → List α → List Char → Prop} (nil : ∀ s, P s [] s)
    (cons : ∀ s a r as r', p s = some (a, r) → P r as r' → P s (a :: as) r') (s : List Char) :
    P s (many p s).1 (many p s).2 := by
  induction s using many.induct p with
  | case1 s a r hread hshorter ih =>
    rw [many, hread]
    simp only [hshorter, if_true]
    exact cons s a r _ _ hread ih
  | case2 s a r hread hshorter =>
    rw [many, hread]
    simp only [hshorter, if_false]
    exact nil s
  | case3 s hread =>
    rw [many, hread]
    exact nil s

theorem cases_of_separated {as : List α} (h : separated q p s = some (as, r)) :
    (as = [] ∧ r = s) ∨ ∃ a r', p s = some (a, r') ∧ as = a :: (many (after q p) r').1 ∧
      r = (many (after q p) r').2 := by
  unfold separated at h
  split at h
  · rename_i a r' hread
    cases h
    exact .inr ⟨a, r', hread, rfl, rfl⟩
  · cases h
    exact .inl ⟨rfl, rfl⟩

end

end Reader

end StreamTransform.Path
