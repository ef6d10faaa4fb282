import StreamTransform.Markup.Reference
import StreamTransform.Text.Blank

/-!
# Names and attributes of tags

The name of a tag goes up to the first space. Every attribute has an equals
sign and a quoted value. No two attributes of a tag have the same spelling.
-/

namespace StreamTransform.Markup

/-- An attribute as it is spelled, with its value as it stands between the quotes. -/
structure RawAttribute where
  key : List Char
  value : List Char
  deriving Repr, DecidableEq

def skipSpace (s : List Char) : List Char := s.dropWhile Text.isXmlSpace

def isKeyChar (c : Char) : Bool := c != '=' && !Text.isXmlSpace c

/-- The value between the quotes that the text begins with, and the rest. -/
def takeQuoted (s : List Char) : Option (List Char × List Char) :=
  match s with
  | [] => none
  | q :: r =>
    if q == '"' || q == Char.ofNat 39 then
      match r.dropWhile (· != q) with
      | _ :: rest => some (r.takeWhile (· != q), rest)
      | [] => none
    else none

/-- The attribute whose key begins with `c`, and the rest. -/
def takeAttribute (c : Char) (s : List Char) : Option (RawAttribute × List Char) :=
  match skipSpace (s.dropWhile isKeyChar) with
  | '=' :: r => (takeQuoted (skipSpace r)).map fun p => (⟨c :: s.takeWhile isKeyChar, p.1⟩, p.2)
  | _ => none

theorem length_takeQuoted {s a r : List Char} (h : takeQuoted s = some (a, r)) :
    r.length < s.length := by
  unfold takeQuoted at h
  split at h
  · simp at h
  · rename_i q t
    split at h
    · split at h
      · rename_i d rest e
        simp only [Option.some.injEq, Prod.mk.injEq] at h
        have := (List.dropWhile_sublist (p := (· != q)) (l := t)).length_le
        rw [e] at this
        simp only [List.length_cons] at this ⊢
        rw [← h.2]
        omega
      · simp at h
    · simp at h

theorem length_takeAttribute {c : Char} {s r : List Char} {a : RawAttribute}
    (h : takeAttribute c s = some (a, r)) : r.length < s.length := by
  unfold takeAttribute at h
  split at h
  · rename_i t e
    obtain ⟨⟨v, r'⟩, hp, he⟩ := Option.map_eq_some_iff.1 h
    simp only [Prod.mk.injEq] at he
    have h1 := length_takeQuoted hp
    have h2 := (List.dropWhile_sublist (p := Text.isXmlSpace) (l := t)).length_le
    have h3 := (List.dropWhile_sublist (p := Text.isXmlSpace)
      (l := s.dropWhile isKeyChar)).length_le
    have h4 := (List.dropWhile_sublist (p := isKeyChar) (l := s)).length_le
    simp only [skipSpace] at e h1
    rw [e] at h3
    simp only [List.length_cons] at h3
    rw [← he.2]
    omega
  · simp at h

/-- The attributes of a tag up to the first that is malformed, and whether there is one. -/
def rawAttributes (s : List Char) : List RawAttribute × Bool :=
  match _h : skipSpace s with
  | [] => ([], false)
  | c :: r =>
    match _g : takeAttribute c r with
    | none => ([], true)
    | some (a, rest) =>
      let more := rawAttributes rest
      (a :: more.1, more.2)
termination_by s.length
decreasing_by
  have h1 := length_takeAttribute _g
  have h2 := (List.dropWhile_sublist (p := Text.isXmlSpace) (l := s)).length_le
  simp only [skipSpace] at _h
  rw [_h] at h2
  simp only [List.length_cons] at h2
  omega

/-- The part of a tag that spells its name. -/
def tagName (s : List Char) : List Char := s.takeWhile fun c => !Text.isXmlSpace c

/-- The part of a tag after its name. -/
def tagRest (s : List Char) : List Char := s.dropWhile fun c => !Text.isXmlSpace c

/-- The name in an end tag, without the space after it. -/
def closingName (s : List Char) : List Char :=
  let trimmed := (s.reverse.dropWhile Text.isXmlSpace).reverse
  if trimmed.isEmpty then s else trimmed

end StreamTransform.Markup
