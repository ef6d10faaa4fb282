import StreamTransform.Text.Search

/-!
# References

A character reference is a decimal or hexadecimal number of a character other
than NUL, without a sign. Five entities are predefined.
-/

namespace StreamTransform.Markup

def digitValue? (c : Char) : Option Nat :=
  let n := c.toNat
  if 0x30 ≤ n && n ≤ 0x39 then some (n - 0x30)
  else if 0x41 ≤ n && n ≤ 0x46 then some (n - 0x41 + 10)
  else if 0x61 ≤ n && n ≤ 0x66 then some (n - 0x61 + 10)
  else none

/-- The number that digits of a base stand for, the value so far being `n`. -/
def numberFrom (base n : Nat) : List Char → Option Nat
  | [] => some n
  | c :: r =>
    match digitValue? c with
    | some d => if d < base then numberFrom base (base * n + d) r else none
    | none => none

def number? (base : Nat) (digits : List Char) : Option Nat :=
  if digits.isEmpty then none else numberFrom base 0 digits

/-- The character with a number, which is not NUL. -/
def character? (n : Nat) : Option Char :=
  if n ≠ 0 ∧ n.isValidChar then some (Char.ofNat n) else none

/-- The character that the text after the number sign stands for. -/
def characterReference? (s : List Char) : Option Char :=
  match s with
  | 'x' :: r => (number? 16 r).bind character?
  | s => (number? 10 s).bind character?

def predefined? (name : String) : Option Char :=
  if name == "lt" then some '<'
  else if name == "gt" then some '>'
  else if name == "amp" then some '&'
  else if name == "apos" then some (Char.ofNat 39)
  else if name == "quot" then some '"'
  else none

inductive Resolved where
  | char (c : Char)
  | unknown (name : String)
  | malformed
  deriving Repr, DecidableEq

/-- What the text between an ampersand and a semicolon stands for. -/
def resolveReference (s : List Char) : Resolved :=
  match s with
  | '#' :: r =>
    match characterReference? r with
    | some c => .char c
    | none => .malformed
  | s =>
    let name := String.ofList s
    match predefined? name with
    | some c => .char c
    | none => .unknown name

/-- The text between an ampersand and its semicolon, and the rest. A character that bars may not
come first. -/
def takeReference (bars : Char → Bool) : List Char → Option (List Char × List Char)
  | [] => none
  | c :: r =>
    if c == ';' then some ([], r)
    else if bars c then none
    else (takeReference bars r).map fun p => (c :: p.1, p.2)

theorem length_takeReference {bars : Char → Bool} {s a r : List Char}
    (h : takeReference bars s = some (a, r)) : r.length < s.length := by
  induction s generalizing a with
  | nil => simp [takeReference] at h
  | cons c s ih =>
    simp only [takeReference] at h
    split at h
    · simp only [Option.some.injEq, Prod.mk.injEq] at h
      simp [← h.2]
    · split at h
      · simp at h
      · obtain ⟨⟨a', r'⟩, hp, he⟩ := Option.map_eq_some_iff.1 h
        simp only [Prod.mk.injEq] at he
        exact Nat.lt_succ_of_lt (ih (he.2 ▸ hp))

/-- The text with its references replaced; every one has to be known. -/
def unescape? (s : List Char) : Option (List Char) :=
  match s with
  | [] => some []
  | c :: r =>
    if c == '&' then
      match _h : takeReference (· == '&') r with
      | none => none
      | some (body, rest) =>
        match resolveReference body with
        | .char d => (unescape? rest).map (d :: ·)
        | .unknown _ | .malformed => none
    else (unescape? r).map (c :: ·)
termination_by s.length
decreasing_by
  · have := length_takeReference _h
    simp only [List.length_cons]
    omega
  · simp

end StreamTransform.Markup
