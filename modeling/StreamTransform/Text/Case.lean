import StreamTransform.Text.Letter
import StreamTransform.Text.Table.CaseContext
import StreamTransform.Text.Table.CaseMapping

/-!
# Upper and lower case

Full case mapping without regard to a language: a character may map to several.
A capital sigma becomes the final form at the end of a word, which is the only
mapping that depends on its neighbours.
-/

namespace StreamTransform.Text

/-- The image of a code point under the first run that holds it. -/
def mapByRuns (runs : Array Table.Run) (n : Nat) : Nat :=
  match runs.find? fun r => r.first ≤ n && n ≤ r.last && (n - r.first) % r.step == 0 with
  | some r => (Int.ofNat n + r.offset).toNat
  | none => n

def expand (runs : Array Table.Run) (expansions : Array (Nat × List Nat)) (c : Char) :
    List Char :=
  match expansions.find? (·.1 == c.toNat) with
  | some e => e.2.map Char.ofNat
  | none => [Char.ofNat (mapByRuns runs c.toNat)]

def upperChar (c : Char) : List Char :=
  if c.toNat < 0x80 then [c.toUpper] else expand Table.upperRuns Table.upperExpansions c

def lowerChar (c : Char) : List Char :=
  if c.toNat < 0x80 then [c.toLower] else expand Table.lowerRuns Table.lowerExpansions c

def isCased (c : Char) : Bool := inRanges Table.cased c.toNat

def isCaseIgnorable (c : Char) : Bool := inRanges Table.caseIgnorable c.toNat

/-- Whether the first character that is not ignorable exists and is cased. -/
def meetsCased (cs : List Char) : Bool :=
  match cs.dropWhile isCaseIgnorable with
  | [] => false
  | c :: _ => isCased c

/-- Lower case of the rest of a text; `before` holds what precedes it, nearest first. -/
def lowerFrom (before : List Char) : List Char → List Char
  | [] => []
  | c :: r =>
    let image :=
      if c == 'Σ' then [if meetsCased before && !meetsCased r then 'ς' else 'σ']
      else lowerChar c
    image ++ lowerFrom (c :: before) r

def upperCase (s : String) : String := String.ofList (s.toList.flatMap upperChar)

def lowerCase (s : String) : String := String.ofList (lowerFrom [] s.toList)

end StreamTransform.Text
