/-!
# Search and replacement

Occurrences of one text in another, on lists of characters. The first
occurrence is the one with the shortest part before it; the empty text occurs
at the start of every text.
-/

namespace StreamTransform.Text

/-- The parts before and after the first occurrence of `key`. -/
def splitAtFirst (key : List Char) (cs : List Char) : Option (List Char × List Char) :=
  if key.isPrefixOf cs then some ([], cs.drop key.length)
  else match cs with
    | [] => none
    | c :: r => (splitAtFirst key r).map fun p => (c :: p.1, p.2)

def contains (key cs : List Char) : Bool := (splitAtFirst key cs).isSome

/-- Inserts a space between every `a` and a `b` that directly follows it. -/
def spaceBetween (a b : Char) : List Char → List Char
  | [] => []
  | [c] => [c]
  | c :: d :: r =>
    if c == a && d == b then c :: ' ' :: spaceBetween a b (d :: r)
    else c :: spaceBetween a b (d :: r)

end StreamTransform.Text
