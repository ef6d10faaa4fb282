import StreamTransform.Text.Table.Alphabetic
import StreamTransform.Text.Table.Numeric

/-!
# Letters and digits

Membership of a character in the alphabetic and numeric tables. ASCII is
decided without the tables.
-/

namespace StreamTransform.Text

/-- Whether a code point lies in one of the ranges. -/
def inRanges (table : Array (Nat × Nat)) (n : Nat) : Bool :=
  table.any fun r => r.1 ≤ n && n ≤ r.2

def isAsciiLetter (c : Char) : Bool :=
  ('a' ≤ c && c ≤ 'z') || ('A' ≤ c && c ≤ 'Z')

def isAsciiDigit (c : Char) : Bool := '0' ≤ c && c ≤ '9'

def isAlphabetic (c : Char) : Bool :=
  if c.toNat < 0x80 then isAsciiLetter c else inRanges Table.alphabetic c.toNat

/-- Letters, and digits of every script. -/
def isAlphanumeric (c : Char) : Bool :=
  if c.toNat < 0x80 then isAsciiLetter c || isAsciiDigit c
  else inRanges Table.alphabetic c.toNat || inRanges Table.numeric c.toNat

end StreamTransform.Text
