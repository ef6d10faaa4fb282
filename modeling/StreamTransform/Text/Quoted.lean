import StreamTransform.Text.Letter
import StreamTransform.Text.Table.Visibility

/-!
# Quoted text

Text between double quotes in which every character can be seen. Quotes,
backslashes and the common controls have short escapes; other invisible
characters and those that would join the preceding one are written by number.
-/

namespace StreamTransform.Text

/-- The lower-case hexadecimal digits of a number. -/
def hexDigits (n : Nat) : List Char := Nat.toDigits 16 n

def isEscapedByNumber (c : Char) : Bool :=
  if c.toNat < 0x80 then c.toNat < 0x20 || c.toNat == 0x7F
  else inRanges Table.joining c.toNat || inRanges Table.invisible c.toNat

def quoteChar (c : Char) : List Char :=
  if c == '\x00' then ['\\', '0']
  else if c == '\t' then ['\\', 't']
  else if c == '\r' then ['\\', 'r']
  else if c == '\n' then ['\\', 'n']
  else if c == '\\' then ['\\', '\\']
  else if c == '"' then ['\\', '"']
  else if isEscapedByNumber c then ['\\', 'u', '{'] ++ hexDigits c.toNat ++ ['}']
  else [c]

def quoted (s : String) : String :=
  String.ofList ('"' :: s.toList.flatMap quoteChar ++ ['"'])

end StreamTransform.Text
