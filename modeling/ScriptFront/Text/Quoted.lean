import ScriptFront.Text.Printable
import ScriptFront.Text.Rune

/-!
# Quoted text

Diagnostics and listings show text between quotes so that every byte can be read off: a printable
character stands for itself, the usual control characters have one-letter escapes, any other
character is given by its number in hexadecimal and an ill-formed byte by two digits.
-/

namespace ScriptFront.Text.Quoted

/-- The letter that stands for a control character after a backslash. -/
def controlLetter? (c : Char) : Option Char :=
  match c.toNat with
  | 0x07 => some 'a'
  | 0x08 => some 'b'
  | 0x0c => some 'f'
  | 0x0a => some 'n'
  | 0x0d => some 'r'
  | 0x09 => some 't'
  | 0x0b => some 'v'
  | _ => none

/-- A character that has to be given by its number. -/
def numbered (c : Char) : Bytes :=
  if c.toNat < 0x20 || c.toNat = 0x7f then utf8 "\\x" ++ hex 2 c.toNat
  else if c.toNat < 0x10000 then utf8 "\\u" ++ hex 4 c.toNat
  else utf8 "\\U" ++ hex 8 c.toNat

/-- A rune inside text that is delimited by `mark`. -/
def rune (mark : Char) : Rune → Bytes
  | .invalid b => utf8 "\\x" ++ hex 2 b.toNat
  | .char c =>
    if c = mark || c = '\\' then byte '\\' :: String.utf8EncodeChar c
    else if isPrintable c then String.utf8EncodeChar c
    else match controlLetter? c with
      | some letter => [byte '\\', byte letter]
      | none => numbered c

/-- Runes between double quotes. -/
def runes (rs : List Rune) : Bytes :=
  byte '"' :: rs.flatMap (rune '"') ++ [byte '"']

/-- A **byte string between double quotes**. -/
def text (bs : Bytes) : Bytes :=
  runes (Rune.decode bs)

/-- The first `limit` runes of a byte string between double quotes. -/
def clipped (limit : Nat) (bs : Bytes) : Bytes :=
  runes ((Rune.decode bs).take limit)

/-- A **single character between single quotes**. -/
def character (c : Char) : Bytes :=
  byte '\'' :: rune '\'' (.char c) ++ [byte '\'']

end ScriptFront.Text.Quoted
