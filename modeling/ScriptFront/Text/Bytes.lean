/-!
# Byte strings

Source text, names, messages and everything written are **byte strings**: the language has to
carry text that is not well-formed UTF-8 through to its diagnostics without change. This module
holds the type, the bytes of a string literal, and numerals in decimal and hexadecimal.
-/

namespace ScriptFront.Text

/-- A **byte string**. -/
abbrev Bytes := List UInt8

/-- The UTF-8 bytes of a string. -/
def utf8 (s : String) : Bytes :=
  s.toList.flatMap String.utf8EncodeChar

/-- The byte of a character of ASCII. -/
def byte (c : Char) : UInt8 :=
  c.toNat.toUInt8

/-! ### Numerals -/

/-- A natural number in decimal. -/
def decimal (n : Nat) : Bytes :=
  (Nat.toDigits 10 n).map byte

/-- An integer in decimal, with a minus sign if it is negative. -/
def integer : Int → Bytes
  | .ofNat n => decimal n
  | .negSucc n => byte '-' :: decimal (n + 1)

/-- The `width` lowest hexadecimal digits of `n`, in lower case. -/
def hex : (width : Nat) → (n : Nat) → Bytes
  | 0, _ => []
  | width + 1, n => hex width (n / 16) ++ [byte (Nat.digitChar (n % 16))]

/-- The `width` lowest hexadecimal digits of `n`, in upper case. -/
def upperHex (width n : Nat) : Bytes :=
  (hex width n).map fun b => if byte 'a' ≤ b then b - 32 else b

/-! ### Classes of bytes -/

/-- A decimal digit of ASCII. -/
def isDigit (b : UInt8) : Bool :=
  byte '0' ≤ b && b ≤ byte '9'

/-- The value of a decimal digit. -/
def digitValue (b : UInt8) : Nat :=
  b.toNat - 48

/-- An ASCII capital as its small letter; any other byte is left alone. -/
def lower (b : UInt8) : UInt8 :=
  if byte 'A' ≤ b && b ≤ byte 'Z' then b + 32 else b

/-- The value of a hexadecimal digit in either case. -/
def hexValue? (b : UInt8) : Option Nat :=
  if isDigit b then some (digitValue b)
  else if byte 'a' ≤ lower b && lower b ≤ byte 'f' then some ((lower b).toNat - 87)
  else none

/-! ### Search and division -/

/-- Does `needle` occur in the text? -/
def contains (needle : Bytes) : Bytes → Bool
  | [] => needle.isEmpty
  | b :: rest => needle.isPrefixOf (b :: rest) || contains needle rest

/-- Parts between `mark`s: one more than there are marks. -/
def splitAt (mark : UInt8) : Bytes → List Bytes
  | [] => [[]]
  | b :: rest =>
    match splitAt mark rest with
    | [] => [[]]
    | part :: parts => if b == mark then [] :: part :: parts else (b :: part) :: parts

/-- Texts joined with `separator` between neighbours. -/
def join (separator : Bytes) (parts : List Bytes) : Bytes :=
  separator.intercalate parts

/-- A first text stands in front, and every other one behind a separator. -/
theorem join_cons (separator text : Bytes) (texts : List Bytes) :
    join separator (text :: texts) = text ++ texts.flatMap (separator ++ ·) := by
  induction texts generalizing text with
  | nil => simp [join]
  | cons text' texts ih =>
      have h := ih text'
      simp only [join] at h
      rw [join, List.intercalate_cons_cons, h, List.flatMap_cons, List.append_assoc,
        List.append_assoc]

/-- Lexicographic order by byte, shorter first. -/
def le : Bytes → Bytes → Bool
  | [], _ => true
  | _ :: _, [] => false
  | a :: as, b :: bs => if a == b then le as bs else a < b

end ScriptFront.Text
