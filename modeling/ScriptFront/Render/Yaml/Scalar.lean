import ScriptFront.Number.Numeral
import ScriptFront.Render.Yaml.Timestamp
import ScriptFront.Text.Rune

/-!
# Scalars in YAML

A text may stand **plain** in YAML unless a reader would take it for something else, or for part of
the notation. This module decides the style of a text: plain, in single or in double quotes, as a
literal block if it has line breaks, or in base 64 if it is not well-formed UTF-8.
-/

namespace ScriptFront.Yaml

open Text

/-! ### Texts that mean something else -/

/-- The words that denote a truth value, nothing, infinity or NaN. -/
def reservedWords : List Bytes :=
  ["", "~", "null", "Null", "NULL", "true", "True", "TRUE", "false", "False", "FALSE",
   ".nan", ".NaN", ".NAN", ".inf", ".Inf", ".INF", "+.inf", "+.Inf", "+.INF",
   "-.inf", "-.Inf", "-.INF"].map utf8

/-- The words that used to denote a truth value. -/
def formerWords : List Bytes :=
  ["y", "Y", "yes", "Yes", "YES", "on", "On", "ON",
   "n", "N", "no", "No", "NO", "off", "Off", "OFF"].map utf8

/-- The value of digits in a base, if there are any and all belong to the base. -/
def digitsIn? (base : Nat) : Bytes → Option Nat
  | [] => none
  | text =>
    text.foldl (fun n b => do
      let n ← n
      let d ← hexValue? b
      if d < base then some (base * n + d) else none) (some 0)

/-- The value of unsigned digits whose first characters may name the base: a zero and a letter, or
a zero alone for octal digits. -/
def prefixedDigits? : Bytes → Option Nat
  | a :: b :: rest =>
    if a ≠ byte '0' then digitsIn? 10 (a :: b :: rest)
    else if lower b = byte 'x' && rest ≠ [] then digitsIn? 16 rest
    else if lower b = byte 'o' && rest ≠ [] then digitsIn? 8 rest
    else if lower b = byte 'b' && rest ≠ [] then digitsIn? 2 rest
    else digitsIn? 8 (b :: rest)
  | text => digitsIn? 10 text

/-- Divides a text into its sign, if it has one, and the rest. -/
def splitSign : Bytes → Option Bool × Bytes
  | b :: rest =>
    if b = byte '-' then (some true, rest)
    else if b = byte '+' then (some false, rest)
    else (none, b :: rest)
  | [] => (none, [])

/-- Does a magnitude with this sign fit into 64 bits? Without a sign it may be unsigned. -/
def fitsWord (sign : Option Bool) (n : Nat) : Bool :=
  match sign with
  | some true => n ≤ Nat.pow 2 63
  | some false => n < Nat.pow 2 63
  | none => n < Nat.pow 2 64

/-- A 64-bit integer in a given base. -/
def isIntegerIn (base : Nat) (text : Bytes) : Bool :=
  let (sign, digits) := splitSign text
  (digitsIn? base digits).any (fitsWord sign)

/-- A 64-bit integer, the base being named by its first digits. -/
def isInteger (text : Bytes) : Bool :=
  let (sign, digits) := splitSign text
  (prefixedDigits? digits).any (fitsWord sign)

/-- A 64-bit integer after a marker for binary or octal digits: the digits may have a sign of their
own where none stands before the marker. -/
def isMarkedInteger (text : Bytes) : Bool :=
  [('b', 2), ('o', 8)].any fun (letter, base) =>
    match text with
    | a :: b :: rest =>
      if a = byte '0' && b = byte letter then isIntegerIn base rest
      else match rest with
        | c :: digits =>
          a = byte '-' && b = byte '0' && c = byte letter
            && isIntegerIn base (byte '-' :: digits)
        | [] => false
    | _ => false

/-- The exponent of a number, if there is one, to the end of the text. -/
def isExponent : Bytes → Bool
  | [] => true
  | b :: rest =>
    let digits := (splitSign rest).2
    lower b = byte 'e' && digits ≠ [] && digits.all isDigit

/-- Digits with a point somewhere before, between or after them, and an exponent. -/
def isDecimalForm (text : Bytes) : Bool :=
  let text := (splitSign text).2
  let rest := text.dropWhile isDigit
  match rest with
  | b :: fraction =>
    if b = byte '.' then
      (isDigit (text.headD 0) || isDigit (fraction.headD 0))
        && isExponent (fraction.dropWhile isDigit)
    else isDigit (text.headD 0) && isExponent rest
  | [] => isDigit (text.headD 0)

/-- A number in base 60, with colons between its digits. -/
def isSexagesimal (text : Bytes) : Bool :=
  let text := (splitSign text).2
  let run := fun b => isDigit b || b = byte '_'
  let whole := text.takeWhile run
  match splitAt (byte ':') (text.dropWhile run) with
  | [] :: group :: groups =>
    let last := (group :: groups).getLastD []
    let lastDigits := last.takeWhile (· ≠ byte '.')
    let fraction := (last.dropWhile (· ≠ byte '.')).drop 1
    isDigit (whole.headD 0) && ((group :: groups).dropLast ++ [lastDigits]).all isGroup
      && fraction.all run
  | _ => false
where
  /-- One digit, or two of which the first is less than six. -/
  isGroup : Bytes → Bool
    | [b] => isDigit b
    | [a, b] => isDigit a && a < byte '6' && isDigit b
    | _ => false

/-- **Would a reader take the plain text for something other than text?** -/
def isTyped (text : Bytes) : Bool :=
  reservedWords.contains text || formerWords.contains text || isSexagesimal text ||
    match text with
    | [] => true
    | b :: _ =>
      if b = byte '.' then (Numeral.read? text).isSome
      else if isDigit b || b = byte '+' || b = byte '-' then
        let digits := text.filter (· ≠ byte '_')
        Timestamp.holds text || isInteger digits || isMarkedInteger digits
          || (isDecimalForm digits && (Numeral.read? digits).isSome)
      else false

/-! ### Texts that interfere with the notation -/

/-- May the character stand in a text outside double quotes? A tab may only in a block. -/
def isOrdinary (c : Char) : Bool :=
  let n := c.toNat
  n = 0x0a || (0x20 ≤ n && n ≤ 0x7e) || (0xa0 ≤ n && n ≤ 0xfffd && n ≠ 0xfeff)

/-- Has the text a character that only double quotes can hold? -/
def hasSpecial (text : List Char) : Bool :=
  text.any fun c => c ≠ '\t' && !isOrdinary c

/-- Is there a `first` with a `second` right after it? -/
def hasPair (first second : Char) : List Char → Bool
  | a :: b :: rest => (a = first && b = second) || hasPair first second (b :: rest)
  | _ => false

/-- Does the text begin with what opens some other notation? -/
def opensNotation : List Char → Bool
  | [] => false
  | c :: rest =>
    let blankNext := rest.head?.all fun d => d = ' ' || d = '\t'
    "#,[]\x7b\x7d&*!|>'\"%@`".toList.contains c
      || ((c = '?' || c = ':' || c = '-') && blankNext)
      || (c = '-' && rest.take 2 = ['-', '-'])
      || (c = '.' && rest.take 2 = ['.', '.'])

/-- Can the text, which has no line breaks, stand without quotes as far as notation goes? -/
def isUnobtrusive (text : List Char) : Bool :=
  text.head? ≠ some ' ' && text.getLast? ≠ some ' ' && !opensNotation text
    && !hasPair ':' ' ' text && text.getLast? ≠ some ':' && !hasPair ' ' '#' text

/-- Can the text be a literal block? A blank at the end of a line would be lost. -/
def fitsBlock (text : List Char) : Bool :=
  !hasSpecial text && text.getLast? ≠ some ' ' && !hasPair ' ' '\n' text

/-! ### Styles -/

/-- The ways to write a text. -/
inductive Style where
  | plain
  | singleQuoted
  | doubleQuoted
  | literal
  deriving DecidableEq, Repr

/-- The characters of a well-formed text. -/
def characters (text : Bytes) : List Char :=
  (Rune.decode text).map Rune.shown

/-- The **style** of a well-formed text. -/
def styleOf (text : Bytes) : Style :=
  let cs := characters text
  if cs.contains '\n' then if fitsBlock cs then .literal else .doubleQuoted
  else if isTyped text || hasSpecial cs || cs.contains '\t' then .doubleQuoted
  else if isUnobtrusive cs then .plain
  else .singleQuoted

/-- A character inside double quotes. -/
def escaped (c : Char) : Bytes :=
  match c.toNat with
  | 0x00 => utf8 "\\0"
  | 0x07 => utf8 "\\a"
  | 0x08 => utf8 "\\b"
  | 0x09 => utf8 "\\t"
  | 0x0a => utf8 "\\n"
  | 0x0b => utf8 "\\v"
  | 0x0c => utf8 "\\f"
  | 0x0d => utf8 "\\r"
  | 0x1b => utf8 "\\e"
  | 0x22 => utf8 "\\\""
  | 0x5c => utf8 "\\\\"
  | 0x85 => utf8 "\\N"
  | 0x2028 => utf8 "\\L"
  | 0x2029 => utf8 "\\P"
  | n =>
    if isOrdinary c then String.utf8EncodeChar c
    else if n ≤ 0xff then utf8 "\\x" ++ upperHex 2 n
    else if n ≤ 0xffff then utf8 "\\u" ++ upperHex 4 n
    else utf8 "\\U" ++ upperHex 8 n

/-- A text in double quotes. -/
def doubleQuoted (text : Bytes) : Bytes :=
  byte '"' :: (characters text).flatMap escaped ++ [byte '"']

/-- A text in single quotes, a quote inside it doubled. -/
def singleQuoted (text : Bytes) : Bytes :=
  byte '\'' :: text.flatMap (fun b => if b = byte '\'' then [b, b] else [b]) ++ [byte '\'']

/-- The header of a literal block: whether the indentation has to be told, and what becomes of the
line breaks at the end. -/
def blockHeader (text : Bytes) : Bytes :=
  let hint := match text.head? with
    | some b => if b = byte ' ' || b = byte '\n' then [byte '4'] else []
    | none => []
  let chomp := match text.reverse with
    | a :: b :: _ => if a ≠ byte '\n' then [byte '-'] else if b = byte '\n' then [byte '+'] else []
    | [a] => if a = byte '\n' then [byte '+'] else [byte '-']
    | [] => [byte '-']
  byte '|' :: hint ++ chomp

/-- The lines of a literal block at an indentation, with the line break after each. A break at the
beginning of the text is the one that ends the header. -/
def blockLines (indent : Nat) (text : Bytes) : Bytes :=
  let body := if text.head? = some (byte '\n') then text.drop 1 else text
  let lines := splitAt (byte '\n') body
  let lines := if lines.getLast? = some [] then lines.dropLast else lines
  lines.flatMap fun line =>
    (if line = [] then [] else List.replicate indent (byte ' ') ++ line) ++ [byte '\n']

/-! ### Base 64 -/

/-- The sixty-four digits. -/
def base64Digit (n : Nat) : UInt8 :=
  (utf8 "ABCDEFGHIJKLMNOPQRSTUVWXYZabcdefghijklmnopqrstuvwxyz0123456789+/").getD n 0

/-- Three bytes to four digits, with padding at the end. -/
def base64 : Bytes → Bytes
  | [] => []
  | [a] =>
    let n := a.toNat * 16
    [base64Digit (n / 64), base64Digit (n % 64), byte '=', byte '=']
  | [a, b] =>
    let n := (a.toNat * 256 + b.toNat) * 4
    [base64Digit (n / 4096), base64Digit (n / 64 % 64), base64Digit (n % 64), byte '=']
  | a :: b :: c :: rest =>
    let n := (a.toNat * 256 + b.toNat) * 256 + c.toNat
    base64Digit (n / 262144) :: base64Digit (n / 4096 % 64) :: base64Digit (n / 64 % 64)
      :: base64Digit (n % 64) :: base64 rest

/-- Digits on one line of base 64. -/
def base64LineLength : Nat := 70

/-- Lines of at most `base64LineLength` bytes, `limit` lines at most, each with a line break. -/
def inLines : (limit : Nat) → Bytes → Bytes
  | 0, text => text
  | limit + 1, text =>
    if text = [] then []
    else text.take base64LineLength ++ byte '\n' :: inLines limit (text.drop base64LineLength)

/-- Base 64 of a text, in lines if one would not hold it. -/
def binary (text : Bytes) : Bytes :=
  let digits := base64 text
  if digits.length < base64LineLength then digits else inLines digits.length digits

/-! ### Writing -/

/-- A scalar in a style, where the lines of a block would have this indentation; the line break
after it included. -/
def styled (indent : Nat) (text : Bytes) : Style → Bytes
  | .plain => text ++ [byte '\n']
  | .singleQuoted => singleQuoted text ++ [byte '\n']
  | .doubleQuoted => doubleQuoted text ++ [byte '\n']
  | .literal => blockHeader text ++ byte '\n' :: blockLines indent text

/-- A **text as a scalar**, where the lines of a block would have this indentation; the line break
after it included. -/
def scalar (indent : Nat) (text : Bytes) : Bytes :=
  if wellFormed text then styled indent text (styleOf text)
  else
    let digits := binary text
    utf8 "!!binary " ++
      styled indent digits (if digits.contains (byte '\n') then .literal else .plain)

end ScriptFront.Yaml
