import ScriptFront.Text.Rune
import ScriptFront.Toml.Moment
import ScriptFront.Toml.Number
import ScriptFront.Toml.Quote

/-!
# TOML: reading

Reads a TOML text into its statements. A reader takes a text and gives what it found at the front
together with the rest, or nothing if the text is not well formed. Values nest, so the readers of
values carry a budget; `Toml.read?` gives them more than any text can use up, because every second
level of nesting takes a character.
-/

namespace ScriptFront.Toml

open Text

namespace Reader

/-- The bytes of a sequence of characters. -/
def encode (cs : List Char) : Bytes :=
  cs.flatMap String.utf8EncodeChar

/-! ### Layout -/

/-- What follows the blanks at the front of a text. -/
def skipBlanks (text : List Char) : List Char :=
  text.dropWhile Quote.isBlank

/-- What follows blanks, line breaks and comments. A comment ends with its line. -/
def skipLayout : (inComment : Bool) → List Char → List Char
  | _, [] => []
  | true, c :: rest => skipLayout (c ≠ '\n') rest
  | false, c :: rest =>
    if Quote.isBlank c ∨ Quote.isNewline c then skipLayout false rest
    else if c = '#' then skipLayout true rest
    else c :: rest

/-- A text after the character it has to begin with. -/
def expect? (mark : Char) : List Char → Option (List Char)
  | c :: rest => if c = mark then some rest else none
  | [] => none

/-- Does nothing more stand on the line but blanks and a comment? -/
def endsStatement (text : List Char) : Bool :=
  match skipBlanks text with
  | [] => true
  | c :: _ => c = '#' || Quote.isNewline c

/-! ### Keys -/

/-- A character of a part of a key without quotes. -/
def isBare (c : Char) : Bool :=
  c.toNat < 0x80 && Key.isBare (byte c)

/-- A part of a key. -/
def part? (text : List Char) : Option (Bytes × List Char) :=
  match text.takeWhile isBare with
  | [] => (Quote.short? text).map fun (part, rest) => (encode part, rest)
  | bare => some (encode bare, text.dropWhile isBare)

/-- A dotted key with at most `limit` parts; blanks may stand around each of them. -/
def key? : (limit : Nat) → List Char → Option (Key × List Char)
  | 0, _ => none
  | limit + 1, text => do
    let (part, rest) ← part? (skipBlanks text)
    match skipBlanks rest with
    | '.' :: rest =>
      let (parts, rest) ← key? limit rest
      return (part :: parts, rest)
    | rest => return ([part], rest)

/-! ### Values without parts -/

/-- A word with a fixed meaning. -/
def word? (text : List Char) : Option (Scalar × List Char) :=
  let words : List (String × Scalar) :=
    [("true", .boolean true), ("false", .boolean false), ("inf", .float .infinity),
      ("+inf", .float .infinity), ("-inf", .float (Binary64.withSign true .infinity)),
      ("nan", .float .nan), ("+nan", .float .nan), ("-nan", .float (Binary64.withSign true .nan))]
  words.findSome? fun (word, value) =>
    if word.toList.isPrefixOf text then some (value, text.drop word.length) else none

/-- A decimal digit. -/
def isDigit (c : Char) : Bool :=
  c.toNat < 0x80 && Text.isDigit (byte c)

/-- The characters at the front of a text that belong to a class, read as a whole. -/
def run? (inRun : Char → Bool) (read : Bytes → Option Scalar) (text : List Char) :
    Option (Scalar × List Char) :=
  (read (encode (text.takeWhile inRun))).map (·, text.dropWhile inRun)

/-- Digits of a base with underscores between them. -/
def based? (base : Nat) (text : List Char) : Option (Scalar × List Char) :=
  let isBaseDigit := fun c => (Quote.digit? c).any (· < base)
  if text.head?.any isBaseDigit then
    run? (fun c => isBaseDigit c || c = '_') (Number.based? base) text
  else none

/-- A date or a time. Its blanks belong to it, except those at the end. -/
def moment? (text : List Char) : Option (Scalar × List Char) :=
  run? (fun c => isDigit c || "-:Tt .Zz+".contains c) read text
where
  read (text : Bytes) : Option Scalar :=
    let text := (text.reverse.dropWhile (· = byte ' ')).reverse
    let text := Moment.capitals text
    if Moment.isMoment text then some (.dateTime text) else none

/-- A decimal number: a float if a point or an exponent follows its first digits. -/
def decimal? (text : List Char) : Option (Scalar × List Char) :=
  let isSign := fun c => c = '+' || c = '-'
  let inWhole := fun c => isDigit c || c = '_'
  let body := match text with
    | c :: rest => if isSign c then rest else text
    | [] => []
  if !body.head?.any isDigit then none
  else match (body.dropWhile inWhole).head? with
    | some '.' | some 'e' | some 'E' =>
      run? (fun c => inWhole c || isSign c || ".eE".contains c) Number.float? text
    | _ =>
      let whole := text.take (text.length - (body.dropWhile inWhole).length)
      (Number.decimal? (encode whole)).map (·, body.dropWhile inWhole)

/-- A number, date or time that begins with a digit or a sign. -/
def number? (text : List Char) : Option (Scalar × List Char) :=
  match text with
  | '0' :: 'x' :: rest => based? 16 rest
  | '0' :: 'o' :: rest => based? 8 rest
  | '0' :: 'b' :: rest => based? 2 rest
  | _ =>
    let digits := text.takeWhile isDigit
    match (text.dropWhile isDigit).head? with
    | some '-' | some ':' =>
      if digits = [] ∨ digits = ['0'] then decimal? text else moment? text
    | _ => decimal? text

/-- A value without parts. -/
def scalar? (text : List Char) : Option (Scalar × List Char) :=
  match text with
  | '"' :: _ | '\'' :: _ => (Quote.any? text).map fun (s, rest) => (.string (encode s), rest)
  | _ => (word? text).or (number? text)

/-! ### Values with parts -/

mutual

/-- A **value**; blanks may stand in front of it. -/
def value? : (budget : Nat) → List Char → Option (Value × List Char)
  | 0, _ => none
  | budget + 1, text =>
    match skipBlanks text with
    | '[' :: rest => (items? budget rest).map fun (items, rest) => (.array items, rest)
    | '\x7b' :: rest =>
      match skipBlanks rest with
      | '\x7d' :: rest => some (.inlineTable [], rest)
      | rest => (bindings? budget rest).map fun (bindings, rest) => (.inlineTable bindings, rest)
    | text => (scalar? text).map fun (s, rest) => (.scalar s, rest)

/-- The items of an array, through its closing bracket. Line breaks and comments may stand between
them, and a comma after the last. -/
def items? : (budget : Nat) → List Char → Option (List Value × List Char)
  | 0, _ => none
  | budget + 1, text =>
    match skipLayout false text with
    | ']' :: rest => some ([], rest)
    | text => do
      let (item, rest) ← value? budget text
      match skipLayout false rest with
      | ',' :: rest =>
        let (items, rest) ← items? budget rest
        return (item :: items, rest)
      | ']' :: rest => return ([item], rest)
      | _ => none

/-- The bindings of an inline table, at least one, through its closing brace. They stand on one
line. -/
def bindings? : (budget : Nat) → List Char → Option (List (Key × Value) × List Char)
  | 0, _ => none
  | budget + 1, text => do
    let (key, rest) ← key? text.length text
    let (value, rest) ← value? budget (← expect? '=' rest)
    match skipBlanks rest with
    | ',' :: rest =>
      let (bindings, rest) ← bindings? budget rest
      return ((key, value) :: bindings, rest)
    | '\x7d' :: rest => return ([(key, value)], rest)
    | _ => none

end

/-! ### Statements -/

/-- A statement at the front of a text. -/
def statement? (text : List Char) : Option (Statement × List Char) :=
  match text with
  | '[' :: '[' :: rest => do
    let (key, rest) ← key? rest.length rest
    return (.element key, ← expect? ']' (← expect? ']' rest))
  | '[' :: rest => do
    let (key, rest) ← key? rest.length rest
    return (.table key, ← expect? ']' rest)
  | _ => do
    let (key, rest) ← key? text.length text
    let (value, rest) ← value? (2 * text.length) (← expect? '=' rest)
    return (.binding key value, rest)

/-- At most `limit` statements, through the end of a text. -/
def statements? : (limit : Nat) → List Char → Option (List Statement)
  | 0, text => if (skipLayout false text).isEmpty then some [] else none
  | limit + 1, text =>
    match skipLayout false text with
    | [] => some []
    | text => do
      let (statement, rest) ← statement? text
      if endsStatement rest then return statement :: (← statements? limit rest)
      else none

/-! ### Text -/

/-- A mark for the byte order of a text, which is passed over. -/
def dropByteOrder : Bytes → Bytes
  | 0xff :: 0xfe :: rest => rest
  | 0xfe :: 0xff :: rest => rest
  | 0xef :: 0xbb :: 0xbf :: rest => rest
  | text => text

/-- A control character other than those of blanks and line breaks. -/
def isControl (c : Char) : Bool :=
  (c.toNat < 0x20 && c ≠ '\t' && !Quote.isNewline c) || c.toNat = 0x7f

/-- The characters of a text. Ill-formed bytes, control characters and a carriage return that is
not part of a line break may stand nowhere. -/
def characters? : List Rune → Option (List Char)
  | [] => some []
  | .invalid _ :: _ => none
  | .char c :: rest =>
    if isControl c ∨ (c = '\r' ∧ rest.head? ≠ some (.char '\n')) then none
    else (characters? rest).map (c :: ·)

end Reader

/-- The **statements of a TOML text**. -/
def read? (source : Bytes) : Option (List Statement) := do
  let text ← Reader.characters? (Rune.decode (Reader.dropByteOrder source))
  Reader.statements? text.length text

end ScriptFront.Toml
