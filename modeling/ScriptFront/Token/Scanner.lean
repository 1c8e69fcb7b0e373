import ScriptFront.Text.DecimalDigit
import ScriptFront.Text.Letter
import ScriptFront.Token.Basic

/-!
# Scanning

The **scanner** turns a source text into tokens, one at a time. It divides the rest of the text
into three parts: *layout* (blanks and comments), the runes of one *lexeme*, and what remains.
All its questions are asked of that division, so that spans and lines are never computed from
anything but the runes passed over (`Position.past`).

Scanning stops at the first fault: an error token ends the text right after the rune that caused
it, and every later token is the end of the input.
-/

namespace ScriptFront

open Text

/-- Why a text cannot be scanned. -/
inductive ScanFault where
  | invalidEncoding
  | unterminatedString
  | unknownEscape (r : Rune)
  | unexpectedCharacter (c : Char)
  deriving DecidableEq, Repr

namespace ScanFault

/-- The wording of a fault. -/
def message : ScanFault → Bytes
  | .invalidEncoding => utf8 "invalid UTF-8 encoding"
  | .unterminatedString => utf8 "unterminated string"
  | .unknownEscape r => utf8 "unknown escape sequence: \\" ++ String.utf8EncodeChar r.shown
  | .unexpectedCharacter c => utf8 "unexpected character: " ++ Quoted.character c

end ScanFault

namespace Scanner

/-! ### Classes of runes -/

/-- Space, tab, carriage return and line feed. -/
def isBlank (r : Rune) : Bool :=
  r = .char ' ' || r = .char '\t' || r = .char '\r' || r = .char '\n'

/-- A decimal digit of ASCII. -/
def isDigit : Rune → Bool
  | .char c => c.isDigit
  | .invalid _ => false

/-- A rune that can begin a word: an underscore or a letter. -/
def isWordStart : Rune → Bool
  | .char c => c = '_' || isLetter c
  | .invalid _ => false

/-- A rune that can continue a word: also a decimal digit of any script. -/
def isWordPart : Rune → Bool
  | .char c => c = '_' || isLetter c || isDecimalDigit c
  | .invalid _ => false

/-! ### Layout -/

/-- Divides a text into the **layout** it begins with and the rest. Layout is blanks and comments;
a comment runs from two slashes through the end of the line, whatever bytes it holds. -/
def splitLayout : (inComment : Bool) → List Rune → List Rune × List Rune
  | _, [] => ([], [])
  | true, r :: rest =>
    let (layout, rest) := splitLayout (r ≠ .char '\n') rest
    (r :: layout, rest)
  | false, r :: rest =>
    if isBlank r then
      let (layout, rest) := splitLayout false rest
      (r :: layout, rest)
    else if r = .char '/' ∧ rest.head? = some (.char '/') then
      let (layout, rest) := splitLayout true rest
      (r :: layout, rest)
    else ([], r :: rest)

/-- Layout and rest make up the text. -/
theorem splitLayout_append (inComment : Bool) (text : List Rune) :
    (splitLayout inComment text).1 ++ (splitLayout inComment text).2 = text := by
  induction text generalizing inComment with
  | nil => cases inComment <;> rfl
  | cons r rest ih =>
    cases inComment with
    | true => simp [splitLayout, ih]
    | false =>
      simp only [splitLayout]
      split
      · simp [ih]
      · split <;> simp [ih]

/-! ### Lexemes -/

/-- One **lexeme** at the front of a text: its kind and value, its runes, and the text after it.
A fault leaves no text. -/
structure Lexeme where
  kind : Kind
  value : Bytes
  runes : List Rune
  rest : List Rune
  deriving DecidableEq, Repr

namespace Lexeme

/-- A lexeme whose value is its own text. -/
def plain (kind : Kind) (runes rest : List Rune) : Lexeme :=
  ⟨kind, Rune.encode runes, runes, rest⟩

/-- Runes that end in a fault. -/
def fault (f : ScanFault) (runes : List Rune) : Lexeme :=
  ⟨.error, f.message, runes, []⟩

/-- Puts runes, and what they denote, in front of a lexeme. A fault keeps its message. -/
def extend (runes : List Rune) (denoted : Bytes) (x : Lexeme) : Lexeme :=
  { x with
    value := if x.kind = .error then x.value else denoted ++ x.value
    runes := runes ++ x.runes }

end Lexeme

/-- A number: digits, and a fraction if a point is followed by a digit. -/
def number (text : List Rune) : Lexeme :=
  let whole := text.takeWhile isDigit
  match text.dropWhile isDigit with
  | .char '.' :: rest =>
    let fraction := rest.takeWhile isDigit
    if fraction = [] then .plain .number whole (.char '.' :: rest)
    else .plain .number (whole ++ .char '.' :: fraction) (rest.dropWhile isDigit)
  | rest => .plain .number whole rest

/-- A word: the longest run of word parts, classified as a whole. -/
def word (text : List Rune) : Lexeme :=
  let runes := text.takeWhile isWordPart
  .plain (.ofWord (Rune.encode runes)) runes (text.dropWhile isWordPart)

/-- The character that a rune denotes after a backslash. -/
def unescape? (r : Rune) : Option Char :=
  match r with
  | .char 'n' => some '\n'
  | .char 't' => some '\t'
  | .char 'r' => some '\r'
  | .char '\\' => some '\\'
  | .char '"' => some '"'
  | .char '\'' => some '\''
  | _ => none

/-- The rest of a string literal after the opening `mark`, through the closing one. -/
def stringTail (mark : Char) : List Rune → Lexeme
  | [] => .fault .unterminatedString []
  | .invalid b :: _ => .fault .invalidEncoding [.invalid b]
  | .char c :: rest =>
    if c = mark then ⟨.string, [], [.char c], rest⟩
    else if c = '\\' then
      match rest with
      | [] => .fault .unterminatedString [.char c]
      | r :: rest =>
        match unescape? r with
        | some u => (stringTail mark rest).extend [.char c, r] (String.utf8EncodeChar u)
        | none => .fault (.unknownEscape r) [.char c, r]
    else (stringTail mark rest).extend [.char c] (String.utf8EncodeChar c)

/-- An operator or delimiter of two characters. -/
def double? (first : Char) : List Rune → Option Lexeme
  | .char second :: rest =>
    (Punctuator.ofSpelling? (Rune.encode [.char first, .char second])).map fun p =>
      .plain (.punctuator p) [.char first, .char second] rest
  | _ => none

/-- An operator or delimiter of one character. -/
def single? (first : Char) (rest : List Rune) : Option Lexeme :=
  (Punctuator.ofSpelling? (Rune.encode [.char first])).map fun p =>
    .plain (.punctuator p) [.char first] rest

/-- The **lexeme** that begins with `r`, which is not layout. Of the operators the longest that
fits is taken. -/
def lexeme (r : Rune) (rest : List Rune) : Lexeme :=
  match r with
  | .invalid _ => .fault .invalidEncoding [r]
  | .char c =>
    if c = '"' ∨ c = '\'' then (stringTail c rest).extend [r] []
    else if c.isDigit then number (r :: rest)
    else if isWordStart r then word (r :: rest)
    else ((double? c rest).or (single? c rest)).getD (.fault (.unexpectedCharacter c) [r])

end Scanner

/-- A **scanner**: the text not yet scanned and the position where it begins. -/
structure Scanner where
  input : List Rune
  position : Position := {}
  deriving DecidableEq, Repr

namespace Scanner

/-- The scanner at the start of a source text. -/
def ofText (source : Bytes) : Scanner where
  input := Rune.decode source

/-- The **next token**. At the end of the text, and after a fault, this is the end of the input. -/
def next (s : Scanner) : Token × Scanner :=
  let (layout, text) := splitLayout false s.input
  let start := s.position.past layout
  match text with
  | [] => (⟨.eof, [], start.upTo start⟩, ⟨[], start⟩)
  | r :: rest =>
    let x := lexeme r rest
    let stop := start.past x.runes
    (⟨x.kind, x.value, start.upTo stop⟩, ⟨x.rest, stop⟩)

/-- The tokens through the first end of the input, with at most `limit` before it, and the scanner
that is left. -/
def drain : (limit : Nat) → Scanner → List Token × Scanner
  | 0, s => ([s.next.1], s.next.2)
  | limit + 1, s =>
    let (t, s) := s.next
    if t.kind = .eof then ([t], s)
    else
      let (ts, s) := drain limit s
      (t :: ts, s)

/-- **All tokens**, through the first end of the input, and the scanner that is left. A token takes
at least one rune, so there are no more tokens before the end than runes. -/
def exhaust (s : Scanner) : List Token × Scanner :=
  s.drain s.input.length

/-- **All tokens**, through the first end of the input. -/
def tokens (s : Scanner) : List Token :=
  s.exhaust.1

/-- The next `count` tokens. -/
def take : (count : Nat) → Scanner → List Token
  | 0, _ => []
  | count + 1, s => s.next.1 :: take count s.next.2

end Scanner

end ScriptFront
