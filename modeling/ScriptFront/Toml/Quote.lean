import ScriptFront.Text.Bytes

/-!
# TOML: quoted text

Text stands between double quotes, where a backslash begins an escape, or between single quotes,
where it does not. Quotes of either kind may be tripled; the text may then have line breaks. The
text between the quotes is **cut out** first, and its escapes are resolved afterwards.
-/

namespace ScriptFront.Toml.Quote

open Text

/-- A line feed, or the carriage return in front of one. -/
def isNewline (c : Char) : Bool :=
  c = '\n' || c = '\r'

/-- A space or a tab. -/
def isBlank (c : Char) : Bool :=
  c = ' ' || c = '\t'

/-! ### Cutting out -/

/-- The text up to the closing `mark` and what follows it, on one line. -/
def line? (mark : Char) (escapes : Bool) : List Char → Option (List Char × List Char)
  | [] => none
  | c :: rest =>
    if c = mark then some ([], rest)
    else if isNewline c then none
    else if escapes ∧ c = '\\' then
      match rest with
      | [] => none
      | d :: rest => (line? mark escapes rest).map fun (text, rest) => (c :: d :: text, rest)
    else (line? mark escapes rest).map fun (text, rest) => (c :: text, rest)

/-- Where in a tripled text the reader stands: how many marks have just been taken as text, and
whether the last character in front of them is a backslash. -/
structure Run where
  taken : Nat := 0
  afterBackslash : Bool := false

namespace Run

/-- May one more mark be text, although three marks follow it? Two marks may stand right in front
of the closing ones, and one more after a backslash that is text. -/
def admits (run : Run) : Bool :=
  run.taken < 2 || (run.taken = 2 && run.afterBackslash)

end Run

/-- The text up to the closing three `mark`s and what follows them. -/
def lines? (mark : Char) (escapes : Bool) : Run → List Char → Option (List Char × List Char)
  | _, [] => none
  | run, c :: rest =>
    if c = mark then
      if [mark, mark].isPrefixOf rest then
        if (rest.drop 2).head? = some mark then
          if run.admits then
            (lines? mark escapes { run with taken := run.taken + 1 } rest).map
              fun (text, rest) => (c :: text, rest)
          else none
        else some ([], rest.drop 2)
      else
        (lines? mark escapes { run with taken := run.taken + 1 } rest).map
          fun (text, rest) => (c :: text, rest)
    else if escapes ∧ c = '\\' then
      match rest with
      | [] => none
      | d :: rest =>
        (lines? mark escapes { afterBackslash := d = '\\' } rest).map
          fun (text, rest) => (c :: d :: text, rest)
    else
      (lines? mark escapes {} rest).map fun (text, rest) => (c :: text, rest)

/-- A line break right after the opening marks is no part of the text. -/
def dropFirstBreak : List Char → List Char
  | '\n' :: rest => rest
  | '\r' :: '\n' :: rest => rest
  | text => text

/-! ### Resolving -/

/-- Does a line end after nothing but blanks? -/
def endsLine (text : List Char) : Bool :=
  (text.takeWhile fun c => isBlank c || isNewline c).contains '\n'

/-- Takes out every backslash that ends a line, with the blanks and line breaks after it. -/
def joinLines : (skipping : Bool) → List Char → List Char
  | _, [] => []
  | skipping, c :: rest =>
    if skipping ∧ (isBlank c ∨ isNewline c) then joinLines true rest
    else if c = '\\' then
      match rest with
      | '\\' :: rest => '\\' :: '\\' :: joinLines false rest
      | rest => if endsLine rest then joinLines true rest else c :: joinLines false rest
    else c :: joinLines false rest

/-- The character of an escape of one letter. -/
def escaped? : Char → Option Char
  | 'b' => some '\x08'
  | 't' => some '\t'
  | 'n' => some '\n'
  | 'f' => some '\x0c'
  | 'r' => some '\r'
  | '"' => some '"'
  | '\\' => some '\\'
  | _ => none

/-- The value of a hexadecimal digit. -/
def digit? (c : Char) : Option Nat :=
  if c.toNat < 0x80 then hexValue? (byte c) else none

/-- The character with the number that hexadecimal digits spell. -/
def numbered? (digits : List Char) : Option Char := do
  let code ← digits.foldlM (fun n c => (digit? c).map (16 * n + ·)) 0
  if code.isValidChar then some (Char.ofNat code) else none

/-- The text with its **escapes resolved**. -/
def unescape? : List Char → Option (List Char)
  | [] => some []
  | '\\' :: 'u' :: a :: b :: c :: d :: rest => do
    return (← numbered? [a, b, c, d]) :: (← unescape? rest)
  | '\\' :: 'U' :: a :: b :: c :: d :: e :: f :: g :: h :: rest => do
    return (← numbered? [a, b, c, d, e, f, g, h]) :: (← unescape? rest)
  | '\\' :: c :: rest => do return (← escaped? c) :: (← unescape? rest)
  | c :: rest => if c = '\\' then none else (unescape? rest).map (c :: ·)

/-! ### Quoted text -/

/-- A text on one line, from its opening mark. -/
def short? : List Char → Option (List Char × List Char)
  | '"' :: rest => do
    let (text, rest) ← line? '"' true rest
    return (← unescape? text, rest)
  | '\'' :: rest => line? '\'' false rest
  | _ => none

/-- A **quoted text of any form**, from its opening marks. -/
def any? : List Char → Option (List Char × List Char)
  | '"' :: '"' :: '"' :: rest => do
    let (text, rest) ← lines? '"' true {} rest
    return (← unescape? (joinLines false (dropFirstBreak text)), rest)
  | '\'' :: '\'' :: '\'' :: rest => do
    let (text, rest) ← lines? '\'' false {} rest
    return (dropFirstBreak text, rest)
  | text => short? text

end ScriptFront.Toml.Quote
