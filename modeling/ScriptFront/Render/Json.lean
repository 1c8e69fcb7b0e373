import ScriptFront.Document
import ScriptFront.Number.Written
import ScriptFront.Text.Rune

/-!
# Documents in JSON

JSON in the indented form: two spaces a level, every entry and every item on a line of its own.
Characters that could be taken for markup are escaped as well, so that the text can be embedded in
a page. A document with a number that is not finite has no JSON form.
-/

namespace ScriptFront

open Text

mutual

/-- The **first number that is not finite**, in the order of writing. -/
def Document.nonFinite? : Document → Option Binary64
  | .boolean _ | .text _ => none
  | .number x => if x.isFinite then none else some x
  | .list items => Document.nonFiniteItem? items
  | .record entries => Document.nonFiniteEntry? entries

/-- The first number in a list of documents that is not finite. -/
def Document.nonFiniteItem? : List Document → Option Binary64
  | [] => none
  | d :: ds => d.nonFinite?.or (Document.nonFiniteItem? ds)

/-- The first number in a list of entries that is not finite. -/
def Document.nonFiniteEntry? : List (Bytes × Document) → Option Binary64
  | [] => none
  | (_, d) :: rest => d.nonFinite?.or (Document.nonFiniteEntry? rest)

end

namespace Json

/-- Numbers in JSON: plain digits from a millionth up to 10 ^ 21. -/
def numberStyle : NumberStyle :=
  .basic (fun e => -6 ≤ e && e < 21) 1

/-- The letter that stands for a control character after a backslash. -/
def controlLetter? (c : Char) : Option Char :=
  match c.toNat with
  | 0x08 => some 'b'
  | 0x0c => some 'f'
  | 0x0a => some 'n'
  | 0x0d => some 'r'
  | 0x09 => some 't'
  | _ => none

/-- Is the character written by its number, though it is no control character? -/
def isGuarded (c : Char) : Bool :=
  c = '<' || c = '>' || c = '&' || c = '\u2028' || c = '\u2029'

/-- A rune inside a string. A byte that is no part of a character is replaced by the character
U+FFFD, which is written as it is and not by its number. -/
def rune : Rune → Bytes
  | .invalid _ => utf8 "\ufffd"
  | .char c =>
    if c = '"' || c = '\\' then byte '\\' :: String.utf8EncodeChar c
    else match controlLetter? c with
      | some letter => [byte '\\', byte letter]
      | none =>
        if c.toNat < 0x20 || isGuarded c then utf8 "\\u" ++ hex 4 c.toNat
        else String.utf8EncodeChar c

/-- A string. -/
def string (text : Bytes) : Bytes :=
  byte '"' :: (Rune.decode text).flatMap rune ++ [byte '"']

/-- A new line at a level of indentation. -/
def newline (level : Nat) : Bytes :=
  byte '\n' :: List.replicate (2 * level) (byte ' ')

/-- Parts between brackets, each on a line of its own one level further in. -/
def bracketed (opening closing : Char) (level : Nat) : List Bytes → Bytes
  | [] => [byte opening, byte closing]
  | parts =>
    byte opening :: newline (level + 1) ++ join (byte ',' :: newline (level + 1)) parts
      ++ newline level ++ [byte closing]

mutual

/-- A document at a level of indentation. -/
def value (level : Nat) : Document → Bytes
  | .boolean b => if b then utf8 "true" else utf8 "false"
  | .number x => numberStyle.write x
  | .text t => string t
  | .list items => bracketed '[' ']' level (values (level + 1) items)
  | .record entries => bracketed '\x7b' '\x7d' level (members (level + 1) entries)

/-- The documents of a list. -/
def values (level : Nat) : List Document → List Bytes
  | [] => []
  | d :: ds => value level d :: values level ds

/-- The entries of a record. -/
def members (level : Nat) : List (Bytes × Document) → List Bytes
  | [] => []
  | (key, d) :: rest => (string key ++ utf8 ": " ++ value level d) :: members level rest

end

/-- A **document in JSON**, or the number that stands in the way. -/
def render (d : Document) : Except Binary64 Bytes :=
  match d.nonFinite? with
  | some x => .error x
  | none => .ok (value 0 d ++ [byte '\n'])

end Json

end ScriptFront
