import ScriptFront.Text.Bytes

/-!
# Kinds of token

The language has fourteen keywords and thirty-three operators and delimiters, each with **one
spelling**, and three classes of token whose text varies: identifiers, numbers and strings. Two
more kinds mark the end of the input and text that cannot be scanned.

Kinds are also known by number, in the order of `Kind.all`; a number outside that list is kept as
`Kind.other`, so that every integer names exactly one kind (`Kind.code_ofCode`).
-/

namespace ScriptFront

open Text

/-- The reserved words. -/
inductive Keyword where
  | letKw | constKw | classKw | functionKw | printKw | ifKw | elseKw | whileKw | forKw | returnKw
  | trueKw | falseKw | superKw | thisKw
  deriving DecidableEq, Repr

namespace Keyword

/-- The word itself. -/
def spelling : Keyword → Bytes
  | .letKw => utf8 "let"
  | .constKw => utf8 "const"
  | .classKw => utf8 "class"
  | .functionKw => utf8 "function"
  | .printKw => utf8 "print"
  | .ifKw => utf8 "if"
  | .elseKw => utf8 "else"
  | .whileKw => utf8 "while"
  | .forKw => utf8 "for"
  | .returnKw => utf8 "return"
  | .trueKw => utf8 "true"
  | .falseKw => utf8 "false"
  | .superKw => utf8 "super"
  | .thisKw => utf8 "this"

/-- Every keyword. -/
def all : List Keyword :=
  [.letKw, .constKw, .classKw, .functionKw, .printKw, .ifKw, .elseKw, .whileKw, .forKw,
   .returnKw, .trueKw, .falseKw, .superKw, .thisKw]

/-- The keyword that is spelled like this. -/
def ofSpelling? (word : Bytes) : Option Keyword :=
  all.find? (·.spelling = word)

end Keyword

/-- The operators and delimiters. -/
inductive Punctuator where
  | plus | minus | star | slash | percent | ampersand | pipe | caret | bang | equals
  | equalEqual | bangEqual | less | lessEqual | greater | greaterEqual | logicalAnd | logicalOr
  | plusEquals | minusEquals | starEquals | slashEquals | percentEquals | ampersandEquals
  | pipeEquals | caretEquals
  | comma | dot | semicolon | parenLeft | parenRight | braceLeft | braceRight
  deriving DecidableEq, Repr

namespace Punctuator

/-- The characters of an operator or delimiter. -/
def spelling : Punctuator → Bytes
  | .plus => utf8 "+"
  | .minus => utf8 "-"
  | .star => utf8 "*"
  | .slash => utf8 "/"
  | .percent => utf8 "%"
  | .ampersand => utf8 "&"
  | .pipe => utf8 "|"
  | .caret => utf8 "^"
  | .bang => utf8 "!"
  | .equals => utf8 "="
  | .equalEqual => utf8 "=="
  | .bangEqual => utf8 "!="
  | .less => utf8 "<"
  | .lessEqual => utf8 "<="
  | .greater => utf8 ">"
  | .greaterEqual => utf8 ">="
  | .logicalAnd => utf8 "&&"
  | .logicalOr => utf8 "||"
  | .plusEquals => utf8 "+="
  | .minusEquals => utf8 "-="
  | .starEquals => utf8 "*="
  | .slashEquals => utf8 "/="
  | .percentEquals => utf8 "%="
  | .ampersandEquals => utf8 "&="
  | .pipeEquals => utf8 "|="
  | .caretEquals => utf8 "^="
  | .comma => utf8 ","
  | .dot => utf8 "."
  | .semicolon => utf8 ";"
  | .parenLeft => utf8 "("
  | .parenRight => utf8 ")"
  | .braceLeft => utf8 "\x7b"
  | .braceRight => utf8 "\x7d"

/-- Every operator and delimiter. -/
def all : List Punctuator :=
  [.plus, .minus, .star, .slash, .percent, .ampersand, .pipe, .caret, .bang, .equals,
   .equalEqual, .bangEqual, .less, .lessEqual, .greater, .greaterEqual, .logicalAnd, .logicalOr,
   .plusEquals, .minusEquals, .starEquals, .slashEquals, .percentEquals, .ampersandEquals,
   .pipeEquals, .caretEquals,
   .comma, .dot, .semicolon, .parenLeft, .parenRight, .braceLeft, .braceRight]

/-- The operator or delimiter that is spelled like this. -/
def ofSpelling? (word : Bytes) : Option Punctuator :=
  all.find? (·.spelling = word)

end Punctuator

/-- The **kind** of a token. -/
inductive Kind where
  /-- Text that cannot be scanned. -/
  | error
  /-- The end of the input. -/
  | eof
  | identifier
  | number
  | string
  | keyword (k : Keyword)
  | punctuator (p : Punctuator)
  /-- A number that names no kind of the language. -/
  | other (code : Int)
  deriving DecidableEq, Repr, Inhabited

namespace Kind

/-- The kinds of the language **in the order of their numbers**. -/
def all : List Kind :=
  [.error, .eof, .identifier, .number, .string] ++ Keyword.all.map .keyword
    ++ Punctuator.all.map .punctuator

/-- The kind with this number. -/
def ofCode : Int → Kind
  | .ofNat n => all.getD n (.other n)
  | .negSucc n => .other (.negSucc n)

/-- The number of a kind. -/
def code : Kind → Int
  | .other n => n
  | kind => all.idxOf kind

/-- The **name** of a kind: the spelling where it has one, a word in capitals for a class. -/
def name : Kind → Bytes
  | .error => utf8 "ERROR"
  | .eof => utf8 "EOF"
  | .identifier => utf8 "IDENTIFIER"
  | .number => utf8 "NUMBER"
  | .string => utf8 "STRING"
  | .keyword k => k.spelling
  | .punctuator p => p.spelling
  | .other n => utf8 "TokenType(" ++ integer n ++ utf8 ")"

/-- The kind of a word: a keyword if it is spelled like one, else an identifier. -/
def ofWord (word : Bytes) : Kind :=
  match Keyword.ofSpelling? word with
  | some k => .keyword k
  | none => .identifier

/-- The kinds with a number, **numbered without gaps**. -/
theorem length_all : all.length = 52 := rfl

/-- Every number is the number of the kind it names. -/
theorem code_ofCode (n : Int) : (ofCode n).code = n := by
  match n with
  | .negSucc n => rfl
  | .ofNat n =>
    by_cases h : n < 52
    · revert h
      exact (by decide : ∀ n < 52, (ofCode (.ofNat n)).code = .ofNat n) n
    · have hn : all[n]? = none := List.getElem?_eq_none_iff.2 (by rw [length_all]; omega)
      simp [ofCode, List.getD, hn, code]

end Kind

end ScriptFront
