import ScriptFront.Parser.Statement

/-!
# Parsing programs

A **parser** is a cursor and a nesting limit. It gives the statements of a program one at a time or
all that are left at once, and it can be asked again after a fault.
-/

namespace ScriptFront

open Text

/-- A parser over a source of tokens. -/
structure Parser (σ : Type) where
  limit : Nat
  cursor : Cursor σ

namespace Parser

/-- The nesting limit where none is given. -/
def defaultLimit : Nat := 256

/-- The nesting limit that a setting stands for. -/
def limitOf (setting : Int) : Nat :=
  if setting ≤ 0 then defaultLimit else setting.toNat

variable {σ : Type} [TokenSource σ]

/-- A parser at the first token of a source. -/
def start (setting : Int) (source : σ) : Parser σ where
  limit := limitOf setting
  cursor := .start source

/-- Runs a computation from where the parser stands; the parser stays where that ends. -/
def run {α : Type} (p : Parser σ) (x : Parse σ α) : Except ParseFault α × Parser σ :=
  match x p.cursor with
  | .ok a c => (.ok a, { p with cursor := c })
  | .error e c => (.error e, { p with cursor := c })

/-- The **next statement**, or none at the end of the input. -/
def nextStatement (p : Parser σ) : Except ParseFault (Option Stmt) × Parser σ :=
  p.run do
    if (← Parse.kind) = .eof then return none
    else return some (← Parse.declaration p.limit)

/-- **All statements that are left.** A fault leaves none of them. -/
def program (p : Parser σ) : Except ParseFault Program × Parser σ :=
  p.run (Parse.collectWhile (· ≠ .eof) (Parse.declaration p.limit))

end Parser

/-- The program that a source of tokens spells. -/
def Program.ofTokens {σ : Type} [TokenSource σ] (setting : Int) (source : σ) :
    Except ParseFault Program :=
  (Parser.start setting source).program.1

/-- The **program that a text spells**, under the nesting limit `setting`. -/
def Program.ofText (setting : Int) (source : Bytes) : Except ParseFault Program :=
  Program.ofTokens setting (Scanner.ofText source)

end ScriptFront
