import ScriptFront.Parser.Fault
import ScriptFront.Token.Source

/-!
# The parsing monad

A parser looks at **one token** at a time: the cursor holds the current token and the source of
those after it. Nothing else is remembered from token to token. A fault leaves the cursor where it
was found, so that parsing can be taken up again from there.

Repetition is bounded by the number of tokens that can still come: every round of every loop in the
grammar consumes a token, so the bound is never the reason that a loop ends.
-/

namespace ScriptFront

open Text

/-- The current token, and the source of the tokens after it.

The token before the current one is no part of the state. It is asked for in three places, for the
kind of a token that is consumed, for the name of an identifier, and for the span of the name of a
superclass, and each of them reads it right after the step that consumes it. So consuming a token
gives that token as its result (`Parse.advance`). -/
structure Cursor (σ : Type) where
  current : Token
  source : σ

/-- A computation that reads tokens and may end in a fault. -/
abbrev Parse (σ : Type) (α : Type) := EStateM ParseFault (Cursor σ) α

namespace Cursor

variable {σ : Type} [TokenSource σ]

/-- The cursor at the first token of a source. -/
def start (source : σ) : Cursor σ :=
  ⟨(TokenSource.next source).1, (TokenSource.next source).2⟩

/-- The cursor at the next token. -/
def step (c : Cursor σ) : Cursor σ :=
  start c.source

/-- A bound on the tokens from the current one to the end of the input. -/
def remaining (c : Cursor σ) : Nat :=
  TokenSource.size c.source + if c.current.kind = .eof then 0 else 1

end Cursor

namespace Parse

variable {σ : Type} {α β : Type}

/-- The current token. -/
def current : Parse σ Token :=
  fun c => .ok c.current c

/-- The kind of the current token. -/
def kind : Parse σ Kind :=
  fun c => .ok c.current.kind c

/-- Ends in a fault at a given span. -/
def fail (span : Span) (cause : FaultCause) : Parse σ α :=
  fun c => .error ⟨cause, span⟩ c

/-- Ends in a fault at the current token. A token that could not be scanned speaks for itself. -/
def unexpected (cause : Token → FaultCause) : Parse σ α :=
  fun c =>
    let t := c.current
    .error ⟨if t.kind = .error then .unscannable t.value else cause t, t.span⟩ c

/-- Ends in a fault because the nesting limit is used up. -/
def tooDeep : Parse σ α :=
  fun c => .error ⟨.tooDeep, c.current.span⟩ c

variable [TokenSource σ]

/-- Consumes the current token, whatever it is. -/
def advance : Parse σ Token :=
  fun c => .ok c.current c.step

/-- Consumes a token of one kind. -/
def expectKind (kind : Kind) : Parse σ Token := do
  if (← Parse.kind) = kind then advance
  else unexpected fun t => .expected kind t.description

/-- Consumes one operator or delimiter. -/
def expect (p : Punctuator) : Parse σ Token :=
  expectKind (.punctuator p)

/-- Consumes an identifier. -/
def identifier : Parse σ Token := do
  if (← Parse.kind) = .identifier then advance
  else unexpected fun t => .expectedIdentifier t.description

/-- Consumes one operator or delimiter if it is current, and tells whether it was. -/
def accept (p : Punctuator) : Parse σ Bool := do
  if (← Parse.kind) = .punctuator p then
    let _ ← advance
    return true
  else return false

/-! ### Repetition -/

/-- Goes on from `a` by `round` while the current kind allows it, for `bound` rounds at most. -/
def foldWithin (continues : Kind → Bool) (round : α → Parse σ α) : (bound : Nat) → α → Parse σ α
  | 0, a => pure a
  | bound + 1, a => do
    if continues (← Parse.kind) then foldWithin continues round bound (← round a)
    else pure a

/-- Goes on from `a` by `round` **while the current kind allows it**. -/
def foldWhile (continues : Kind → Bool) (round : α → Parse σ α) (a : α) : Parse σ α :=
  fun c =>
    if continues c.current.kind then foldWithin continues round c.remaining a c else .ok a c

/-- The items read while the current kind allows it, `bound` of them at most. -/
def collectWithin (continues : Kind → Bool) (item : Parse σ α) : (bound : Nat) → Parse σ (List α)
  | 0 => pure []
  | bound + 1 => do
    if continues (← Parse.kind) then
      let a ← item
      let rest ← collectWithin continues item bound
      return a :: rest
    else pure []

/-- The items read **while the current kind allows it**. -/
def collectWhile (continues : Kind → Bool) (item : Parse σ α) : Parse σ (List α) :=
  fun c => if continues c.current.kind then collectWithin continues item c.remaining c else .ok [] c

/-- Items with commas between them, up to and including a closing parenthesis. -/
def parenthesized (item : Parse σ α) : Parse σ (List α) := do
  if ← accept .parenRight then return []
  else
    let first ← item
    let rest ← collectWhile (· = .punctuator .comma) do
      let _ ← advance
      item
    let _ ← expect .parenRight
    return first :: rest

end Parse

end ScriptFront
