import ScriptFront.Text.Bytes

/-!
# Runes

A byte string is read from left to right as a sequence of **runes**: a rune is either a character
in its UTF-8 encoding or a single byte that does not begin one. Reading never fails and never
loses a byte, so that a diagnostic can point at an ill-formed byte and go on counting.
-/

namespace ScriptFront.Text

/-- A **rune**: a character, or a byte that is not part of well-formed UTF-8. -/
inductive Rune where
  | char (c : Char)
  | invalid (b : UInt8)
  deriving DecidableEq, Repr, Inhabited

namespace Rune

/-- The bytes that a rune occupies. -/
def bytes : Rune → Bytes
  | .char c => String.utf8EncodeChar c
  | .invalid b => [b]

/-- The number of bytes that a rune occupies. -/
def width (r : Rune) : Nat :=
  r.bytes.length

/-- The character a rune shows: U+FFFD, the replacement character, for an ill-formed byte. -/
def shown : Rune → Char
  | .char c => c
  | .invalid _ => '\ufffd'

/-! ### Reading -/

/-- The code point that the payload bits of a group of one to four bytes spell. -/
def payload : Bytes → Nat
  | [a] => a.toNat
  | [a, b] => a.toNat % 32 * 64 + b.toNat % 64
  | [a, b, c] => a.toNat % 16 * 4096 + b.toNat % 64 * 64 + c.toNat % 64
  | [a, b, c, d] =>
    a.toNat % 8 * 262144 + b.toNat % 64 * 4096 + c.toNat % 64 * 64 + d.toNat % 64
  | _ => 0

/-- The character whose encoding is **exactly** this group. Encoding the candidate again rules
out overlong forms, surrogates and code points out of range all at once. -/
def character? (group : Bytes) : Option Char :=
  let c := Char.ofNat (payload group)
  if String.utf8EncodeChar c = group then some c else none

/-- The first rune of `b :: rest`, and how many bytes of `rest` belong to it. -/
def first (b : UInt8) (rest : Bytes) : Rune × Nat :=
  match [0, 1, 2, 3].findSome? fun n => (character? (b :: rest.take n)).map (·, n) with
  | some (c, n) => (.char c, n)
  | none => (.invalid b, 0)

/-- The runes of a text whose first `skip` bytes belong to a rune already read. -/
def decodeFrom : (skip : Nat) → Bytes → List Rune
  | _, [] => []
  | skip + 1, _ :: rest => decodeFrom skip rest
  | 0, b :: rest => (first b rest).1 :: decodeFrom (first b rest).2 rest

/-- The **runes** of a byte string. -/
def decode (text : Bytes) : List Rune :=
  decodeFrom 0 text

/-- The bytes of a sequence of runes. -/
def encode (runes : List Rune) : Bytes :=
  runes.flatMap bytes

/-! ### Laws -/

/-- No runes have no bytes. -/
@[simp] theorem encode_nil : encode [] = [] := rfl

/-- The bytes of the first rune come first. -/
@[simp] theorem encode_cons (r : Rune) (rs : List Rune) :
    encode (r :: rs) = r.bytes ++ encode rs := rfl

/-- The bytes of runes in two parts are those of one part and then of the other. -/
@[simp] theorem encode_append (rs ss : List Rune) : encode (rs ++ ss) = encode rs ++ encode ss :=
  List.flatMap_append

/-- A group is read as a character only if it is that character's encoding. -/
theorem utf8EncodeChar_of_character? {group : Bytes} {c : Char} (h : character? group = some c) :
    String.utf8EncodeChar c = group := by
  simp only [character?] at h
  split at h
  · next he => cases h; exact he
  · cases h

/-- The first rune stands at the front of the text it is read from. -/
theorem bytes_first (b : UInt8) (rest : Bytes) :
    (first b rest).1.bytes = b :: rest.take (first b rest).2 := by
  unfold first
  split
  · next c n h =>
    obtain ⟨m, -, hm⟩ := List.exists_of_findSome?_eq_some h
    obtain ⟨c', hc', he⟩ := Option.map_eq_some_iff.1 hm
    cases he
    exact utf8EncodeChar_of_character? hc'
  · simp [bytes]

/-- Skipped bytes do not matter to the runes that follow. -/
theorem decodeFrom_eq_decode_drop (skip : Nat) (text : Bytes) :
    decodeFrom skip text = decode (text.drop skip) := by
  induction text generalizing skip with
  | nil => simp [decode, decodeFrom]
  | cons b rest ih =>
    cases skip with
    | zero => rfl
    | succ skip => simp [decodeFrom, ih]

/-- **Reading loses nothing**: the runes of a text spell it. -/
theorem encode_decodeFrom (skip : Nat) (text : Bytes) :
    encode (decodeFrom skip text) = text.drop skip := by
  induction text generalizing skip with
  | nil => simp [decodeFrom]
  | cons b rest ih =>
    cases skip with
    | zero => simp [decodeFrom, bytes_first, ih]
    | succ skip => simp [decodeFrom, ih]

/-- **A text can be put together again from its runes.** -/
@[simp] theorem encode_decode (text : Bytes) : encode (decode text) = text := by
  simp [decode, encode_decodeFrom]

end Rune

/-- Is the text well-formed UTF-8? -/
def wellFormed (text : Bytes) : Bool :=
  (Rune.decode text).all fun
    | .char _ => true
    | .invalid _ => false

end ScriptFront.Text
