import ScriptFront.Span

/-!
# Characters and their Bytes

What reading makes of the bytes of a character. Two facts carry the rest:

* the **first byte** of an encoding tells how many follow (`Rune.length_tail`), so that no encoding
  is a proper part of the front of another, and the search for the shortest group that is an
  encoding finds the right one (`Rune.decode_utf8EncodeChar_append`);
* the bytes of characters above ASCII, and the bytes that are no part of a character, are all **at
  least 128** (`Rune.mem_bytes_iff`), so that a byte of ASCII is always the character it looks
  like.
-/

namespace ScriptFront.Text

/-- The code of a byte of ASCII is that of the character. -/
theorem toNat_byte {c : Char} (h : c.toNat < 128) : (byte c).toNat = c.toNat := by
  show c.toNat % 256 = c.toNat
  omega

/-- **The four forms of an encoding**, by the code of the character. -/
theorem utf8EncodeChar_cases (c : Char) :
    (c.toNat < 128 ∧ String.utf8EncodeChar c = [UInt8.ofNat c.toNat]) ∨
    (128 ≤ c.toNat ∧ c.toNat < 2048 ∧ String.utf8EncodeChar c =
      [UInt8.ofNat (c.toNat / 64 % 32 + 192), UInt8.ofNat (c.toNat % 64 + 128)]) ∨
    (2048 ≤ c.toNat ∧ c.toNat < 65536 ∧ String.utf8EncodeChar c =
      [UInt8.ofNat (c.toNat / 4096 % 16 + 224), UInt8.ofNat (c.toNat / 64 % 64 + 128),
       UInt8.ofNat (c.toNat % 64 + 128)]) ∨
    (65536 ≤ c.toNat ∧ c.toNat < 1114112 ∧ String.utf8EncodeChar c =
      [UInt8.ofNat (c.toNat / 262144 % 8 + 240), UInt8.ofNat (c.toNat / 4096 % 64 + 128),
       UInt8.ofNat (c.toNat / 64 % 64 + 128), UInt8.ofNat (c.toNat % 64 + 128)]) := by
  have hmax : c.toNat < 1114112 := by
    rcases c.valid with h | ⟨-, h⟩
    · exact Nat.lt_trans h (by decide)
    · exact h
  simp only [String.utf8EncodeChar, Char.toNat] at hmax ⊢
  by_cases h₁ : c.val.toNat ≤ 127
  · exact .inl ⟨by omega, if_pos h₁⟩
  · rw [if_neg h₁]
    by_cases h₂ : c.val.toNat ≤ 2047
    · exact .inr (.inl ⟨by omega, by omega, if_pos h₂⟩)
    · rw [if_neg h₂]
      by_cases h₃ : c.val.toNat ≤ 65535
      · exact .inr (.inr (.inl ⟨by omega, by omega, if_pos h₃⟩))
      · exact .inr (.inr (.inr ⟨by omega, hmax, if_neg h₃⟩))

/-- An ASCII character is its byte. -/
theorem utf8EncodeChar_of_lt {c : Char} (h : c.toNat < 128) :
    String.utf8EncodeChar c = [byte c] := by
  rcases utf8EncodeChar_cases c with ⟨-, heq⟩ | ⟨hle, -⟩ | ⟨hle, -⟩ | ⟨hle, -⟩
  · exact heq
  all_goals omega

/-- The bytes of a character above ASCII are above ASCII. -/
theorem le_of_mem_utf8EncodeChar {c : Char} {b : UInt8} (hc : 128 ≤ c.toNat)
    (hb : b ∈ String.utf8EncodeChar c) : 128 ≤ b.toNat := by
  rcases utf8EncodeChar_cases c with ⟨hlt, -⟩ | ⟨-, -, heq⟩ | ⟨-, -, heq⟩ | ⟨-, -, heq⟩
  · omega
  all_goals
    rw [heq] at hb
    simp only [List.mem_cons, List.not_mem_nil, or_false] at hb
    rcases hb with rfl | hb
    · rw [UInt8.toNat_ofNat']
      omega
  · rw [hb, UInt8.toNat_ofNat']
    omega
  · rcases hb with rfl | rfl <;> rw [UInt8.toNat_ofNat'] <;> omega
  · rcases hb with rfl | rfl | rfl <;> rw [UInt8.toNat_ofNat'] <;> omega

namespace Rune

/-! ### Groups -/

/-- How many bytes follow the first byte of an encoding. -/
def following (b : UInt8) : Nat :=
  if b.toNat < 128 then 0
  else if b.toNat < 224 then 1
  else if b.toNat < 240 then 2
  else 3

/-- **The first byte tells how many follow.** -/
theorem length_tail {c : Char} {b : UInt8} {tail : Bytes}
    (h : String.utf8EncodeChar c = b :: tail) : tail.length = following b := by
  rw [following]
  rcases utf8EncodeChar_cases c with ⟨hlt, heq⟩ | ⟨-, -, heq⟩ | ⟨-, -, heq⟩ | ⟨-, -, heq⟩
  all_goals
    rw [h, List.cons.injEq] at heq
    obtain ⟨rfl, rfl⟩ := heq
    simp only [UInt8.toNat_ofNat', List.length_cons, List.length_nil]
  · rw [if_pos (by omega)]
  · rw [if_neg (by omega), if_pos (by omega)]
  · rw [if_neg (by omega), if_neg (by omega), if_pos (by omega)]
  · rw [if_neg (by omega), if_neg (by omega), if_neg (by omega)]

/-- The payload of an encoding is the code of its character. -/
theorem payload_utf8EncodeChar (c : Char) : payload (String.utf8EncodeChar c) = c.toNat := by
  rcases utf8EncodeChar_cases c with
    ⟨hlt, heq⟩ | ⟨hle, hlt, heq⟩ | ⟨hle, hlt, heq⟩ | ⟨hle, hlt, heq⟩
  all_goals
    simp only [heq, payload, UInt8.toNat_ofNat']
    omega

/-- The bytes of a character are those of that character. -/
theorem character?_utf8EncodeChar (c : Char) :
    character? (String.utf8EncodeChar c) = some c := by
  simp only [character?, payload_utf8EncodeChar, Char.ofNat_toNat, if_true]

/-- No group that is shorter than the first byte asks for is an encoding. -/
theorem character?_eq_none_of_lt {b : UInt8} {group : Bytes} (h : group.length < following b) :
    character? (b :: group) = none := by
  cases hc : character? (b :: group) with
  | none => rfl
  | some c =>
      have hlen := length_tail (utf8EncodeChar_of_character? hc)
      omega

/-! ### Reading characters -/

/-- The first rune of a text that begins with an encoding is the character. -/
theorem first_of_utf8EncodeChar {c : Char} {b : UInt8} {tail : Bytes}
    (h : String.utf8EncodeChar c = b :: tail) (rest : Bytes) :
    first b (tail ++ rest) = (.char c, tail.length) := by
  have hlen := length_tail h
  have hshort (n : Nat) (hn : n < tail.length) :
      character? (b :: (tail ++ rest).take n) = none := by
    refine character?_eq_none_of_lt (Nat.lt_of_le_of_lt (List.length_take_le n _) ?_)
    omega
  have hfit : character? (b :: (tail ++ rest).take tail.length) = some c := by
    rw [List.take_left, ← h]
    exact character?_utf8EncodeChar c
  have hsearch : [0, 1, 2, 3].findSome? (fun n =>
      (character? (b :: (tail ++ rest).take n)).map (·, n)) = some (c, tail.length) := by
    have hle : tail.length ≤ 3 := by
      rw [hlen, following]
      split
      · omega
      · split
        · omega
        · split <;> omega
    match hn : tail.length, hle with
    | 0, _ | 1, _ | 2, _ | 3, _ =>
        rw [hn] at hfit hshort
        simp (disch := omega) only [List.findSome?_cons, hshort, hfit, Option.map_some,
          Option.map_none]
  rw [first, hsearch]

/-- **The bytes of a character are read as that character.** -/
theorem decode_utf8EncodeChar_append (c : Char) (rest : Bytes) :
    decode (String.utf8EncodeChar c ++ rest) = .char c :: decode rest := by
  cases h : String.utf8EncodeChar c with
  | nil => exact absurd h String.utf8EncodeChar_ne_nil
  | cons b tail =>
      rw [List.cons_append]
      show (first b (tail ++ rest)).1 :: decodeFrom (first b (tail ++ rest)).2 (tail ++ rest) = _
      rw [first_of_utf8EncodeChar h, decodeFrom_eq_decode_drop, List.drop_left]

/-- A character of ASCII in front of a text is its first rune. -/
theorem decode_byte_cons {c : Char} (h : c.toNat < 128) (text : Bytes) :
    decode (byte c :: text) = .char c :: decode text := by
  have hdecode := decode_utf8EncodeChar_append c text
  rwa [utf8EncodeChar_of_lt h] at hdecode

/-- **Characters are read back** from the text they spell, whatever follows. -/
theorem decode_encode_append (cs : List Char) (rest : Bytes) :
    decode (encode (cs.map .char) ++ rest) = cs.map .char ++ decode rest := by
  induction cs with
  | nil => rfl
  | cons c cs ih =>
      rw [List.map_cons, encode_cons, bytes, List.append_assoc, decode_utf8EncodeChar_append, ih,
        List.cons_append]

/-- **Characters are decoded as they were encoded.** -/
@[simp] theorem decode_encode_char (cs : List Char) :
    decode (encode (cs.map .char)) = cs.map .char := by
  have h := decode_encode_append cs []
  rw [List.append_nil] at h
  exact h.trans (List.append_nil _)

/-- Characters can be told from the text they spell. -/
theorem encode_char_inj {cs cs' : List Char}
    (h : encode (cs.map .char) = encode (cs'.map .char)) : cs = cs' := by
  have hdecode := congrArg decode h
  rw [decode_encode_char, decode_encode_char] at hdecode
  exact (List.map_inj_right fun _ _ => char.inj).mp hdecode

/-! ### Bytes of ASCII -/

/-- A rune that reading can give: a byte that is no part of a character is above ASCII. -/
def Proper : Rune → Prop
  | .char _ => True
  | .invalid b => 128 ≤ b.toNat

/-- The first rune of a text is one that decoding gives. -/
theorem proper_first (b : UInt8) (rest : Bytes) : (first b rest).1.Proper := by
  by_cases hb : b.toNat < 128
  · have hvalid : b.toNat.isValidChar := .inl (by omega)
    have hchar : (Char.ofNat b.toNat).toNat = b.toNat := by
      rw [Char.ofNat, dif_pos hvalid]
      rfl
    have henc : String.utf8EncodeChar (Char.ofNat b.toNat) = [b] := by
      rw [utf8EncodeChar_of_lt (by omega), byte, hchar]
      simp
    have hfirst := first_of_utf8EncodeChar henc rest
    rw [List.nil_append] at hfirst
    rw [hfirst]
    trivial
  · cases h : (first b rest).1 with
    | char c => trivial
    | invalid b' =>
        have hbytes := bytes_first b rest
        rw [h, bytes, List.cons.injEq] at hbytes
        show 128 ≤ b'.toNat
        rw [hbytes.1]
        omega

/-- The runes of a text are ones that decoding gives. -/
theorem proper_of_mem_decodeFrom {r : Rune} {skip : Nat} {text : Bytes}
    (h : r ∈ decodeFrom skip text) : r.Proper := by
  induction text generalizing skip with
  | nil => simp [decodeFrom] at h
  | cons b rest ih =>
      cases skip with
      | succ skip => exact ih h
      | zero =>
          rcases List.mem_cons.mp h with rfl | h
          · exact proper_first b rest
          · exact ih h

/-- **All runes of a text are proper.** -/
theorem proper_of_mem_decode {r : Rune} {text : Bytes} (h : r ∈ decode text) : r.Proper :=
  proper_of_mem_decodeFrom h

/-- **A byte of ASCII in a proper rune is the whole of it.** -/
theorem mem_bytes_iff {r : Rune} (hr : r.Proper) {c : Char} (hc : c.toNat < 128) :
    byte c ∈ r.bytes ↔ r = .char c := by
  constructor
  · intro h
    cases r with
    | char c' =>
        by_cases hlt : c'.toNat < 128
        · rw [bytes, utf8EncodeChar_of_lt hlt, List.mem_singleton] at h
          have hnat := congrArg UInt8.toNat h
          rw [toNat_byte hc, toNat_byte hlt] at hnat
          rw [Char.toNat_inj.mp hnat]
        · have hle := le_of_mem_utf8EncodeChar (by omega) h
          rw [toNat_byte hc] at hle
          omega
    | invalid b =>
        rw [bytes, List.mem_singleton] at h
        have hle : 128 ≤ b.toNat := hr
        rw [← h, toNat_byte hc] at hle
        omega
  · rintro rfl
    rw [bytes, utf8EncodeChar_of_lt hc]
    exact List.mem_singleton_self _

/-- An ASCII byte in a text is the character. -/
theorem mem_encode_iff {rs : List Rune} (hrs : ∀ r ∈ rs, r.Proper) {c : Char}
    (hc : c.toNat < 128) : byte c ∈ encode rs ↔ .char c ∈ rs := by
  rw [encode, List.mem_flatMap]
  constructor
  · rintro ⟨r, hr, hmem⟩
    rw [← (mem_bytes_iff (hrs r hr) hc).mp hmem]
    exact hr
  · intro h
    exact ⟨_, h, (mem_bytes_iff (hrs _ h) hc).mpr rfl⟩

/-- A rune holds one line feed if it is one, and none otherwise. -/
theorem count_bytes {r : Rune} (hr : r.Proper) :
    r.bytes.count (byte '\n') = if r = .char '\n' then 1 else 0 := by
  split
  · next h =>
    rw [h]
    rfl
  · next h => exact List.count_eq_zero.mpr fun hmem => h ((mem_bytes_iff hr (by decide)).mp hmem)

end Rune

/-! ### Literal texts -/

/-- The bytes of a string are those of its characters. -/
theorem utf8_eq_encode (s : String) : utf8 s = Rune.encode (s.toList.map .char) := by
  rw [utf8, Rune.encode, List.flatMap_map]
  rfl

/-- A string can be told from its bytes. -/
@[simp] theorem utf8_inj {s t : String} : utf8 s = utf8 t ↔ s = t := by
  refine ⟨?_, congrArg utf8⟩
  intro h
  rw [utf8_eq_encode, utf8_eq_encode] at h
  exact String.ext (Rune.encode_char_inj h)

end ScriptFront.Text

namespace ScriptFront.Position

open Text

/-- Passing runes moves the line by **the number of their line feeds**. -/
theorem line_past (p : Position) {runes : List Rune} (h : ∀ r ∈ runes, r.Proper) :
    (p.past runes).line = p.line + (Rune.encode runes).count (byte '\n') := by
  induction runes generalizing p with
  | nil => rfl
  | cons r rs ih =>
      have hrest := ih (p.after r) fun r' hr' => h r' (List.mem_cons_of_mem _ hr')
      show ((p.after r).past rs).line = _
      rw [hrest, Rune.encode_cons, List.count_append, Rune.count_bytes (h r List.mem_cons_self)]
      simp only [after]
      split <;> omega

end ScriptFront.Position
