import ScriptFront.Proofs.Text.Encoding

/-!
# Joining and Dividing Texts

Reading the runes of two texts apart and of both together is not the same in general: the bytes on
the two sides of a joint may make up one character. **It is the same before a byte of ASCII**
(`Rune.decode_append`), since the bytes that follow the first in an encoding are all above ASCII,
and it is the same wherever reading the whole has come to the end of a rune
(`Rune.decode_encode_of_append`).
-/

namespace ScriptFront.Text.Rune

/-! ### The first rune -/

/-- The first byte says where to look: the group of the length it asks for is the first rune, or
that byte alone is. -/
theorem first_eq (b : UInt8) (rest : Bytes) :
    first b rest = match character? (b :: rest.take (following b)) with
      | some c => (.char c, following b)
      | none => (.invalid b, 0) := by
  cases hfit : character? (b :: rest.take (following b)) with
  | some c =>
      have henc := utf8EncodeChar_of_character? hfit
      have hfirst := first_of_utf8EncodeChar henc (rest.drop (following b))
      rwa [List.take_append_drop, length_tail henc] at hfirst
  | none =>
      have hnone (n : Nat) : character? (b :: rest.take n) = none := by
        cases hc : character? (b :: rest.take n) with
        | none => rfl
        | some c =>
            have hlen := length_tail (utf8EncodeChar_of_character? hc)
            have htake := List.prefix_iff_eq_take.mp (List.take_prefix n rest)
            rw [htake, hlen, hfit] at hc
            cases hc
      simp only [first, hnone, Option.map_none, List.findSome?_cons, List.findSome?_nil]

/-- No encoding goes on with a byte of ASCII. -/
theorem character?_eq_none_of_mem {b b' : UInt8} {group : Bytes} (hb : b'.toNat < 128)
    (hmem : b' ∈ group) : character? (b :: group) = none := by
  cases hc : character? (b :: group) with
  | none => rfl
  | some c =>
      exfalso
      have henc := utf8EncodeChar_of_character? hc
      by_cases hlt : c.toNat < 128
      · rw [utf8EncodeChar_of_lt hlt, List.cons.injEq] at henc
        rw [← henc.2] at hmem
        cases hmem
      · have hle := le_of_mem_utf8EncodeChar (b := b') (by omega)
          (henc ▸ List.mem_cons_of_mem b hmem)
        omega

/-- What begins with a byte of ASCII does not belong to the rune before it. -/
theorem first_append (b : UInt8) (rest : Bytes) {text : Bytes}
    (h : ∀ b ∈ text.head?, b.toNat < 128) : first b (rest ++ text) = first b rest := by
  rw [first_eq, first_eq]
  by_cases hlen : following b ≤ rest.length
  · rw [List.take_append_of_le_length hlen]
  · have hshort : (rest.take (following b)).length < following b := by
      rw [List.length_take]
      omega
    rw [character?_eq_none_of_lt hshort]
    cases text with
    | nil => rw [List.append_nil, character?_eq_none_of_lt hshort]
    | cons b' text =>
        have hmem : b' ∈ (rest ++ b' :: text).take (following b) := by
          obtain ⟨n, hn⟩ : ∃ n, following b - rest.length = n + 1 :=
            ⟨following b - rest.length - 1, by omega⟩
          rw [List.take_append, hn, List.take_succ_cons]
          exact List.mem_append_right _ List.mem_cons_self
        rw [character?_eq_none_of_mem (h b' rfl) hmem]

/-- A shorter text after an ill-formed byte leaves it ill-formed, and a character is one whatever
follows. -/
theorem first_of_append {b : UInt8} {rest text : Bytes}
    (h : (first b (rest ++ text)).2 ≤ rest.length) : first b rest = first b (rest ++ text) := by
  rw [first_eq] at h ⊢
  rw [first_eq b (rest ++ text)]
  cases hfit : character? (b :: (rest ++ text).take (following b)) with
  | some c =>
      rw [hfit] at h
      rw [List.take_append_of_le_length h] at hfit
      rw [hfit]
  | none =>
      by_cases hlen : following b ≤ rest.length
      · rw [List.take_append_of_le_length hlen] at hfit
        rw [hfit]
      · rw [character?_eq_none_of_lt]
        rw [List.length_take]
        omega

/-! ### Joints -/

/-- A rune has a byte. -/
theorem bytes_ne_nil (r : Rune) : r.bytes ≠ [] := by
  cases r with
  | char c => exact String.utf8EncodeChar_ne_nil
  | invalid b => exact List.cons_ne_nil b []

/-- Decoding takes the first rune, and goes on behind its bytes. -/
theorem decode_cons (b : UInt8) (rest : Bytes) :
    decode (b :: rest) = (first b rest).1 :: decode (rest.drop (first b rest).2) := by
  rw [← decodeFrom_eq_decode_drop]
  rfl

/-- The first rune does not take more than there is. -/
theorem length_first (b : UInt8) (rest : Bytes) : (first b rest).2 ≤ rest.length := by
  rw [first_eq]
  cases hfit : character? (b :: rest.take (following b)) with
  | none => exact Nat.zero_le _
  | some c =>
      have hlen := length_tail (utf8EncodeChar_of_character? hfit)
      rw [List.length_take] at hlen
      show following b ≤ rest.length
      omega

/-- **Texts can be joined** where the second begins with a byte of ASCII. Induction on the length of
the first, a rune at a time. -/
theorem decode_append (xs : Bytes) {ys : Bytes} (h : ∀ b ∈ ys.head?, b.toNat < 128) :
    decode (xs ++ ys) = decode xs ++ decode ys := by
  match xs with
  | [] => rfl
  | b :: rest =>
    have hle := length_first b rest
    rw [List.cons_append, decode_cons, decode_cons, first_append b rest h,
      List.drop_append_of_le_length hle, decode_append (rest.drop (first b rest).2) h,
      List.cons_append]
termination_by xs.length
decreasing_by simp only [List.length_drop, List.length_cons]; omega

/-- **A text can be divided** where reading has got to. -/
theorem decode_encode_of_append {xs ys : List Rune}
    (h : decode (encode xs ++ encode ys) = xs ++ ys) :
    decode (encode xs) = xs ∧ decode (encode ys) = ys := by
  induction xs with
  | nil => exact ⟨rfl, h⟩
  | cons r rs ih =>
      cases hr : r.bytes with
      | nil => exact absurd hr r.bytes_ne_nil
      | cons b tail =>
          rw [encode_cons, hr, List.cons_append, List.cons_append, decode_cons, List.cons_append,
            List.cons.injEq] at h
          obtain ⟨hfirst, hrest⟩ := h
          have htail := bytes_first b (tail ++ encode rs ++ encode ys)
          have hle := length_first b (tail ++ encode rs ++ encode ys)
          rw [hfirst, hr, List.cons.injEq] at htail
          have hlen : (first b (tail ++ encode rs ++ encode ys)).2 = tail.length := by
            have heq := congrArg List.length htail.2
            rw [List.length_take] at heq
            omega
          rw [hlen, List.append_assoc, List.drop_left] at hrest
          obtain ⟨hxs, hys⟩ := ih hrest
          have hsame : first b (tail ++ encode rs) = first b (tail ++ encode rs ++ encode ys) := by
            refine first_of_append ?_
            rw [hlen, List.length_append]
            omega
          refine ⟨?_, hys⟩
          rw [encode_cons, hr, List.cons_append, decode_cons, hsame, hfirst, hlen, List.drop_left,
            hxs]

end ScriptFront.Text.Rune
