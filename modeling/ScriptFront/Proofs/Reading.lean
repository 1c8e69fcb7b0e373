import ScriptFront.Parser.Session
import ScriptFront.Proofs.Grammar

/-!
# Reading Symbols

What a successful parse does to its cursor is **to read symbols**: `c.Reads ss c'` says that the
tokens from `c` on stand for the symbols `ss`, and that `c'` is where they end. The relation is the
meeting point of the two halves of the theory. Soundness concludes it of every successful run, and
completeness starts from it, so neither mentions a source of tokens in particular.

The second half of the module says what a successful run of each primitive of the parsing monad is
(`Parse.bind_eq_ok_iff`, `Parse.expect_eq_ok_iff`, …). After it nothing unfolds the monad.
-/

namespace ScriptFront

open Text

/-- A token that stands for a symbol is not the end of the input. -/
theorem Token.kind_ne_eof_of_symbol? {t : Token} {s : Symbol} (h : t.symbol? = some s) :
    t.kind ≠ .eof := by
  intro hk
  simp [Token.symbol?, hk] at h

namespace Cursor

variable {σ : Type} [TokenSource σ]

/-! ### Reading -/

/-- **Reading** the symbols from one cursor leads to the other. -/
def Reads : Cursor σ → List Symbol → Cursor σ → Prop
  | c, [], c' => c = c'
  | c, s :: ss, c' => c.current.symbol? = some s ∧ c.step.Reads ss c'

/-- No symbols are read where the cursor stays. -/
@[simp] theorem reads_nil {c c' : Cursor σ} : c.Reads [] c' ↔ c = c' := Iff.rfl

/-- The first symbol is read from the current token, and the others behind it. -/
@[simp] theorem reads_cons {c c' : Cursor σ} {s : Symbol} {ss : List Symbol} :
    c.Reads (s :: ss) c' ↔ c.current.symbol? = some s ∧ c.step.Reads ss c' := Iff.rfl

/-- Symbols in a row are read one part after the other. -/
theorem reads_append {c c'' : Cursor σ} {ss ts : List Symbol} :
    c.Reads (ss ++ ts) c'' ↔ ∃ c', c.Reads ss c' ∧ c'.Reads ts c'' := by
  induction ss generalizing c with
  | nil => simp
  | cons s ss ih =>
      rw [List.cons_append, reads_cons, ih]
      constructor
      · rintro ⟨hs, c', h, h'⟩
        exact ⟨c', ⟨hs, h⟩, h'⟩
      · rintro ⟨c', ⟨hs, h⟩, h'⟩
        exact ⟨hs, c', h, h'⟩

/-- Symbols that are read in turn are read together. -/
theorem Reads.append {c c' c'' : Cursor σ} {ss ts : List Symbol} (h : c.Reads ss c')
    (h' : c'.Reads ts c'') : c.Reads (ss ++ ts) c'' :=
  reads_append.mpr ⟨c', h, h'⟩

/-- Stepping over a token that is not the end of the input uses up the bound. -/
theorem remaining_step_lt {c : Cursor σ} (h : c.current.kind ≠ .eof) :
    c.step.remaining < c.remaining := by
  have hs := TokenSource.size_next c.source
  by_cases hk : (TokenSource.next c.source).1.kind = .eof
  · simp only [remaining, step, start, if_neg h, hk, if_true] at hs ⊢
    omega
  · simp only [remaining, step, start, if_neg h, hk, if_false] at hs ⊢
    omega

/-- Every symbol that is read is a token that remained. -/
theorem Reads.remaining_le {c c' : Cursor σ} {ss : List Symbol} (h : c.Reads ss c') :
    c'.remaining + ss.length ≤ c.remaining := by
  induction ss generalizing c with
  | nil =>
      rw [reads_nil] at h
      subst h
      simp
  | cons s ss ih =>
      obtain ⟨hs, h⟩ := reads_cons.mp h
      have hlt := remaining_step_lt (Token.kind_ne_eof_of_symbol? hs)
      have hle := ih h
      rw [List.length_cons]
      omega

/-- Reading at least one symbol leaves a smaller bound. -/
theorem Reads.remaining_lt {c c' : Cursor σ} {ss : List Symbol} (h : c.Reads ss c')
    (hss : ss ≠ []) : c'.remaining < c.remaining := by
  have hle := h.remaining_le
  have hpos := List.length_pos_iff.mpr hss
  omega

/-- Where nothing is left, the current token is the end of the input. -/
theorem kind_eq_eof_of_remaining {c : Cursor σ} (h : c.remaining = 0) :
    c.current.kind = .eof := by
  by_cases hk : c.current.kind = .eof
  · exact hk
  · simp [remaining, hk] at h

/-! ### Names -/

end Cursor

/-- An identifier **carries a name**: a word that is not empty and not a keyword. -/
def Token.Named (t : Token) : Prop :=
  t.kind = .identifier → t.value ≠ [] ∧ Kind.ofWord t.value = .identifier

/-- Whether a token carries a name where it should can be decided. -/
instance (t : Token) : Decidable t.Named :=
  inferInstanceAs (Decidable (_ → _))

namespace Cursor

variable {σ : Type} [TokenSource σ]

/-- Every identifier that can be reached by reading carries a name. -/
def Named (c : Cursor σ) : Prop :=
  ∀ ss c', c.Reads ss c' → c'.current.Named

/-- The current token carries a name if it is an identifier. -/
theorem Named.current {c : Cursor σ} (h : c.Named) : c.current.Named :=
  h [] c rfl

/-- Identifiers carry names also after some have been read. -/
theorem Named.of_reads {c c' : Cursor σ} {ss : List Symbol} (h : c.Named) (hr : c.Reads ss c') :
    c'.Named :=
  fun ts c'' hr' => h (ss ++ ts) c'' (hr.append hr')

end Cursor

namespace Parse

variable {σ : Type} {α β : Type}

/-! ### Successful runs -/

/-- A sequence succeeds where its parts do, one after the other. -/
theorem bind_eq_ok_iff {x : Parse σ α} {f : α → Parse σ β} {c c'' : Cursor σ} {b : β} :
    (x >>= f) c = .ok b c'' ↔ ∃ a c', x c = .ok a c' ∧ f a c' = .ok b c'' := by
  show EStateM.bind x f c = _ ↔ _
  rw [EStateM.bind]
  cases x c with
  | ok a c' =>
      constructor
      · intro h
        exact ⟨a, c', rfl, h⟩
      · rintro ⟨a', c₁, heq, h⟩
        cases heq
        exact h
  | error e c' => simp

/-- A result by itself leaves the cursor where it is. -/
@[simp] theorem pure_eq_ok_iff {a b : α} {c c' : Cursor σ} :
    (pure a : Parse σ α) c = .ok b c' ↔ a = b ∧ c = c' := by
  show EStateM.Result.ok a c = .ok b c' ↔ _
  simp

/-- A function of the result succeeds if the parser does. -/
theorem map_eq_ok_iff {f : α → β} {x : Parse σ α} {c c' : Cursor σ} {b : β} :
    (f <$> x) c = .ok b c' ↔ ∃ a, x c = .ok a c' ∧ f a = b := by
  show EStateM.map f x c = _ ↔ _
  rw [EStateM.map]
  cases x c with
  | ok a c₁ =>
      constructor
      · intro h
        cases h
        exact ⟨a, rfl, rfl⟩
      · rintro ⟨a', heq, rfl⟩
        cases heq
        rfl
  | error e c₁ => simp

/-- What comes after a success goes on from there. -/
theorem bind_ok {x : Parse σ α} {f : α → Parse σ β} {c c' : Cursor σ} {a : α}
    (h : x c = .ok a c') : (x >>= f) c = f a c' := by
  show EStateM.bind x f c = _
  simp only [EStateM.bind, h]

/-- Nothing comes after a fault. -/
theorem bind_error {x : Parse σ α} {f : α → Parse σ β} {c c' : Cursor σ} {e : ParseFault}
    (h : x c = .error e c') : (x >>= f) c = .error e c' := by
  show EStateM.bind x f c = _
  simp only [EStateM.bind, h]

/-- Looking at the kind of the current token consumes nothing. -/
@[simp] theorem kind_bind (f : Kind → Parse σ β) (c : Cursor σ) :
    (Parse.kind >>= f) c = f c.current.kind c := rfl

/-- Looking at the current token consumes nothing. -/
@[simp] theorem current_bind (f : Token → Parse σ β) (c : Cursor σ) :
    (Parse.current >>= f) c = f c.current c := rfl

/-- An unexpected token is no success. -/
@[simp] theorem unexpected_ne_ok {cause : Token → FaultCause} {c c' : Cursor σ} {a : α} :
    unexpected cause c ≠ .ok a c' := by
  simp [unexpected]

/-- A fault is no success. -/
@[simp] theorem fail_ne_ok {span : Span} {cause : FaultCause} {c c' : Cursor σ} {a : α} :
    fail span cause c ≠ .ok a c' := by
  simp [fail]

/-- Excessive nesting is no success. -/
@[simp] theorem tooDeep_ne_ok {c c' : Cursor σ} {a : α} :
    tooDeep c ≠ .ok a c' := by
  simp [tooDeep]

variable [TokenSource σ]

/-- An advance gives the current token and goes on behind it. -/
@[simp] theorem advance_bind (f : Token → Parse σ β) (c : Cursor σ) :
    (advance >>= f) c = f c.current c.step := rfl

/-- An advance always succeeds, with the current token. -/
theorem advance_eq_ok_iff {c c' : Cursor σ} {t : Token} :
    advance c = .ok t c' ↔ t = c.current ∧ c' = c.step := by
  simp [advance, eq_comm]

/-- A punctuation mark that is expected is there if the parser succeeds. -/
theorem expect_eq_ok_iff {p : Punctuator} {c c' : Cursor σ} {t : Token} :
    expect p c = .ok t c' ↔ c.current.kind = .punctuator p ∧ t = c.current ∧ c' = c.step := by
  simp only [expect, expectKind, kind_bind]
  split
  · next h => simp [h, advance_eq_ok_iff]
  · next h => simp [h]

/-- An identifier that is expected is there if the parser succeeds. -/
theorem identifier_eq_ok_iff {c c' : Cursor σ} {t : Token} :
    identifier c = .ok t c' ↔ c.current.kind = .identifier ∧ t = c.current ∧ c' = c.step := by
  simp only [identifier, kind_bind]
  split
  · next h => simp [h, advance_eq_ok_iff]
  · next h => simp [h]

/-- Where the delimiter is current, it is accepted. -/
theorem accept_of_eq {p : Punctuator} {c : Cursor σ} (h : c.current.kind = .punctuator p) :
    accept p c = .ok true c.step := by
  simp only [accept, kind_bind, if_pos h, advance_bind]
  rfl

/-- Where another token is current, nothing is consumed. -/
theorem accept_of_ne {p : Punctuator} {c : Cursor σ} (h : c.current.kind ≠ .punctuator p) :
    accept p c = .ok false c := by
  simp only [accept, kind_bind, if_neg h]
  rfl

/-! ### Reading one symbol -/

/-- A token of a punctuator's kind stands for its symbol. -/
theorem symbol?_punct {t : Token} {p : Punctuator} (h : t.kind = .punctuator p) :
    t.symbol? = some (.punct p) := by
  simp [Token.symbol?, h]

/-- A token of a keyword stands for the keyword. -/
theorem symbol?_word {t : Token} {k : Keyword} (h : t.kind = .keyword k) :
    t.symbol? = some (.word k) := by
  simp [Token.symbol?, h]

/-- A token of an identifier stands for its name. -/
theorem symbol?_name {t : Token} (h : t.kind = .identifier) :
    t.symbol? = some (.name t.value) := by
  simp [Token.symbol?, h]

/-- A punctuator, whichever it is, is read as its own kind. -/
theorem reads_punctuator {c : Cursor σ} (h : ∃ p, c.current.kind = .punctuator p) :
    c.Reads [.fixed c.current.kind] c.step := by
  obtain ⟨p, hp⟩ := h
  refine ⟨?_, rfl⟩
  rw [hp]
  exact symbol?_punct hp

/-- A punctuation mark that is expected is read. -/
theorem reads_of_expect {p : Punctuator} {c c' : Cursor σ} {t : Token}
    (h : expect p c = .ok t c') : c.Reads [.punct p] c' := by
  obtain ⟨hk, -, rfl⟩ := expect_eq_ok_iff.mp h
  exact ⟨symbol?_punct hk, rfl⟩

/-- An identifier that is expected is read. -/
theorem reads_of_identifier {c c' : Cursor σ} {t : Token} (h : identifier c = .ok t c') :
    c.Reads [.name t.value] c' := by
  obtain ⟨hk, rfl, rfl⟩ := identifier_eq_ok_iff.mp h
  exact ⟨symbol?_name hk, rfl⟩

end Parse

end ScriptFront
