import ScriptFront.Proofs.Parallel.Alike

/-!
# Coupled Runs

A **coupling** of two parsers relates their cursors, for every number of charges left, in a way
that looking at the current token, consuming it and taking a charge all respect. Two runs of the
same computation from related cursors then end alike (`Alike.agree`): in corresponding results, or
in faults of one cause at corresponding tokens, and at related cursors again. Both have come
forward by the same measure, which is why the bounds of their loops play no part.

A coupling is given by a handful of facts about single tokens, so comparing two parsers never
looks at the grammar again.
-/

namespace ScriptFront

open Text Parse

namespace Cursor

variable {σ : Type} [TokenSource σ]

/-- Stepping never brings tokens back, not even at the end of the input. -/
theorem remaining_step_le (c : Cursor σ) : c.step.remaining ≤ c.remaining := by
  by_cases h : c.current.kind = .eof
  · have hs := TokenSource.size_next c.source
    by_cases hk : (TokenSource.next c.source).1.kind = .eof
    · simp only [remaining, step, start, h, hk, if_true] at hs ⊢
      omega
    · simp only [remaining, step, start, h, hk, if_true, if_false] at hs ⊢
      omega
  · exact Nat.le_of_lt (remaining_step_lt h)

end Cursor

variable {σ τ : Type} [TokenSource σ] [TokenSource τ]

/-- How two runs from `c` and `d` **end alike**: with results related by `Q` and at cursors related
by `R`, after a token at least if `i` says so; or in faults of one cause at corresponding tokens.
Where the left one fails for a spared cause, nothing is said of the right one. -/
inductive Agree (P : Pairing σ τ) (R : Cursor σ → Cursor τ → Prop) {α β : Type}
    (Q : α → β → Prop) (i : Bool) (c : Cursor σ) (d : Cursor τ) :
    EStateM.Result ParseFault (Cursor σ) α → EStateM.Result ParseFault (Cursor τ) β → Prop
  | ok {a : α} {b : β} {c' : Cursor σ} {d' : Cursor τ} (hQ : Q a b) (hR : R c' d')
      (hc : c'.remaining + i.toNat ≤ c.remaining) (hd : d'.remaining + i.toNat ≤ d.remaining) :
      Agree P R Q i c d (.ok a c') (.ok b d')
  | error {cause : FaultCause} {t u : Token} {c' : Cursor σ} {d' : Cursor τ}
      (h : P.corresponds t u) (hR : R c' d') (hc : c'.remaining ≤ c.remaining)
      (hd : d'.remaining ≤ d.remaining) :
      Agree P R Q i c d (.error ⟨cause, t.span⟩ c') (.error ⟨cause, u.span⟩ d')
  | spared {cause : FaultCause} {span : Span} {c' : Cursor σ}
      {r : EStateM.Result ParseFault (Cursor τ) β} (h : P.spared cause) :
      Agree P R Q i c d (.error ⟨cause, span⟩ c') r

namespace Agree

variable {P : Pairing σ τ} {R : Cursor σ → Cursor τ → Prop} {α β α' β' : Type}
  {Q : α → β → Prop} {Q' : α' → β' → Prop} {i j : Bool} {c c' : Cursor σ} {d d' : Cursor τ}

/-- What agrees from cursors further on agrees from those before. -/
theorem trans {r : EStateM.Result ParseFault (Cursor σ) α}
    {r' : EStateM.Result ParseFault (Cursor τ) β} (h : Agree P R Q j c' d' r r')
    (hc : c'.remaining + i.toNat ≤ c.remaining) (hd : d'.remaining + i.toNat ≤ d.remaining) :
    Agree P R Q (i || j) c d r r' := by
  have hor : (i || j).toNat ≤ i.toNat + j.toNat := by cases i <;> cases j <;> decide
  cases h with
  | ok hQ hR hc' hd' => exact .ok hQ hR (by omega) (by omega)
  | error h hR hc' hd' => exact .error h hR (by omega) (by omega)
  | spared h => exact .spared h

/-- Less may be said of how two runs end alike. -/
theorem weaken {Q' : α → β → Prop} {r : EStateM.Result ParseFault (Cursor σ) α}
    {r' : EStateM.Result ParseFault (Cursor τ) β} (h : Agree P R Q i c d r r')
    (hi : j = true → i = true) (hQ : ∀ a b, Q a b → Q' a b) : Agree P R Q' j c d r r' := by
  have hle : j.toNat ≤ i.toNat := by
    cases j with
    | false => exact Nat.zero_le _
    | true => exact Nat.le_of_eq (by rw [hi rfl])
  cases h with
  | ok h hR hc hd => exact .ok (hQ _ _ h) hR (by omega) (by omega)
  | error h hR hc hd => exact .error h hR hc hd
  | spared h => exact .spared h

/-- **Sequences agree** if their parts do. -/
theorem bind {x : Parse σ α} {y : Parse τ β} {f : α → Parse σ α'} {g : β → Parse τ β'}
    (hx : Agree P R Q i c d (x c) (y d))
    (hf : ∀ a b c' d', Q a b → R c' d' → c'.remaining + i.toNat ≤ c.remaining →
      d'.remaining + i.toNat ≤ d.remaining → Agree P R Q' j c' d' (f a c') (g b d')) :
    Agree P R Q' (i || j) c d ((x >>= f) c) ((y >>= g) d) := by
  change Agree P R Q' (i || j) c d (EStateM.bind x f c) (EStateM.bind y g d)
  rw [EStateM.bind, EStateM.bind]
  generalize x c = r at hx
  generalize y d = r' at hx
  cases hx with
  | ok hQ hR hc hd => exact (hf _ _ _ _ hQ hR hc hd).trans hc hd
  | error h hR hc hd => exact .error h hR hc hd
  | spared h => exact .spared h

/-- A run that succeeds leaves no more tokens than there were, and fewer if it says so. -/
theorem remaining_of_ok {a : α} {r : EStateM.Result ParseFault (Cursor τ) β}
    (h : Agree P R Q i c d (.ok a c') r) : c'.remaining + i.toNat ≤ c.remaining := by
  cases h with
  | ok _ _ hc _ => exact hc

/-- A run that fails leaves no more tokens than there were. -/
theorem remaining_of_error {f : ParseFault} {r : EStateM.Result ParseFault (Cursor τ) β}
    (h : Agree P R Q i c d (.error f c') r) (hspared : ∀ cause, ¬P.spared cause) :
    c'.remaining ≤ c.remaining := by
  cases h with
  | error _ _ hc _ => exact hc
  | spared h => exact absurd h (hspared _)

/-- **Loops agree** if their rounds do, each with a bound that is enough for the tokens it can
still meet. Induction on the bound of the left one. -/
theorem foldWithin {continues : Kind → Bool} {round : α → Parse σ α} {round' : β → Parse τ β}
    (heof : continues .eof = false) (hkind : ∀ c d, R c d → c.current.kind = d.current.kind)
    (hround : ∀ a b c d, Q a b → R c d → continues c.current.kind = true →
      Agree P R Q true c d (round a c) (round' b d))
    {m m' : Nat} {a : α} {b : β} (hQ : Q a b) (hR : R c d) (hm : c.remaining ≤ m)
    (hm' : d.remaining ≤ m') :
    Agree P R Q false c d (foldWithin continues round m a c)
      (foldWithin continues round' m' b d) := by
  induction m generalizing m' a b c d with
  | zero =>
      have hk : continues c.current.kind = false := by
        rw [Cursor.kind_eq_eof_of_remaining (Nat.le_zero.mp hm), heof]
      rw [foldWithin_stop hk, foldWithin_stop (hkind c d hR ▸ hk)]
      exact .ok hQ hR (Nat.le_refl _) (Nat.le_refl _)
  | succ m ih =>
      cases hk : continues c.current.kind with
      | false =>
          rw [foldWithin_stop hk, foldWithin_stop (hkind c d hR ▸ hk)]
          exact .ok hQ hR (Nat.le_refl _) (Nat.le_refl _)
      | true =>
          have hk' : continues d.current.kind = true := hkind c d hR ▸ hk
          obtain ⟨m', rfl⟩ : ∃ l, m' = l + 1 := by
            refine ⟨m' - 1, ?_⟩
            have hpos : d.remaining ≠ 0 := by
              intro hzero
              rw [Cursor.kind_eq_eof_of_remaining hzero, heof] at hk'
              cases hk'
            omega
          rw [foldWithin_round hk, foldWithin_round hk']
          have hboth := (hround a b c d hQ hR hk).bind
            fun a b c' d' hQ hR hc hd => ih hQ hR (Nat.le_of_lt_succ (Nat.lt_of_lt_of_le hc hm))
              (Nat.le_of_lt_succ (Nat.lt_of_lt_of_le hd hm'))
          exact hboth.weaken nofun fun _ _ h => h

end Agree

/-- **A coupling** of two parsers: which cursors go together, by the charges that the left parser
has left. -/
structure Coupling (P : Pairing σ τ) where
  rel : Nat → Cursor σ → Cursor τ → Prop
  current : ∀ {n c d}, rel n c d → P.corresponds c.current d.current
  step : ∀ {n c d}, rel n c d → rel n c.step d.step
  charged : ∀ {n : Nat} {S : Kind → Prop} {i : Bool} {α β : Type} {Q : α → β → Prop}
    {x : Parse σ α} {y : Parse τ β},
    (∀ c d, rel n c d → S c.current.kind → Agree P (rel n) Q i c d (x c) (y d)) →
    ∀ c d, rel (n + 1) c d → S c.current.kind →
      Agree P (rel (n + 1)) Q i c d (P.left.charged x c) (P.right.charged y d)
  exhausted : ∀ {i : Bool} {α β : Type} {Q : α → β → Prop} {c d}, rel 0 c d →
    Agree P (rel 0) Q i c d ((P.left.exhausted : Parse σ α) c) ((P.right.exhausted : Parse τ β) d)
  ahead : ∀ {i : Bool} {α β : Type} {Q : α → β → Prop} {y : Parse τ β} {c d}, P.ahead →
    rel 0 c d → Agree P (rel 0) Q i c d ((P.left.exhausted : Parse σ α) c) (P.right.charged y d)

/-- **The same computation ends alike** from related cursors. Induction on what makes it the
same. -/
theorem Alike.agree {P : Pairing σ τ} (K : Coupling P) {n : Nat} {S : Kind → Prop} {i : Bool}
    {α β : Type} {Q : α → β → Prop} {x : Parse σ α} {y : Parse τ β} (h : Alike P n S i Q x y) :
    ∀ c d, K.rel n c d → S c.current.kind → Agree P (K.rel n) Q i c d (x c) (y d) := by
  induction h with
  | pure h =>
      intro c d hR _
      exact .ok h hR (Nat.le_refl _) (Nat.le_refl _)
  | bind _ _ ihx ihf =>
      intro c d hR hS
      exact (ihx c d hR hS).bind fun a b c' d' hQ hR' _ _ => ihf a b hQ c' d' hR' trivial
  | weaken hS hi hQ _ ih =>
      intro c d hR hS'
      exact (ih c d hR (hS _ hS')).weaken hi hQ
  | current h ih =>
      intro c d hR hS
      rw [current_bind, current_bind]
      exact ih _ _ (K.current hR) hS c d hR rfl
  | advance h =>
      rename_i n S i
      intro c d hR hS
      refine .ok ⟨K.current hR, hS⟩ (K.step hR) ?_ ?_
      · cases i with
        | false => exact c.remaining_step_le
        | true => exact Cursor.remaining_step_lt (h rfl _ hS)
      · cases i with
        | false => exact d.remaining_step_le
        | true => exact Cursor.remaining_step_lt (P.kind_eq (K.current hR) ▸ h rfl _ hS)
  | fail h =>
      intro c d hR _
      exact .error h hR (Nat.le_refl _) (Nat.le_refl _)
  | foldWhile heof _ h ih =>
      intro c d hR _
      rw [foldWhile_eq, foldWhile_eq]
      exact Agree.foldWithin heof (fun c d hR => P.kind_eq (K.current hR))
        (fun a b c d hQ hR hk => ih a b hQ c d hR hk) h hR (Nat.le_refl _) (Nat.le_refl _)
  | charged _ ih => exact K.charged ih
  | exhausted =>
      intro c d hR _
      exact K.exhausted hR
  | ahead h =>
      intro c d hR _
      exact K.ahead h hR
  | spared h =>
      intro c d _ _
      exact .spared h

/-! ### Charges counted down by the recursion -/

/-- Where both parsers count their charges down by the recursion, a coupling is a relation of
cursors alone. -/
def Coupling.ofCursors (P : Pairing σ τ) (hleft : P.left = .plain P.left.assign)
    (hright : P.right = .plain P.right.assign) (hahead : P.ahead → P.spared .tooDeep)
    (R : Cursor σ → Cursor τ → Prop)
    (current : ∀ {c d}, R c d → P.corresponds c.current d.current)
    (step : ∀ {c d}, R c d → R c.step d.step) : Coupling P where
  rel _ := R
  current := current
  step := step
  charged h c d hR hS := by
    rw [hleft, hright]
    exact h c d hR hS
  exhausted hR := by
    rw [hleft, hright]
    exact .error (current hR) hR (Nat.le_refl _) (Nat.le_refl _)
  ahead h hR := by
    rw [hleft]
    exact .spared (hahead h)

end ScriptFront
