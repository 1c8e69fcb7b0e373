import ScriptFront.Proofs.Consumption.Run
import ScriptFront.Proofs.Parallel.Coupling

/-!
# Termination

The loops of the parser carry a bound, so that they are recursive on it. `Parse.Runs x c k r` says
**without any bound** that `x`, begun at `c`, ends in `r` after `k` tokens: a loop is left where its
kinds end, and goes on after every round that has consumed a token, as long as that takes. The
relation is inductive, so what runs comes to an end, and no loop has more rounds than `k`.

Every computation of the grammar runs (`Alike.ends`), and to the result that the parser gives.
-/

namespace ScriptFront

open Text Parse

namespace Parse

/-- Where a computation has **ended**. -/
def finish {σ α : Type} : EStateM.Result ParseFault (Cursor σ) α → Cursor σ
  | .ok _ c => c
  | .error _ c => c

variable {σ : Type} [TokenSource σ]

/-- **A run to its end**, with the number of tokens it consumes. -/
inductive Runs :
    {α : Type} → Parse σ α → Cursor σ → Nat → EStateM.Result ParseFault (Cursor σ) α → Prop
  | pure {α : Type} {a : α} {c : Cursor σ} : Runs (pure a) c 0 (.ok a c)
  | current {c : Cursor σ} : Runs Parse.current c 0 (.ok c.current c)
  | advance {c : Cursor σ} : Runs advance c 1 (.ok c.current c.step)
  | fail {α : Type} {span : Span} {cause : FaultCause} {c : Cursor σ} :
      Runs (fail span cause : Parse σ α) c 0 (.error ⟨cause, span⟩ c)
  | tooDeep {α : Type} {c : Cursor σ} :
      Runs (tooDeep : Parse σ α) c 0 (.error ⟨.tooDeep, c.current.span⟩ c)
  | bind {α β : Type} {x : Parse σ α} {f : α → Parse σ β} {c c' : Cursor σ} {a : α} {j k : Nat}
      {r : EStateM.Result ParseFault (Cursor σ) β} (hx : Runs x c j (.ok a c'))
      (hf : Runs (f a) c' k r) : Runs (x >>= f) c (j + k) r
  | bindError {α β : Type} {x : Parse σ α} {f : α → Parse σ β} {c c' : Cursor σ} {e : ParseFault}
      {k : Nat} (hx : Runs x c k (.error e c')) : Runs (x >>= f) c k (.error e c')
  | stop {α : Type} {continues : Kind → Bool} {round : α → Parse σ α} {a : α} {c : Cursor σ}
      (hk : continues c.current.kind = false) : Runs (foldWhile continues round a) c 0 (.ok a c)
  | round {α : Type} {continues : Kind → Bool} {round : α → Parse σ α} {a b : α} {c c' : Cursor σ}
      {j k : Nat} {r : EStateM.Result ParseFault (Cursor σ) α}
      (hk : continues c.current.kind = true) (hround : Runs (round a) c j (.ok b c')) (hj : 0 < j)
      (hrest : Runs (foldWhile continues round b) c' k r) :
      Runs (foldWhile continues round a) c (j + k) r
  | roundError {α : Type} {continues : Kind → Bool} {round : α → Parse σ α} {a : α}
      {c c' : Cursor σ} {e : ParseFault} {k : Nat} (hk : continues c.current.kind = true)
      (hround : Runs (round a) c k (.error e c')) :
      Runs (foldWhile continues round a) c k (.error e c')

/-- A run goes forward by the tokens that it consumes. -/
theorem Runs.finish_eq {α : Type} {x : Parse σ α} {c : Cursor σ} {k : Nat}
    {r : EStateM.Result ParseFault (Cursor σ) α} (h : Runs x c k r) : finish r = c.forward k := by
  induction h with
  | pure | current | advance | fail | tooDeep | stop => rfl
  | bind _ _ ihx ihf => rw [Cursor.forward_add, ← ihx, ihf, finish]
  | round _ _ _ _ ihround ihrest => rw [Cursor.forward_add, ← ihround, ihrest, finish]
  | bindError _ ih | roundError _ _ ih => exact ih

/-- What leaves fewer tokens than there were has consumed one. -/
theorem Runs.pos {α : Type} {x : Parse σ α} {c : Cursor σ} {k : Nat}
    {r : EStateM.Result ParseFault (Cursor σ) α} (h : Runs x c k r)
    (hlt : (finish r).remaining < c.remaining) : 0 < k := by
  refine Nat.pos_of_ne_zero ?_
  rintro rfl
  rw [h.finish_eq] at hlt
  exact Nat.lt_irrefl _ hlt

/-- How a computation **comes to an end** that is begun at `c`: by a run, and if it succeeds, with a
result in `A` and after a token at least if `i` says so. -/
inductive Ends {α : Type} (A : α → Prop) (i : Bool) (x : Parse σ α) (c : Cursor σ) :
    EStateM.Result ParseFault (Cursor σ) α → Prop
  | ok {a : α} {c' : Cursor σ} {k : Nat} (hrun : Runs x c k (.ok a c')) (ha : A a)
      (hc : c'.remaining + i.toNat ≤ c.remaining) : Ends A i x c (.ok a c')
  | error {e : ParseFault} {c' : Cursor σ} {k : Nat} (hrun : Runs x c k (.error e c')) :
      Ends A i x c (.error e c')

namespace Ends

variable {α β : Type} {A : α → Prop} {A' : β → Prop} {i j : Bool} {x : Parse σ α} {c : Cursor σ}

/-- What comes to an end has a run. -/
theorem runs {r : EStateM.Result ParseFault (Cursor σ) α} (h : Ends A i x c r) :
    ∃ k, Runs x c k r := by
  cases h with
  | ok hrun => exact ⟨_, hrun⟩
  | error hrun => exact ⟨_, hrun⟩

/-- Less may be said of how a computation comes to an end. -/
theorem weaken {B : α → Prop} {r : EStateM.Result ParseFault (Cursor σ) α} (h : Ends A i x c r)
    (hi : j = true → i = true) (hA : ∀ a, A a → B a) : Ends B j x c r := by
  have hle : j.toNat ≤ i.toNat := by
    cases j with
    | false => exact Nat.zero_le _
    | true => exact Nat.le_of_eq (by rw [hi rfl])
  cases h with
  | ok hrun ha hc => exact .ok hrun (hA _ ha) (by omega)
  | error hrun => exact .error hrun

/-- What comes after a run that succeeds brings the whole to an end, if it comes to one itself. -/
theorem after {f : α → Parse σ β} {a : α} {c' : Cursor σ} {k : Nat}
    {r : EStateM.Result ParseFault (Cursor σ) β} (hrun : Runs x c k (.ok a c'))
    (hc : c'.remaining + i.toNat ≤ c.remaining) (h : Ends A' j (f a) c' r) :
    Ends A' (i || j) (x >>= f) c r := by
  have hor : (i || j).toNat ≤ i.toNat + j.toNat := by cases i <;> cases j <;> decide
  cases h with
  | ok hrun' ha' hc' => exact .ok (.bind hrun hrun') ha' (by omega)
  | error hrun' => exact .error (.bind hrun hrun')

/-- **Sequences end** if their parts do. -/
theorem bind {f : α → Parse σ β} (hx : Ends A i x c (x c))
    (hf : ∀ a c', A a → Ends A' j (f a) c' (f a c')) :
    Ends A' (i || j) (x >>= f) c ((x >>= f) c) := by
  change Ends A' (i || j) (x >>= f) c (EStateM.bind x f c)
  rw [EStateM.bind]
  generalize x c = r at hx
  cases hx with
  | ok hrun ha hc => exact (hf _ _ ha).after hrun hc
  | error hrun => exact .error (.bindError hrun)

/-- A loop comes to an end if it does after its first round. -/
theorem afterRound {continues : Kind → Bool} {round : α → Parse σ α} {a b : α} {c' : Cursor σ}
    {k : Nat} {r : EStateM.Result ParseFault (Cursor σ) α} (hk : continues c.current.kind = true)
    (hrun : Runs (round a) c k (.ok b c')) (hc : c'.remaining < c.remaining)
    (h : Ends A false (foldWhile continues round b) c' r) :
    Ends A false (foldWhile continues round a) c r := by
  have hpos : 0 < k := hrun.pos hc
  cases h with
  | ok hrun' ha' hc' =>
      exact .ok (.round hk hrun hpos hrun') ha' (Nat.le_trans hc' (Nat.le_of_lt hc))
  | error hrun' => exact .error (.round hk hrun hpos hrun')

/-- **Loops end**: a bound that is enough for the tokens that can still come is never reached, so
that the bounded loop gives the result of the loop without bound. Induction on the bound. -/
theorem foldWithin {continues : Kind → Bool} {round : α → Parse σ α}
    (heof : continues .eof = false)
    (hround : ∀ a c, A a → continues c.current.kind = true → Ends A true (round a) c (round a c))
    {m : Nat} {a : α} (ha : A a) (hm : c.remaining ≤ m) :
    Ends A false (foldWhile continues round a) c (foldWithin continues round m a c) := by
  induction m generalizing a c with
  | zero =>
      have hk : continues c.current.kind = false := by
        rw [Cursor.kind_eq_eof_of_remaining (Nat.le_zero.mp hm), heof]
      rw [foldWithin_stop hk]
      exact .ok (.stop hk) ha (Nat.le_refl _)
  | succ m ih =>
      cases hk : continues c.current.kind with
      | false =>
          rw [foldWithin_stop hk]
          exact .ok (.stop hk) ha (Nat.le_refl _)
      | true =>
          have hone := hround a c ha hk
          rw [foldWithin_round hk]
          change Ends A false _ c (EStateM.bind _ _ c)
          rw [EStateM.bind]
          generalize round a c = r at hone
          cases hone with
          | error hrun => exact .error (.roundError hk hrun)
          | @ok b c' _ hrun hb hc =>
              have hlt : c'.remaining < c.remaining := hc
              exact (ih hb (by omega)).afterRound hk hrun hlt

end Ends

end Parse

/-- **A computation of the grammar comes to an end** wherever it is begun. It is looked at from its
own side alone here, which is why tokens have to correspond to themselves. -/
theorem Alike.ends {σ τ : Type} [TokenSource σ] [TokenSource τ] {P : Pairing σ τ}
    (hleft : P.left = .plain P.left.assign) (hrefl : ∀ t, P.corresponds t t) {n : Nat}
    {S : Kind → Prop} {i : Bool} {α β : Type} {Q : α → β → Prop} {x : Parse σ α} {y : Parse τ β}
    (h : Alike P n S i Q x y) :
    ∀ c, S c.current.kind → Ends (fun a => ∃ b, Q a b) i x c (x c) := by
  have hexhausted {i : Bool} {α : Type} {A : α → Prop} (c : Cursor σ) :
      Ends A i (P.left.exhausted : Parse σ α) c ((P.left.exhausted : Parse σ α) c) := by
    rw [hleft]
    exact .error .tooDeep
  induction h with
  | pure h =>
      intro c _
      exact .ok .pure ⟨_, h⟩ (Nat.le_refl _)
  | bind _ _ ihx ihf =>
      intro c hS
      refine (ihx c hS).bind ?_
      rintro a c' ⟨b, hQ⟩
      exact ihf a b hQ c' trivial
  | weaken hS hi hQ _ ih =>
      intro c hS'
      exact (ih c (hS _ hS')).weaken hi fun a ⟨b, h⟩ => ⟨b, hQ a b h⟩
  | current h ih =>
      intro c hS
      exact (ih _ _ (hrefl c.current) hS c rfl).after (i := false) .current (Nat.le_refl _)
  | advance h =>
      rename_i n S i
      intro c hS
      refine .ok .advance ⟨c.current, hrefl _, hS⟩ ?_
      cases i with
      | false => exact c.remaining_step_le
      | true => exact Cursor.remaining_step_lt (h rfl _ hS)
  | fail h =>
      intro c _
      exact .error .fail
  | foldWhile heof _ h ih =>
      intro c _
      rw [foldWhile_eq]
      refine Ends.foldWithin heof ?_ ⟨_, h⟩ (Nat.le_refl _)
      rintro a c ⟨b, hQ⟩ hk
      exact ih a b hQ c hk
  | charged _ ih =>
      intro c hS
      rw [hleft]
      exact ih c hS
  | exhausted =>
      intro c _
      exact hexhausted c
  | ahead h =>
      intro c _
      exact hexhausted c
  | spared h =>
      intro c _
      exact .error .fail

end ScriptFront
