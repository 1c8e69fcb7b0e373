import ScriptFront.Proofs.Consumption.Requests
import ScriptFront.Proofs.Parallel.Termination

/-!
# Locality

What a parser gives depends only on the tokens that it has pulled. For the left of two parsers that
run in parallel the pulls are counted, and `Cursor.SameUpTo N` says that both see **the same tokens
up to the `N`th pull**, and nothing of what comes after. If the left run ends by then, the right one
ends alike (`Alike.agree_upTo`).

This is no coupling, because the cursors may cease to agree; but runs only go forward
(`Parse.Ends.pulls_le`), so they do so only after the end of the run.
-/

namespace ScriptFront

open Text Parse

variable {σ τ : Type} [TokenSource σ] [TokenSource τ]

namespace Cursor

/-- Every step is a pull. -/
theorem pulls_forward (c : Cursor (Counted σ)) (k : Nat) :
    (c.forward k).source.pulls = c.source.pulls + k := by
  induction k generalizing c with
  | zero => rfl
  | succ k ih =>
      rw [forward, ih]
      exact Nat.add_right_comm _ 1 k

/-- A cursor that is tokens behind another one has pulled as many more. -/
theorem Placed.pulls_eq {c c' : Cursor (Counted σ)} {k : Nat} (h : c.Placed k c') :
    c'.source.pulls = c.source.pulls + k := by
  rw [h.cursor, pulls_forward]

/-- Both cursors see the same tokens **up to the `N`th pull** of the left one. -/
def SameUpTo (N : Nat) (c : Cursor (Counted σ)) (d : Cursor τ) : Prop :=
  ∀ i, c.source.pulls + i ≤ N → (c.forward i).current = (d.forward i).current

namespace SameUpTo

variable {N : Nat} {c : Cursor (Counted σ)} {d : Cursor τ}

/-- Cursors that see the same tokens have the same current one, if it has been pulled by then. -/
theorem current (h : SameUpTo N c d) (hN : c.source.pulls ≤ N) : c.current = d.current :=
  h 0 hN

/-- Cursors that see the same tokens do so after a step. -/
theorem step (h : SameUpTo N c d) : SameUpTo N c.step d.step := by
  intro i hi
  have hpulls : c.step.source.pulls = c.source.pulls + 1 := c.pulls_forward 1
  exact h (i + 1) (by omega)

end SameUpTo

end Cursor

namespace Parse

/-- No computation takes back a pull. -/
theorem Ends.pulls_le {α : Type} {A : α → Prop} {i : Bool} {x : Parse (Counted σ) α}
    {c : Cursor (Counted σ)} {r : EStateM.Result ParseFault (Cursor (Counted σ)) α}
    (h : Ends A i x c r) : c.source.pulls ≤ (finish r).source.pulls := by
  obtain ⟨k, hrun⟩ := h.runs
  rw [hrun.finish_eq, Cursor.pulls_forward]
  exact Nat.le_add_right _ _

end Parse

/-- A parser whose pulls are counted beside another one. -/
def Counted.pairing : Pairing (Counted σ) τ :=
  .ofEq .strict .strict (fun _ => False) False fun _ _ _ => .inl rfl

/-- What is the same computation for two parsers comes to an end, with the pulls counted. -/
theorem Alike.ends_counted {n : Nat} {S : Kind → Prop} {i : Bool} {α β : Type} {Q : α → β → Prop}
    {x : Parse (Counted σ) α} {y : Parse τ β} (h : Alike Counted.pairing n S i Q x y)
    (c : Cursor (Counted σ)) (hS : S c.current.kind) : Ends (fun a => ∃ b, Q a b) i x c (x c) :=
  h.ends rfl (fun _ => rfl) c hS

namespace Agree

variable {P : Pairing (Counted σ) τ} {α β α' β' : Type} {Q : α → β → Prop} {Q' : α' → β' → Prop}
  {i j : Bool} {c : Cursor (Counted σ)} {d : Cursor τ} {N : Nat}

/-- **Sequences agree** up to a pull if their parts do. -/
theorem bindUpTo {x : Parse (Counted σ) α} {y : Parse τ β} {f : α → Parse (Counted σ) α'}
    {g : β → Parse τ β'}
    (hx : (finish (x c)).source.pulls ≤ N → Agree P (Cursor.SameUpTo N) Q i c d (x c) (y d))
    (hle : ∀ a c', x c = .ok a c' → c'.source.pulls ≤ (finish (f a c')).source.pulls)
    (hf : ∀ a b c' d', Q a b → Cursor.SameUpTo N c' d' → c'.remaining + i.toNat ≤ c.remaining →
      d'.remaining + i.toNat ≤ d.remaining → (finish (f a c')).source.pulls ≤ N →
      Agree P (Cursor.SameUpTo N) Q' j c' d' (f a c') (g b d'))
    (hN : (finish ((x >>= f) c)).source.pulls ≤ N) :
    Agree P (Cursor.SameUpTo N) Q' (i || j) c d ((x >>= f) c) ((y >>= g) d) := by
  have hfirst : (finish (x c)).source.pulls ≤ N := by
    cases hxc : x c with
    | ok a c' =>
        rw [bind_ok hxc] at hN
        exact Nat.le_trans (hle a c' hxc) hN
    | error e c' =>
        rw [bind_error hxc] at hN
        exact hN
  have hagree := hx hfirst
  change (finish (EStateM.bind x f c)).source.pulls ≤ N at hN
  change Agree P _ Q' (i || j) c d (EStateM.bind x f c) (EStateM.bind y g d)
  rw [EStateM.bind] at hN ⊢
  rw [EStateM.bind]
  generalize x c = r at hagree hN
  generalize y d = r' at hagree
  cases hagree with
  | ok hQ hR hc hd => exact (hf _ _ _ _ hQ hR hc hd hN).trans hc hd
  | error h hR hc hd => exact .error h hR hc hd
  | spared h => exact .spared h

/-- **Loops agree** up to a pull if their rounds do. Induction on the bound of the left one. -/
theorem foldWithinUpTo {continues : Kind → Bool} {round : α → Parse (Counted σ) α}
    {round' : β → Parse τ β} (heof : continues .eof = false)
    (hends : ∀ a c, (∃ b, Q a b) → continues c.current.kind = true →
      Ends (fun a => ∃ b, Q a b) true (round a) c (round a c))
    (hround : ∀ a b c d, Q a b → Cursor.SameUpTo N c d → continues c.current.kind = true →
      (finish (round a c)).source.pulls ≤ N →
      Agree P (Cursor.SameUpTo N) Q true c d (round a c) (round' b d))
    {m m' : Nat} {a : α} {b : β} (hQ : Q a b) (hR : Cursor.SameUpTo N c d)
    (hm : c.remaining ≤ m) (hm' : d.remaining ≤ m')
    (hN : (finish (Parse.foldWithin continues round m a c)).source.pulls ≤ N) :
    Agree P (Cursor.SameUpTo N) Q false c d (Parse.foldWithin continues round m a c)
      (Parse.foldWithin continues round' m' b d) := by
  induction m generalizing m' a b c d with
  | zero =>
      have hk : continues c.current.kind = false := by
        rw [Cursor.kind_eq_eof_of_remaining (Nat.le_zero.mp hm), heof]
      have hcur : c.current = d.current := hR.current hN
      rw [foldWithin_stop hk, foldWithin_stop (hcur ▸ hk)]
      exact .ok hQ hR (Nat.le_refl _) (Nat.le_refl _)
  | succ m ih =>
      have hcur := hR.current
        (Nat.le_trans (Ends.foldWithin heof hends ⟨b, hQ⟩ hm).pulls_le hN)
      cases hk : continues c.current.kind with
      | false =>
          rw [foldWithin_stop hk, foldWithin_stop (hcur ▸ hk)]
          exact .ok hQ hR (Nat.le_refl _) (Nat.le_refl _)
      | true =>
          have hk' : continues d.current.kind = true := hcur ▸ hk
          obtain ⟨m', rfl⟩ : ∃ l, m' = l + 1 := by
            refine ⟨m' - 1, ?_⟩
            have hpos : d.remaining ≠ 0 := by
              intro hzero
              rw [Cursor.kind_eq_eof_of_remaining hzero, heof] at hk'
              cases hk'
            omega
          rw [foldWithin_round hk] at hN ⊢
          rw [foldWithin_round hk']
          refine (bindUpTo (j := false) (hround a b c d hQ hR hk) ?_ ?_ hN).weaken nofun
            fun _ _ h => h
          · intro a' c' ha'
            have hone := hends a c ⟨b, hQ⟩ hk
            rw [ha'] at hone
            cases hone with
            | ok _ hA hc =>
                have hm' : c'.remaining ≤ m := Nat.le_of_lt_succ (Nat.lt_of_lt_of_le hc hm)
                exact (Ends.foldWithin heof hends hA hm').pulls_le
          · intro a b c' d' hQ hR hc hd hN
            exact ih hQ hR (Nat.le_of_lt_succ (Nat.lt_of_lt_of_le hc hm))
              (Nat.le_of_lt_succ (Nat.lt_of_lt_of_le hd hm')) hN

end Agree

/-- **The same computation ends alike** where the left one has pulled nothing but tokens that both
see. Induction on what makes it the same. -/
theorem Alike.agree_upTo {N n : Nat} {S : Kind → Prop} {i : Bool} {α β : Type} {Q : α → β → Prop}
    {x : Parse (Counted σ) α} {y : Parse τ β} (h : Alike Counted.pairing n S i Q x y) :
    ∀ c d, Cursor.SameUpTo N c d → S c.current.kind → (finish (x c)).source.pulls ≤ N →
      Agree Counted.pairing (Cursor.SameUpTo N) Q i c d (x c) (y d) := by
  induction h with
  | pure h =>
      intro c d hR _ _
      exact .ok h hR (Nat.le_refl _) (Nat.le_refl _)
  | bind hx hf ihx ihf =>
      intro c d hR hS hN
      refine Agree.bindUpTo (ihx c d hR hS) (fun a c' ha => ?_)
        (fun a b c' d' hQ hR' _ _ hN' => ihf a b hQ c' d' hR' trivial hN') hN
      have hends := hx.ends_counted c hS
      rw [ha] at hends
      cases hends with
      | ok _ hA _ =>
          obtain ⟨b, hQ⟩ := hA
          exact ((hf a b hQ).ends_counted c' trivial).pulls_le
  | weaken hS hi hQ _ ih =>
      intro c d hR hS' hN
      exact (ih c d hR (hS _ hS') hN).weaken hi hQ
  | current h ih =>
      intro c d hR hS hN
      have hle := ((h c.current c.current rfl hS).ends_counted c rfl).pulls_le
      rw [current_bind] at hN ⊢
      rw [current_bind]
      exact ih _ _ (hR.current (Nat.le_trans hle hN)) hS c d hR rfl hN
  | advance h =>
      rename_i n S i
      intro c d hR hS hN
      have hcur := hR.current (Nat.le_trans (Nat.le_succ _) hN)
      refine .ok ⟨hcur, hS⟩ hR.step ?_ ?_
      · cases i with
        | false => exact c.remaining_step_le
        | true => exact Cursor.remaining_step_lt (h rfl _ hS)
      · cases i with
        | false => exact d.remaining_step_le
        | true => exact Cursor.remaining_step_lt (hcur ▸ h rfl _ hS)
  | fail h =>
      intro c d hR _ _
      exact .error h hR (Nat.le_refl _) (Nat.le_refl _)
  | foldWhile heof hround h ih =>
      intro c d hR _ hN
      rw [foldWhile_eq] at hN ⊢
      rw [foldWhile_eq]
      refine Agree.foldWithinUpTo heof ?_ (fun a b c d hQ hR hk hN => ih a b hQ c d hR hk hN) h hR
        (Nat.le_refl _) (Nat.le_refl _) hN
      rintro a c ⟨b, hQ⟩ hk
      exact (hround a b hQ).ends_counted c hk
  | charged _ ih => exact ih
  | exhausted =>
      intro c d hR _ hN
      exact .error (hR.current hN) hR (Nat.le_refl _) (Nat.le_refl _)
  | ahead h => exact h.elim
  | spared h => exact h.elim

/-! ### Sessions -/

namespace Parser

omit [TokenSource σ] in
/-- A parser that has run stands where its run has ended. -/
theorem cursor_run {α : Type} (p : Parser σ) (x : Parse σ α) :
    (p.run x).2.cursor = finish (x p.cursor) := by
  rw [run]
  cases x p.cursor <;> rfl

variable {p : Parser (Counted σ)} {q : Parser τ} {N : Nat}

/-- **The step**: a request for which nothing is pulled but tokens that both parsers see is answered
alike. -/
theorem ask_upTo (hlimit : p.limit = q.limit) (h : p.cursor.SameUpTo N q.cursor) (r : Request)
    (hN : (p.ask r).2.cursor.source.pulls ≤ N) :
    (p.ask r).1 = (q.ask r).1 ∧ (p.ask r).2.cursor.SameUpTo N (q.ask r).2.cursor := by
  rw [ask_eq_run] at hN
  rw [ask_eq_run, ask_eq_run, ← hlimit]
  rw [cursor_run] at hN
  have hanswer := Alike.answer (P := (Counted.pairing : Pairing (Counted σ) τ)) (.inl rfl) p.limit r
  have hagree := hanswer.agree_upTo p.cursor q.cursor h trivial hN
  exact hagree.run_eq (fun _ _ h => h) fun _ h => h

/-- **The run**: so is every list of requests. -/
theorem after_upTo (hlimit : p.limit = q.limit) (h : p.cursor.SameUpTo N q.cursor)
    (requests : List Request) (hN : (p.after requests).cursor.source.pulls ≤ N) :
    (p.after requests).cursor.SameUpTo N (q.after requests).cursor := by
  induction requests generalizing p q with
  | nil => exact h
  | cons r requests ih =>
      have hlimit' : (p.ask r).2.limit = (q.ask r).2.limit := by
        rw [limit_ask, limit_ask, hlimit]
      obtain ⟨k, hk⟩ := placed_after (p := (p.ask r).2) (Cursor.consumes_nil _).placed requests
      have hask : (p.ask r).2.cursor.source.pulls ≤ N := by
        have hpulls := hk.pulls_eq
        change ((p.ask r).2.after requests).cursor.source.pulls ≤ N at hN
        omega
      exact ih hlimit' (ask_upTo hlimit h r hask).2 hN

end Parser

end ScriptFront
