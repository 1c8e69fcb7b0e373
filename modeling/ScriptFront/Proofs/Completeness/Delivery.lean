import ScriptFront.Proofs.Reading

/-!
# Delivering under a Nesting Limit

Completeness has **two outcomes**. On tokens that spell a canonical tree a parser returns the tree
where the nesting it needs fits into the charges left; where it does not fit, the run ends in the
fault of the nesting limit and in no other. `Parse.Delivers` states both at once, with the
condition as a proposition, so that a sequence of parsers delivers under the conjunction of the
conditions of its parts (`Parse.Delivers.bind`).

Loops are followed round by round. `Parse.Arrives` says that a parser has come as far as an
intermediate result of a loop, with enough of the bound left for every token that can still come;
`Parse.Arrives.next` goes on by one round and `Parse.Arrives.stop` leaves the loop.
-/

namespace ScriptFront

open Text

namespace Parse

variable {σ : Type} {α β : Type}

/-- The run ends in the fault of the nesting limit. -/
def EndsTooDeep (x : Parse σ α) (c : Cursor σ) : Prop :=
  ∃ span c', x c = .error ⟨.tooDeep, span⟩ c'

/-- The parser **delivers** `a` and stops at `c'` if the condition holds; otherwise it ends in the
fault of the nesting limit. -/
def Delivers (x : Parse σ α) (c : Cursor σ) (fits : Prop) (a : α) (c' : Cursor σ) : Prop :=
  (fits → x c = .ok a c') ∧ (¬fits → x.EndsTooDeep c)

/-- What ends too deep ends so whatever is to come after it. -/
theorem EndsTooDeep.bind {x : Parse σ α} {f : α → Parse σ β} {c : Cursor σ}
    (h : x.EndsTooDeep c) : (x >>= f).EndsTooDeep c := by
  obtain ⟨span, c', h⟩ := h
  exact ⟨span, c', bind_error h⟩

namespace Delivers

variable {x : Parse σ α} {f : α → Parse σ β} {c c' c'' : Cursor σ} {a : α} {b : β} {P Q : Prop}

/-- The condition on the depth may be replaced by an equivalent one. -/
theorem congr (h : x.Delivers c P a c') (hPQ : P ↔ Q) : x.Delivers c Q a c' :=
  ⟨fun hQ => h.1 (hPQ.mpr hQ), fun hQ => h.2 fun hP => hQ (hPQ.mp hP)⟩

/-- A sequence delivers under both conditions. -/
theorem bind (hx : x.Delivers c P a c') (hf : (f a).Delivers c' Q b c'') :
    (x >>= f).Delivers c (P ∧ Q) b c'' := by
  constructor
  · rintro ⟨hP, hQ⟩
    rw [bind_ok (hx.1 hP)]
    exact hf.1 hQ
  · intro hPQ
    by_cases hP : P
    · obtain ⟨span, c₁, h⟩ := hf.2 fun hQ => hPQ ⟨hP, hQ⟩
      exact ⟨span, c₁, by rw [bind_ok (hx.1 hP), h]⟩
    · exact (hx.2 hP).bind

/-- What comes after a parser that has succeeded delivers under its own condition. -/
theorem of_bind_ok (hx : x c = .ok a c') (hf : (f a).Delivers c' Q b c'') :
    (x >>= f).Delivers c Q b c'' := by
  constructor
  · intro hQ
    rw [bind_ok hx]
    exact hf.1 hQ
  · intro hQ
    obtain ⟨span, c₁, h⟩ := hf.2 hQ
    exact ⟨span, c₁, by rw [bind_ok hx, h]⟩

/-- Once nothing can fail any more, the condition is the one of what came before. -/
theorem then_ok (hx : x.Delivers c P a c') (hf : f a c' = .ok b c'') :
    (x >>= f).Delivers c P b c'' := by
  constructor
  · intro hP
    rw [bind_ok (hx.1 hP), hf]
  · intro hP
    exact (hx.2 hP).bind

/-- A parser that runs like another delivers like it. -/
theorem of_run_eq {y : Parse σ α} {c₁ : Cursor σ} (hy : y.Delivers c₁ P a c')
    (h : x c = y c₁) : x.Delivers c P a c' := by
  constructor
  · intro hP
    rw [h, hy.1 hP]
  · intro hP
    obtain ⟨span, c₂, he⟩ := hy.2 hP
    exact ⟨span, c₂, by rw [h, he]⟩

end Delivers

/-- What succeeds under a condition that holds is delivered. -/
theorem delivers_of_ok {x : Parse σ α} {c c' : Cursor σ} {a : α} {P : Prop} (hP : P)
    (h : x c = .ok a c') : x.Delivers c P a c' :=
  ⟨fun _ => h, fun hn => absurd hP hn⟩

/-- Without a charge nothing is delivered. -/
theorem delivers_tooDeep {c c' : Cursor σ} {a : α} {P : Prop} (hP : ¬P) :
    (tooDeep : Parse σ α).Delivers c P a c' :=
  ⟨fun h => absurd h hP, fun _ => ⟨_, _, rfl⟩⟩

/-- A loop whose condition fails leaves everything as it is. -/
theorem foldWithin_stop {continues : Kind → Bool} {round : α → Parse σ α} {c : Cursor σ}
    (h : continues c.current.kind = false) (bound : Nat) (a : α) :
    foldWithin continues round bound a c = .ok a c := by
  cases bound with
  | zero => rfl
  | succ bound =>
      simp only [foldWithin, kind_bind, h]
      rfl

/-- A loop whose condition holds makes a round and goes on. -/
theorem foldWithin_round {continues : Kind → Bool} {round : α → Parse σ α} {c : Cursor σ}
    (h : continues c.current.kind = true) (bound : Nat) (a : α) :
    foldWithin continues round (bound + 1) a c =
      (round a >>= foldWithin continues round bound) c := by
  simp only [foldWithin, kind_bind, h]
  rfl

variable [TokenSource σ]

/-! ### Consuming one symbol -/

/-- A punctuation mark that is there can be expected. -/
theorem expect_run {p : Punctuator} {c : Cursor σ} (h : c.current.symbol? = some (.punct p)) :
    expect p c = .ok c.current c.step :=
  expect_eq_ok_iff.mpr ⟨Token.kind_of_symbol? h, rfl, rfl⟩

/-- An identifier that is there can be expected. -/
theorem identifier_run {name : Bytes} {c : Cursor σ} (h : c.current.symbol? = some (.name name)) :
    identifier c = .ok c.current c.step :=
  identifier_eq_ok_iff.mpr ⟨Token.kind_of_symbol? h, rfl, rfl⟩

/-! ### Loops -/

/-- The parser has **arrived** at the intermediate result `a` of a loop, with a bound that is
enough for the tokens from `c'` on. -/
def Arrives (x : Parse σ α) (c : Cursor σ) (fits : Prop) (continues : Kind → Bool)
    (round : α → Parse σ α) (a : α) (c' : Cursor σ) : Prop :=
  (fits → ∃ bound, c'.remaining ≤ bound ∧ x c = foldWithin continues round bound a c') ∧
    (¬fits → x.EndsTooDeep c)

/-- A loop runs as one with the bound of its cursor, whether it makes a round or not. -/
theorem foldWhile_eq (continues : Kind → Bool) (round : α → Parse σ α) (a : α) (c : Cursor σ) :
    foldWhile continues round a c = foldWithin continues round c.remaining a c := by
  rw [foldWhile]
  split
  · rfl
  · next h => rw [foldWithin_stop (by simpa using h)]

namespace Arrives

variable {x : Parse σ α} {c c' c'' : Cursor σ} {P Q : Prop} {continues : Kind → Bool}
  {round : α → Parse σ α} {a b : α}

/-- The condition on the depth may be replaced by an equivalent one. -/
theorem congr (h : x.Arrives c P continues round a c') (hPQ : P ↔ Q) :
    x.Arrives c Q continues round a c' :=
  ⟨fun hQ => h.1 (hPQ.mpr hQ), fun hQ => h.2 fun hP => hQ (hPQ.mp hP)⟩

/-- Entering a loop with what was delivered before it. -/
theorem start (h : x.Delivers c P a c') :
    (x >>= foldWhile continues round).Arrives c P continues round a c' := by
  constructor
  · intro hP
    exact ⟨c'.remaining, Nat.le_refl _, by rw [bind_ok (h.1 hP), foldWhile_eq]⟩
  · intro hP
    exact (h.2 hP).bind

/-- **One more round.** The bound is enough because the round has consumed something. -/
theorem next (h : x.Arrives c P continues round a c') (hk : continues c'.current.kind = true)
    (heof : continues .eof = false) (hround : (round a).Delivers c' Q b c'')
    (hlt : c''.remaining < c'.remaining) : x.Arrives c (P ∧ Q) continues round b c'' := by
  constructor
  · rintro ⟨hP, hQ⟩
    obtain ⟨bound, hbound, hx⟩ := h.1 hP
    obtain ⟨bound, rfl⟩ : ∃ n, bound = n + 1 := ⟨bound - 1, by omega⟩
    refine ⟨bound, by omega, ?_⟩
    rw [hx, foldWithin_round hk, bind_ok (hround.1 hQ)]
  · intro hPQ
    by_cases hP : P
    · obtain ⟨bound, hbound, hx⟩ := h.1 hP
      have hpos : c'.remaining ≠ 0 := by
        intro hzero
        rw [Cursor.kind_eq_eof_of_remaining hzero, heof] at hk
        cases hk
      obtain ⟨bound, rfl⟩ : ∃ n, bound = n + 1 := ⟨bound - 1, by omega⟩
      obtain ⟨span, c₁, he⟩ := hround.2 fun hQ => hPQ ⟨hP, hQ⟩
      exact ⟨span, c₁, by rw [hx, foldWithin_round hk, bind_error he]⟩
    · exact h.2 hP

/-- **Leaving the loop** at a token that does not continue it. -/
theorem stop (h : x.Arrives c P continues round a c') (hk : continues c'.current.kind = false) :
    x.Delivers c P a c' := by
  refine ⟨fun hP => ?_, h.2⟩
  obtain ⟨bound, -, hx⟩ := h.1 hP
  rw [hx, foldWithin_stop hk]

end Arrives

/-! ### Lists of items -/

/-- **A list of items is delivered** if every item begins with a kind that allows one, is delivered
wherever a kind of the class `F` follows, and itself begins with such a kind; and if the list is
left at a token of that class that allows no further item. Induction on the list. The token after
the first item begins the second one, or is the one that the list is left at. -/
theorem collectWithin_delivers {continues : Kind → Bool} {item : Parse σ α}
    {S : α → List Symbol} {N : α → Prop} {F : Kind → Prop} {as : List α} {c c' : Cursor σ}
    {bound : Nat}
    (hhead : ∀ a ∈ as, ∀ c c₁ : Cursor σ, c.Reads (S a) c₁ →
      continues c.current.kind = true ∧ F c.current.kind ∧ c₁.remaining < c.remaining)
    (hitem : ∀ a ∈ as, ∀ c c₁, c.Reads (S a) c₁ → F c₁.current.kind →
      item.Delivers c (N a) a c₁)
    (hr : c.Reads (as.flatMap S) c') (hF : F c'.current.kind)
    (hstop : continues c'.current.kind = false) (hb : c.remaining ≤ bound) :
    (collectWithin continues item bound).Delivers c (∀ a ∈ as, N a) as c' := by
  induction as generalizing c bound with
  | nil =>
      rw [List.flatMap_nil, Cursor.reads_nil] at hr
      subst hr
      refine delivers_of_ok (by simp) ?_
      cases bound with
      | zero => rfl
      | succ bound =>
          simp only [collectWithin, kind_bind, hstop]
          rfl
  | cons a as ih =>
      rw [List.flatMap_cons] at hr
      obtain ⟨c₁, hr₁, hr₂⟩ := Cursor.reads_append.mp hr
      obtain ⟨hk, -, hlt⟩ := hhead a List.mem_cons_self c c₁ hr₁
      obtain ⟨bound, rfl⟩ : ∃ n, bound = n + 1 := ⟨bound - 1, by omega⟩
      have hnext : F c₁.current.kind := by
        cases as with
        | nil =>
            rw [List.flatMap_nil, Cursor.reads_nil] at hr₂
            exact hr₂ ▸ hF
        | cons b bs =>
            rw [List.flatMap_cons] at hr₂
            obtain ⟨c₂, hr₂, -⟩ := Cursor.reads_append.mp hr₂
            exact (hhead b (by simp) c₁ c₂ hr₂).2.1
      have hbound : c₁.remaining ≤ bound := by omega
      have htail := ih (fun b hb => hhead b (List.mem_cons_of_mem _ hb))
        (fun b hb => hitem b (List.mem_cons_of_mem _ hb)) hr₂ hbound
      have hall : (do
          let a ← item
          let rest ← collectWithin continues item bound
          return a :: rest).Delivers c (N a ∧ ∀ b ∈ as, N b) (a :: as) c' :=
        (hitem a List.mem_cons_self c c₁ hr₁ hnext).bind (htail.then_ok rfl)
      refine (hall.of_run_eq ?_).congr (by simp)
      simp only [collectWithin, kind_bind, hk]
      rfl

/-- **A list of items is delivered** by the loop that is bounded by the tokens that remain. -/
theorem collectWhile_delivers {continues : Kind → Bool} {item : Parse σ α}
    {S : α → List Symbol} {N : α → Prop} {F : Kind → Prop} {as : List α} {c c' : Cursor σ}
    (hhead : ∀ a ∈ as, ∀ c c₁ : Cursor σ, c.Reads (S a) c₁ →
      continues c.current.kind = true ∧ F c.current.kind ∧ c₁.remaining < c.remaining)
    (hitem : ∀ a ∈ as, ∀ c c₁, c.Reads (S a) c₁ → F c₁.current.kind →
      item.Delivers c (N a) a c₁)
    (hr : c.Reads (as.flatMap S) c') (hF : F c'.current.kind)
    (hstop : continues c'.current.kind = false) :
    (collectWhile continues item).Delivers c (∀ a ∈ as, N a) as c' := by
  refine (collectWithin_delivers hhead hitem hr hF hstop (Nat.le_refl _)).of_run_eq ?_
  rw [collectWhile]
  split
  · rfl
  · next h =>
    cases c.remaining with
    | zero => rfl
    | succ n =>
        simp only [collectWithin, kind_bind, h]
        rfl

end Parse

end ScriptFront
