import Mathlib.Algebra.GroupWithZero.Nat
import ScriptFront.Proofs.Prefix.Viability

/-!
# What a Run Consumes

A run of a parser consumes tokens one after the other, and its result and its fault are about
those. `Parse.Orderly past S Q x` says so of a computation that begins at a token in `S` when the
tokens `past` have been consumed:

* a success has consumed tokens that were scanned and are not the end of the input, and its result
  stands to them as `Q` says;
* a fault comes after such tokens, and **what it points at is told by its cause**
  (`Parse.FaultAt`): the token that is current, the one consumed last, or an earlier one.

There is one rule for each primitive of the parsing monad and for sequences, choices and loops. The
relations `Q` are mostly counts of tokens, which add up (`Tally`).
-/

namespace ScriptFront

open Text

/-- A token that **could be scanned** and is not the end of the input. -/
def Token.Solid (t : Token) : Prop :=
  t.kind ≠ .eof ∧ t.kind ≠ .error

/-- A token of a kind that is no end and no fault is solid. -/
theorem Token.solid_of_kind {S : Token → Prop} {k : Kind} (hk : k ≠ .eof ∧ k ≠ .error) (t : Token)
    (ht : S t ∧ t.kind = k) : t.Solid := by
  rw [Token.Solid, ht.2]
  exact hk

namespace Cursor

variable {σ : Type} [TokenSource σ]

/-! ### Tokens ahead -/

/-- The cursor some tokens **further on**. -/
def forward : Cursor σ → Nat → Cursor σ
  | c, 0 => c
  | c, k + 1 => c.step.forward k

/-- The tokens **from the cursor on**, as many as are asked for. -/
def upcoming : Cursor σ → Nat → List Token
  | _, 0 => []
  | c, k + 1 => c.current :: c.step.upcoming k

/-- Steps forward add up. -/
theorem forward_add (c : Cursor σ) (j k : Nat) : c.forward (j + k) = (c.forward j).forward k := by
  induction j generalizing c with
  | zero => rw [Nat.zero_add, forward]
  | succ j ih => rw [Nat.succ_add, forward, forward, ih]

/-- The tokens that come up are those of the first steps and then those of the others. -/
theorem upcoming_add (c : Cursor σ) (j k : Nat) :
    c.upcoming (j + k) = c.upcoming j ++ (c.forward j).upcoming k := by
  induction j generalizing c with
  | zero => rw [Nat.zero_add, upcoming, forward, List.nil_append]
  | succ j ih => rw [Nat.succ_add, upcoming, upcoming, forward, ih, List.cons_append]

/-- One token more comes up with one step more. -/
theorem upcoming_succ (c : Cursor σ) (k : Nat) :
    c.upcoming (k + 1) = c.upcoming k ++ [(c.forward k).current] :=
  c.upcoming_add k 1

/-- Tokens are taken from where the cursor is. -/
theorem Takes.eq_forward {c c' : Cursor σ} {ts : List Token} (h : c.Takes ts c') :
    c' = c.forward ts.length ∧ c.upcoming ts.length = ts := by
  induction ts generalizing c with
  | nil => exact ⟨h.symm, rfl⟩
  | cons t ts ih =>
      obtain ⟨rfl, -, h⟩ := h
      obtain ⟨hc', hts⟩ := ih h
      rw [List.length_cons, forward, upcoming, hts]
      exact ⟨hc', rfl⟩

/-- **Consuming** the tokens, all of which could be scanned, leads from one cursor to the other. -/
structure Consumes (c : Cursor σ) (ts : List Token) (c' : Cursor σ) : Prop where
  takes : c.Takes ts c'
  scanned : ∀ t ∈ ts, t.kind ≠ .error

/-- Nothing is consumed where nothing is done. -/
theorem consumes_nil (c : Cursor σ) : c.Consumes [] c :=
  ⟨rfl, nofun⟩

/-- A step consumes the current token if that is solid. -/
theorem consumes_current {c : Cursor σ} (h : c.current.Solid) : c.Consumes [c.current] c.step :=
  ⟨⟨rfl, h.1, rfl⟩, List.forall_mem_singleton.mpr h.2⟩

/-- What is consumed in turn is consumed together. -/
theorem Consumes.append {c c' c'' : Cursor σ} {ts us : List Token} (h : c.Consumes ts c')
    (h' : c'.Consumes us c'') : c.Consumes (ts ++ us) c'' :=
  ⟨h.takes.append h'.takes, List.forall_mem_append.mpr ⟨h.scanned, h'.scanned⟩⟩

end Cursor

/-! ### Counting tokens -/

/-- There are `n` tokens in the list, **if its identifiers are not empty**: only an empty name can
be lost. -/
def Tally (ts : List Token) (n : Nat) : Prop :=
  (∀ t ∈ ts, t.kind = .identifier → t.value ≠ []) → ts.length = n

namespace Tally

variable {ts us : List Token} {m n : Nat}

/-- No tokens are a tally of none. -/
theorem nil : Tally [] 0 := fun _ => rfl

/-- One token is a tally of one. -/
theorem one (t : Token) : Tally [t] 1 := fun _ => rfl

/-- Tallies add up. -/
theorem append (h : Tally ts m) (h' : Tally us n) : Tally (ts ++ us) (m + n) := by
  intro hnames
  rw [List.forall_mem_append] at hnames
  rw [List.length_append, h hnames.1, h' hnames.2]

/-- A tally may be written as an equal number. -/
theorem of_eq (h : Tally ts m) (hmn : m = n) : Tally ts n :=
  hmn ▸ h

end Tally

namespace Parse

variable {σ : Type} [TokenSource σ] {α β : Type}

/-! ### Faults -/

/-- **What a fault points at**, if the tokens `consumed` have been consumed, the next one is that of
`c`, and the run ends at the second cursor. A token that begins no expression is the only one that
a fault consumes. -/
inductive FaultAt (consumed : List Token) (c : Cursor σ) : ParseFault → Cursor σ → Prop
  | misplaced {cause : FaultCause} (hkind : cause.kind = .syntaxError)
      (hscan : c.current.kind = .error → cause = .unscannable c.current.value) :
      FaultAt consumed c ⟨cause, c.current.span⟩ c
  | number (hkind : c.current.kind = .number) :
      FaultAt consumed c ⟨.invalidNumber c.current.value, c.current.span⟩ c
  | nesting : FaultAt consumed c ⟨.tooDeep, c.current.span⟩ c
  | expression (hscan : c.current.kind ≠ .error) :
      FaultAt consumed c ⟨.expectedExpression, c.current.span⟩ c.step
  | inheritance {t : Token} (hlast : consumed.getLast? = some t) :
      FaultAt consumed c ⟨.selfInheritance, t.span⟩ c
  | target {t : Token} (hmem : t ∈ consumed) (hkind : t.kind.isAssignment = true) :
      FaultAt consumed c ⟨.invalidTarget, t.span⟩ c

/-- A fault leaves the parser where it is, or consumes one token that could be scanned. -/
theorem FaultAt.cursor {consumed : List Token} {c c' : Cursor σ} {f : ParseFault}
    (h : FaultAt consumed c f c') : c' = c ∨ c' = c.step ∧ c.current.kind ≠ .error := by
  cases h with
  | expression hscan => exact .inr ⟨rfl, hscan⟩
  | _ => exact .inl rfl

/-! ### Runs -/

/-- **What a run does**, from a token in `S` and with `past` consumed. -/
structure Orderly (past : List Token) (S : Token → Prop) (Q : α → List Token → Prop)
    (x : Parse σ α) : Prop where
  ok : ∀ {c : Cursor σ} {a : α} {c' : Cursor σ}, S c.current → x c = .ok a c' →
    ∃ ts, c.Consumes ts c' ∧ Q a ts
  error : ∀ {c : Cursor σ} {f : ParseFault} {c' : Cursor σ}, S c.current → x c = .error f c' →
    ∃ ts c₁, c.Consumes ts c₁ ∧ FaultAt (past ++ ts) c₁ f c'

namespace Orderly

variable {past : List Token} {S S' : Token → Prop} {Q R : α → List Token → Prop}
  {Q' : β → List Token → Prop} {x x' : Parse σ α}

/-- Less may be known of the first token, and less be said of the result. -/
theorem weaken (h : Orderly past S Q x) (hS : ∀ t, S' t → S t) (hQ : ∀ a ts, Q a ts → R a ts) :
    Orderly past S' R x where
  ok hc hx := by
    obtain ⟨ts, hts, ha⟩ := h.ok (hS _ hc) hx
    exact ⟨ts, hts, hQ _ _ ha⟩
  error hc hx := h.error (hS _ hc) hx

/-- What runs in order from any token does so from a particular one. -/
theorem at_tokens (h : Orderly past anyToken Q x) : Orderly past S Q x :=
  h.weaken (fun _ _ => trivial) fun _ _ ha => ha

/-- **In sequence**: the second part goes on from the tokens that the first has consumed. -/
theorem bind {f : α → Parse σ β} (hx : Orderly past S Q x)
    (hf : ∀ a ts, Q a ts → Orderly (past ++ ts) anyToken (fun b us => Q' b (ts ++ us)) (f a)) :
    Orderly past S Q' (x >>= f) where
  ok hc hrun := by
    obtain ⟨a, c₁, ha, hb⟩ := bind_eq_ok_iff.mp hrun
    obtain ⟨ts, hts, hQ⟩ := hx.ok hc ha
    obtain ⟨us, hus, hQ'⟩ := (hf a ts hQ).ok trivial hb
    exact ⟨ts ++ us, hts.append hus, hQ'⟩
  error hc hrun := by
    rcases bind_eq_error_iff.mp hrun with hfail | ⟨a, c₁, ha, hfail⟩
    · exact hx.error hc hfail
    · obtain ⟨ts, hts, hQ⟩ := hx.ok hc ha
      obtain ⟨us, c₂, hus, hfault⟩ := (hf a ts hQ).error trivial hfail
      rw [List.append_assoc] at hfault
      exact ⟨ts ++ us, c₂, hts.append hus, hfault⟩

/-- A result by itself consumes nothing. -/
theorem pure {a : α} (h : Q a []) : Orderly past S Q (Pure.pure a : Parse σ α) where
  ok _ hx := by
    obtain ⟨rfl, rfl⟩ := pure_eq_ok_iff.mp hx
    exact ⟨[], Cursor.consumes_nil _, h⟩
  error _ hx := by cases hx

/-- A function of the result changes nothing about what is consumed. -/
theorem map {g : α → β} (hx : Orderly past S Q x) (h : ∀ a ts, Q a ts → Q' (g a) ts) :
    Orderly past S Q' (g <$> x) := by
  rw [map_eq_pure_bind]
  refine hx.bind fun a ts ha => .pure ?_
  rw [List.append_nil]
  exact h a ts ha

/-- A look at the current token. -/
theorem current {f : Token → Parse σ α} (h : ∀ t, S t → Orderly past (· = t) Q (f t)) :
    Orderly past S Q (Parse.current >>= f) where
  ok {c} _ _ hc hx := (h c.current hc).ok rfl hx
  error {c} _ _ hc hx := (h c.current hc).error rfl hx

/-- A look at the current kind. -/
theorem kind {f : Kind → Parse σ α}
    (h : ∀ k, Orderly past (fun t => S t ∧ t.kind = k) Q (f k)) :
    Orderly past S Q (Parse.kind >>= f) where
  ok {c} _ _ hc hx := (h c.current.kind).ok ⟨hc, rfl⟩ hx
  error {c} _ _ hc hx := (h c.current.kind).error ⟨hc, rfl⟩ hx

/-- A choice runs in order if both sides do. -/
theorem ite {p : Prop} [Decidable p] (h : p → Orderly past S Q x) (h' : ¬p → Orderly past S Q x') :
    Orderly past S Q (if p then x else x') := by
  by_cases hp : p
  · rw [if_pos hp]
    exact h hp
  · rw [if_neg hp]
    exact h' hp

/-! ### Primitives -/

/-- An advance consumes the current token. -/
theorem advance (hS : ∀ t, S t → t.Solid) :
    Orderly past S (fun t ts => ts = [t] ∧ S t) (Parse.advance : Parse σ Token) where
  ok {c} _ _ hc hx := by
    obtain ⟨rfl, rfl⟩ := advance_eq_ok_iff.mp hx
    exact ⟨[c.current], Cursor.consumes_current (hS _ hc), rfl, hc⟩
  error _ hx := by cases hx

/-- A fault that is about the tokens so far may be reported anywhere. -/
theorem fail {span : Span} {cause : FaultCause}
    (h : ∀ c : Cursor σ, S c.current → FaultAt past c ⟨cause, span⟩ c) :
    Orderly past S Q (Parse.fail span cause : Parse σ α) where
  ok _ hx := absurd hx fail_ne_ok
  error {c} _ _ hc hx := by
    cases hx
    refine ⟨[], c, c.consumes_nil, ?_⟩
    rw [List.append_nil]
    exact h c hc

/-- Excessive nesting may be reported anywhere. -/
theorem tooDeep : Orderly past S Q (Parse.tooDeep : Parse σ α) where
  ok _ hx := absurd hx tooDeep_ne_ok
  error {c} _ _ _ hx := by
    cases hx
    exact ⟨[], c, c.consumes_nil, .nesting⟩

/-- A token in the wrong place is not consumed. -/
theorem unexpected {cause : Token → FaultCause} (h : ∀ t, (cause t).kind = .syntaxError) :
    Orderly past S Q (Parse.unexpected cause : Parse σ α) where
  ok _ hx := absurd hx unexpected_ne_ok
  error {c} _ _ _ hx := by
    cases hx
    refine ⟨[], c, c.consumes_nil, .misplaced ?_ fun herror => if_pos herror⟩
    split
    · rfl
    · exact h c.current

/-- A punctuation mark consumes one token. -/
theorem expect (p : Punctuator) :
    Orderly past S (fun _ ts => Tally ts 1) (Parse.expect p : Parse σ Token) := by
  refine .kind fun k => .ite (fun hk => ?_) fun _ => .unexpected fun _ => rfl
  refine (Orderly.advance (Token.solid_of_kind (by simp [hk]))).weaken (fun _ ht => ht) ?_
  rintro t ts ⟨rfl, -⟩
  exact .one t

/-- An identifier consumes one token and is that token. -/
theorem identifier :
    Orderly past S (fun t ts => ts = [t] ∧ t.kind = .identifier)
      (Parse.identifier : Parse σ Token) := by
  refine .kind fun k => .ite (fun hk => ?_) fun _ => .unexpected fun _ => rfl
  refine (Orderly.advance (Token.solid_of_kind (by simp [hk]))).weaken (fun _ ht => ht) ?_
  rintro t ts ⟨rfl, -, ht⟩
  exact ⟨rfl, ht.trans hk⟩

/-- An optional delimiter: it is consumed where it is current, and otherwise what comes next is
read in its place. -/
theorem accept {p : Punctuator} {f : Bool → Parse σ α}
    (h : ∀ t, Orderly (past ++ [t]) anyToken (fun a us => Q a ([t] ++ us)) (f true))
    (h' : Orderly past S Q (f false)) : Orderly past S Q (Parse.accept p >>= f) := by
  rw [accept_bind]
  refine .kind fun k => .ite (fun hk => ?_) fun _ => h'.weaken (fun _ ht => ht.1) fun _ _ ha => ha
  refine .bind (.advance (Token.solid_of_kind (by simp [hk]))) ?_
  rintro t ts ⟨rfl, -⟩
  exact h t

/-! ### Repetition -/

/-- **A loop keeps its invariant.** Whether the bound is enough for it does not matter here. -/
theorem foldWhile {continues : Kind → Bool} {round : α → Parse σ α} {a : α}
    (hround : ∀ a ts, Q a ts → Orderly (past ++ ts) (fun t => continues t.kind = true)
      (fun b us => Q b (ts ++ us)) (round a)) (h : Q a []) :
    Orderly past S Q (Parse.foldWhile continues round a) := by
  have hwithin : ∀ (bound : Nat) (a : α) (ts : List Token), Q a ts →
      Orderly (past ++ ts) anyToken (fun b us => Q b (ts ++ us))
        (foldWithin continues round bound a) := by
    intro bound
    induction bound with
    | zero =>
        intro a ts ha
        refine .pure ?_
        rwa [List.append_nil]
    | succ bound ih =>
        intro a ts ha
        refine .kind fun k => .ite (fun hk => ?_) fun _ => .pure (by rwa [List.append_nil])
        refine .bind ((hround a ts ha).weaken ?_ fun _ _ hb => hb) fun b us hb => ?_
        · rintro t ⟨-, rfl⟩
          exact hk
        · have hrest := ih b (ts ++ us) hb
          simp only [List.append_assoc] at hrest ⊢
          exact hrest
  have hstart := fun bound => hwithin bound a [] h
  simp only [List.append_nil, List.nil_append] at hstart
  constructor
  · intro c b c' _ hx
    rw [foldWhile_eq] at hx
    exact (hstart c.remaining).ok trivial hx
  · intro c f c' _ hx
    rw [foldWhile_eq] at hx
    exact (hstart c.remaining).error trivial hx

end Orderly

/-- A reader that can begin at every token and whose results **stand for as many tokens** as the
function says, whatever has been consumed before. -/
def Measured (size : α → Nat) (x : Parse σ α) : Prop :=
  ∀ past, Orderly past anyToken (fun a ts => Tally ts (size a)) x

namespace Orderly

variable {past : List Token} {S : Token → Prop} {size : α → Nat}

/-- An identifier stands for one token. -/
theorem identifier_measured : Measured (fun _ => 1) (Parse.identifier : Parse σ Token) := by
  intro past
  refine identifier.weaken (fun _ ht => ht) ?_
  rintro t ts ⟨rfl, -⟩
  exact .one t

/-- The tokens of items in a row add up. -/
theorem collectWhile {continues : Kind → Bool} {item : Parse σ α}
    (h : ∀ past, Orderly past (fun t => continues t.kind = true)
      (fun a ts => Tally ts (size a)) item) :
    Orderly past S (fun as ts => Tally ts (as.map size).sum)
      (Parse.collectWhile continues item) := by
  have hwithin : ∀ (bound : Nat) (past : List Token),
      Orderly past anyToken (fun as ts => Tally ts (as.map size).sum)
        (collectWithin continues item bound) := by
    intro bound
    induction bound with
    | zero => exact fun past => .pure .nil
    | succ bound ih =>
        intro past
        refine .kind fun k => .ite (fun hk => ?_) fun _ => .pure .nil
        refine .bind ((h past).weaken ?_ fun _ _ ha => ha) fun a ts ha => ?_
        · rintro t ⟨-, rfl⟩
          exact hk
        · refine .bind (ih _) fun as us has => .pure ?_
          rw [List.append_nil]
          exact ha.append has
  constructor
  · intro c as c' _ hx
    rw [collectWhile_run] at hx
    exact (hwithin c.remaining past).ok trivial hx
  · intro c f c' _ hx
    rw [collectWhile_run] at hx
    exact (hwithin c.remaining past).error trivial hx

end Orderly

end Parse

end ScriptFront
