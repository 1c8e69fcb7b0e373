import ScriptFront.Proofs.Parallel.Progress

/-!
# A Parser has no Hidden State

A session is a parser and the requests made of it, one after the other, whether they succeed or
not. What a parser remembers between two requests is **its cursor and nothing else**:

* The nesting that is charged during a request is all given back at its end, however the request
  ends. To say so, `Metered.counting` is the discipline that keeps the nesting in a counter, which
  is raised when a charge is taken and lowered when the computation is left; the counter runs
  along with the source of tokens, and `Metered.trail` holds every value it has had.
* A request is answered as by a fresh parser whose source gives the current token and then the
  tokens that are unread (`Pending`).

Both are couplings (`Parallel.Coupling`), the first of a parser that counts with one that does
not, the second of a parser in the middle of its source with one at the beginning.
`Parser.stateless_after` says it of every session.
-/

namespace ScriptFront

open Text Parse

/-! ### Requests -/

/-- What can be **asked** of a parser: the next statement, or all that are left. -/
inductive Request where
  | statement
  | program
  deriving DecidableEq, Repr

/-- What a parser answers; no statement is the end of the input. -/
inductive Answer where
  | statement (s : Option Stmt)
  | program (p : Program)

/-- Answering a request with `d` charges. -/
def Discipline.answer {σ : Type} [TokenSource σ] (D : Discipline σ) (d : Nat) :
    Request → Parse σ Answer
  | .statement => .statement <$> D.nextStatement d
  | .program => .program <$> D.program d

namespace Parser

variable {σ : Type}

/-- What a run gives, mapped, is what the mapped run gives. -/
theorem run_map {α β : Type} (p : Parser σ) (f : α → β) (x : Parse σ α) :
    p.run (f <$> x) = ((p.run x).1.map f, (p.run x).2) := by
  have h : (f <$> x) p.cursor = EStateM.map f x p.cursor := rfl
  rw [run, run, h, EStateM.map]
  cases x p.cursor <;> rfl

/-- A run leaves the nesting limit as it is. -/
@[simp] theorem limit_run {α : Type} (p : Parser σ) (x : Parse σ α) :
    (p.run x).2.limit = p.limit := by
  rw [run]
  split <;> rfl

variable [TokenSource σ]

/-- **Asks** a parser, which stays where that ends. -/
def ask (p : Parser σ) : Request → Except ParseFault Answer × Parser σ
  | .statement => (p.nextStatement.1.map .statement, p.nextStatement.2)
  | .program => (p.program.1.map .program, p.program.2)

/-- The parser **after** a list of requests. -/
def after (p : Parser σ) (requests : List Request) : Parser σ :=
  requests.foldl (fun p r => (p.ask r).2) p

/-- A request is answered by the parser's own discipline. -/
theorem ask_eq_run (p : Parser σ) (r : Request) :
    p.ask r = p.run (Discipline.strict.answer p.limit r) := by
  cases r with
  | statement =>
      rw [ask, Discipline.answer, run_map, Discipline.nextStatement, Discipline.declaration_strict]
      rfl
  | program =>
      rw [ask, Discipline.answer, run_map, Discipline.program, Discipline.declaration_strict]
      rfl

end Parser

/-! ### Sessions that run in parallel -/

section Parallel

variable {σ τ : Type} [TokenSource σ] [TokenSource τ]

/-- **Answers to a request** are the same computation. -/
theorem Alike.answer {P : Pairing σ τ} {e : Nat} (he : e = 0 ∨ P.ahead) (d : Nat) (r : Request) :
    Alike P d anyKind false Eq (P.left.answer d r) (P.right.answer (d + e) r) := by
  cases r with
  | statement => exact (Alike.nextStatement he d).map fun _ _ h => congrArg _ h
  | program => exact (Alike.program he d).map fun _ _ h => congrArg _ h

/-- Where corresponding tokens are equal and nothing is spared, runs that agree give the same
result, and the parsers stay at related cursors. -/
theorem Agree.run_eq {P : Pairing σ τ} {R : Cursor σ → Cursor τ → Prop} {α : Type}
    {p : Parser σ} {q : Parser τ} {x : Parse σ α} {y : Parse τ α}
    (h : Agree P R Eq false p.cursor q.cursor (x p.cursor) (y q.cursor))
    (htokens : ∀ t u, P.corresponds t u → t = u) (hspared : ∀ cause, ¬P.spared cause) :
    (p.run x).1 = (q.run y).1 ∧ R (p.run x).2.cursor (q.run y).2.cursor := by
  rw [Parser.run, Parser.run]
  generalize x p.cursor = r at h
  generalize y q.cursor = r' at h
  cases h with
  | ok hQ hR _ _ => exact ⟨congrArg _ hQ, hR⟩
  | error htu hR _ _ => exact ⟨by rw [htokens _ _ htu], hR⟩
  | spared h => exact absurd h (hspared _)

end Parallel

/-! ### The counter -/

/-- A source of tokens and beside it a **counter** of nesting, with all values it has had. -/
structure Metered (σ : Type) where
  source : σ
  depth : Int := 0
  trail : List Int := []

/-- The metered source, which pulls as its source does. -/
instance {σ : Type} [TokenSource σ] : TokenSource (Metered σ) where
  next s :=
    let (t, source) := TokenSource.next s.source
    (t, { s with source })
  size s := TokenSource.size s.source
  size_next s := TokenSource.size_next s.source

namespace Metered

variable {σ : Type} [TokenSource σ]

/-- Changes the counter by `n`, wherever the cursor is. -/
def turn (n : Int) (c : Cursor (Metered σ)) : Cursor (Metered σ) :=
  { c with source :=
    { c.source with depth := c.source.depth + n, trail := (c.source.depth + n) :: c.source.trail } }

/-- The discipline that **counts nesting**: a charge is refused at the limit; otherwise the counter
is raised, and lowered again when the computation is over, whether it has failed or not. -/
def counting (limit : Nat) : Discipline (Metered σ) where
  assign := assignment?
  charged x c :=
    if limit ≤ c.source.depth then tooDeep c
    else match x (turn 1 c) with
      | .ok a c' => .ok a (turn (-1) c')
      | .error f c' => .error f (turn (-1) c')
  exhausted := tooDeep

/-- Asks a parser that counts. The recursion goes deeper than the counter admits, so that it is
the counter that refuses. -/
def ask (p : Parser (Metered σ)) (r : Request) :
    Except ParseFault Answer × Parser (Metered σ) :=
  p.run ((counting p.limit).answer (p.limit + 1) r)

/-- A parser that counts, after a list of requests. -/
def after (p : Parser (Metered σ)) (requests : List Request) : Parser (Metered σ) :=
  requests.foldl (fun p r => (ask p r).2) p

/-- The parser beside the one that counts. -/
def pairing (limit : Nat) : Pairing σ (Metered σ) :=
  .ofEq .strict (counting limit) (fun _ => False) True fun _ _ _ => .inl rfl

/-- Both are at the same place, and **with `n` charges left the counter is `n` below the limit**,
where it has never been out of bounds. -/
structure Beside (limit n : Nat) (c : Cursor σ) (d : Cursor (Metered σ)) : Prop where
  current : c.current = d.current
  source : c.source = d.source.source
  le : n ≤ limit
  depth : d.source.depth + n = limit
  trail : ∀ x ∈ d.source.trail, 0 ≤ x ∧ x ≤ limit

omit [TokenSource σ] in
/-- A turn of the counter by `k` goes with `k` charges less. -/
theorem Beside.turn {limit n m : Nat} {c : Cursor σ} {d : Cursor (Metered σ)} {k : Int}
    (h : Beside limit n c d) (hm : (m : Int) = n - k) (hle : m ≤ limit) :
    Beside limit m c (turn k d) where
  current := h.current
  source := h.source
  le := hle
  depth := by
    have hd := h.depth
    simp only [Metered.turn]
    omega
  trail x hx := by
    have hd := h.depth
    rcases List.mem_cons.mp hx with rfl | hx
    · omega
    · exact h.trail x hx

/-- What runs beside at `n` charges runs beside at `n + 1` when it is charged. -/
theorem agree_charged {limit n : Nat} {S : Kind → Prop} {i : Bool} {α β : Type}
    {Q : α → β → Prop} {x : Parse σ α} {y : Parse (Metered σ) β}
    (h : ∀ c d, Beside limit n c d → S c.current.kind →
      Agree (pairing limit) (Beside limit n) Q i c d (x c) (y d))
    (c : Cursor σ) (d : Cursor (Metered σ)) (hR : Beside limit (n + 1) c d)
    (hS : S c.current.kind) :
    Agree (pairing limit) (Beside limit (n + 1)) Q i c d (x c) ((counting limit).charged y d) := by
  have hdepth := hR.depth
  have hn := hR.le
  have hopen : ¬(limit : Int) ≤ d.source.depth := by omega
  have hagree := h c (Metered.turn 1 d) (hR.turn (by omega) (by omega)) hS
  simp only [counting, if_neg hopen]
  generalize x c = r at hagree
  generalize y (Metered.turn 1 d) = r' at hagree
  cases hagree with
  | ok hQ hR' hc hd => exact .ok hQ (hR'.turn (by omega) hn) hc hd
  | error htu hR' hc hd => exact .error htu (hR'.turn (by omega) hn) hc hd
  | spared h => exact h.elim

/-- Cursors that stand side by side do so after a step. -/
theorem Beside.step {limit n : Nat} {c : Cursor σ} {d : Cursor (Metered σ)}
    (h : Beside limit n c d) : Beside limit n c.step d.step := by
  have hstep : c.step.source = d.step.source.source ∧ c.step.current = d.step.current := by
    simp only [Cursor.step, Cursor.start, h.source]
    exact ⟨rfl, rfl⟩
  exact ⟨hstep.2, hstep.1, h.le, h.depth, h.trail⟩

/-- With no charge left the counter is at the limit, and both refuse. -/
theorem agree_ahead {limit : Nat} {i : Bool} {α β : Type} {Q : α → β → Prop}
    {y : Parse (Metered σ) β} {c : Cursor σ} {d : Cursor (Metered σ)} (h : Beside limit 0 c d) :
    Agree (pairing limit) (Beside limit 0) Q i c d (tooDeep c)
      ((counting limit).charged y d) := by
  have hfull : (limit : Int) ≤ d.source.depth := by
    have := h.depth
    omega
  have hy : (counting limit).charged y d = tooDeep d := if_pos hfull
  rw [hy]
  exact .error h.current h (Nat.le_refl _) (Nat.le_refl _)

/-- **Counting and not counting go together.** -/
def coupling (limit : Nat) : Coupling (pairing limit : Pairing σ (Metered σ)) where
  rel := Beside limit
  current h := h.current
  step h := h.step
  charged h := agree_charged h
  exhausted h := .error h.current h (Nat.le_refl _) (Nat.le_refl _)
  ahead _ h := agree_ahead h

/-- **The step**: one request keeps the two parsers beside each other. -/
theorem ask_beside {p : Parser σ} {q : Parser (Metered σ)} (hlimit : p.limit = q.limit)
    (h : Beside p.limit p.limit p.cursor q.cursor) (r : Request) :
    (p.ask r).1 = (ask q r).1 ∧
      Beside p.limit p.limit (p.ask r).2.cursor (ask q r).2.cursor := by
  have hagree := (Alike.answer (P := pairing p.limit) (e := 1) (.inr trivial) p.limit r).agree
    (coupling p.limit) p.cursor q.cursor h trivial
  rw [Parser.ask_eq_run, ask, ← hlimit]
  exact hagree.run_eq (fun _ _ h => h) fun _ h => h

/-- **The run**: so does every list of requests. -/
theorem after_beside {p : Parser σ} {q : Parser (Metered σ)} (hlimit : p.limit = q.limit)
    (h : Beside p.limit p.limit p.cursor q.cursor) (requests : List Request) :
    (p.after requests).limit = p.limit ∧ (after q requests).limit = p.limit ∧
      Beside p.limit p.limit (p.after requests).cursor (after q requests).cursor := by
  induction requests generalizing p q with
  | nil => exact ⟨rfl, hlimit.symm, h⟩
  | cons r requests ih =>
      have hstep := (ask_beside hlimit h r).2
      have hp : (p.ask r).2.limit = p.limit := by rw [Parser.ask_eq_run, Parser.limit_run]
      have hq : (ask q r).2.limit = p.limit := by rw [ask, Parser.limit_run, hlimit]
      rw [← hp] at hstep
      have hrest := ih (hp.trans hq.symm) hstep
      rwa [hp] at hrest

end Metered

/-! ### Starting afresh -/

/-- A source that gives **one token more** before those of another. -/
structure Pending (σ : Type) where
  held : Option Token
  source : σ

/-- The source with its first token pulled already. -/
instance {σ : Type} [TokenSource σ] : TokenSource (Pending σ) where
  next s := match s.held with
    | some t => (t, { s with held := none })
    | none =>
      let (t, source) := TokenSource.next s.source
      (t, { s with source })
  size s := TokenSource.size s.source + if s.held.isSome then 1 else 0
  size_next s := by
    obtain ⟨_ | t, source⟩ := s
    · exact TokenSource.size_next source
    · simp only [Option.isSome, if_true, Bool.false_eq_true, if_false, Nat.add_zero]
      split <;> omega

namespace Pending

variable {σ : Type} [TokenSource σ]

/-- The current token, and then the tokens that are unread. -/
def ofCursor (c : Cursor σ) : Pending σ :=
  ⟨some c.current, c.source⟩

/-- A parser in the middle of its source beside one that has started afresh. -/
def pairing : Pairing σ (Pending σ) :=
  .ofEq .strict .strict (fun _ => False) False fun _ _ _ => .inl rfl

/-- Once the token held back has been given, the sources go on alike. -/
def coupling : Coupling (pairing : Pairing σ (Pending σ)) :=
  .ofCursors _ rfl rfl False.elim (fun c d => d = ⟨c.current, none, c.source⟩)
    (fun h => by rw [h]; rfl) fun h => by rw [h]; rfl

/-- **A request is answered as by a fresh parser.** -/
theorem ask_start (setting : Int) (p : Parser σ) (h : p.limit = Parser.limitOf setting)
    (r : Request) : (p.ask r).1 = ((Parser.start setting (ofCursor p.cursor)).ask r).1 := by
  have hagree := (Alike.answer (P := pairing) (.inl rfl) p.limit r).agree coupling p.cursor
    (Cursor.start (ofCursor p.cursor)) rfl trivial
  rw [Parser.ask_eq_run, Parser.ask_eq_run, Parser.start, ← h]
  exact (Agree.run_eq (q := ⟨p.limit, _⟩) hagree (fun _ _ h => h) fun _ h => h).1

end Pending

/-! ### Faults that stay -/

/-- A request fails where the next statement does, and in the same way. -/
theorem Discipline.answer_of_declaration {σ : Type} [TokenSource σ] {d : Nat} {c c' : Cursor σ}
    {f : ParseFault} (hk : c.current.kind ≠ .eof)
    (h : (strict.declaration d : Parse σ Stmt) c = .error f c') (r : Request) :
    strict.answer d r c = .error f c' := by
  cases r with
  | statement =>
      rw [answer, map_eq_error_iff, nextStatement, kind_bind, if_neg hk, bind_error h]
  | program =>
      rw [answer, map_eq_error_iff, strict, program_unroll, kind_bind, if_pos hk]
      exact bind_error h

/-- A request that fails and leaves the cursor where it was has failed at the next statement: had
a statement been read before, tokens would be missing. -/
theorem Discipline.declaration_of_answer {σ : Type} [TokenSource σ] {d : Nat} {c : Cursor σ}
    {f : ParseFault} {r : Request} (h : strict.answer d r c = .error f c) :
    c.current.kind ≠ .eof ∧ (strict.declaration d : Parse σ Stmt) c = .error f c := by
  cases r with
  | statement =>
      rw [answer, map_eq_error_iff, nextStatement, kind_bind] at h
      split at h
      · cases h
      · next hk =>
        rcases bind_eq_error_iff.mp h with h | ⟨s, c₁, -, h⟩
        · exact ⟨hk, h⟩
        · cases h
  | program =>
      rw [answer, map_eq_error_iff, strict, program_unroll, kind_bind] at h
      split at h
      · next hk =>
        rcases bind_eq_error_iff.mp h with h | ⟨s, c₁, hs, h⟩
        · exact ⟨hk, h⟩
        · have hlt := (advances_declaration assignment? d).ok trivial hs
          rcases bind_eq_error_iff.mp h with h | ⟨p, c₂, -, h⟩
          · have hle := (advances_program assignment? d).error trivial h
            rw [Bool.toNat_true] at hlt
            omega
          · cases h
      · cases h

namespace Parser

variable {σ : Type} [TokenSource σ]

/-- The parser fails at its next statement **without leaving its place**. -/
def Stuck (p : Parser σ) (f : ParseFault) : Prop :=
  p.cursor.current.kind ≠ .eof ∧
    (Discipline.strict.declaration p.limit : Parse σ Stmt) p.cursor = .error f p.cursor

/-- A parser is stuck in a fault that leaves the cursor where it was. -/
theorem stuck_of_ask {p : Parser σ} {r : Request} {f : ParseFault} (h : (p.ask r).1 = .error f)
    (hc : (p.ask r).2.cursor = p.cursor) : p.Stuck f := by
  rw [ask_eq_run, run] at h hc
  cases hx : (Discipline.strict.answer p.limit r : Parse σ Answer) p.cursor with
  | ok a c =>
      rw [hx] at h
      cases h
  | error f' c =>
      rw [hx] at h hc
      cases h
      cases hc
      exact Discipline.declaration_of_answer hx

/-- A parser that is stuck stays so, whatever it is asked. -/
theorem Stuck.ask_eq {p : Parser σ} {f : ParseFault} (h : p.Stuck f) (r : Request) :
    p.ask r = (.error f, p) := by
  rw [ask_eq_run, run, Discipline.answer_of_declaration h.1 h.2]

/-- A parser that is stuck stays as it is. -/
theorem Stuck.after_eq {p : Parser σ} {f : ParseFault} (h : p.Stuck f) (requests : List Request) :
    p.after requests = p := by
  induction requests with
  | nil => rfl
  | cons r requests ih =>
      rw [after, List.foldl_cons, h.ask_eq r]
      exact ih

/-! ### Sessions -/

/-- **Nothing is hidden** in a parser `p`, beside which `m` has counted the nesting of the same
session: the counter is at zero and was never out of bounds; the next request is answered as by
the parser that counts, and as by a fresh parser on the tokens that are left; and if it fails
without leaving its place, the next statement fails so ever after. -/
structure Stateless (setting : Int) (p : Parser σ) (m : Parser (Metered σ)) : Prop where
  depth : m.cursor.source.depth = 0
  trail : ∀ depth ∈ m.cursor.source.trail, 0 ≤ depth ∧ depth ≤ limitOf setting
  counted : ∀ r, (Metered.ask m r).1 = (p.ask r).1
  fresh : ∀ r, (p.ask r).1 = ((start setting (Pending.ofCursor p.cursor)).ask r).1
  stuck : ∀ r f, (p.ask r).1 = .error f → (p.ask r).2.cursor = p.cursor →
    ∀ later, ((p.ask r).2.after later).nextStatement.1 = .error f

/-- **A parser has no hidden state**, after whatever it has been asked. -/
theorem stateless_after (setting : Int) (source : σ) (requests : List Request) :
    Stateless setting ((start setting source).after requests)
      (Metered.after (start setting (⟨source, 0, []⟩ : Metered σ)) requests) := by
  have hstart : Metered.Beside (limitOf setting) (limitOf setting)
      (start setting source).cursor (start setting (⟨source, 0, []⟩ : Metered σ)).cursor :=
    ⟨rfl, rfl, Nat.le_refl _, Int.zero_add _, nofun⟩
  obtain ⟨hp, hm, hbeside⟩ := Metered.after_beside (p := start setting source)
    (q := start setting (⟨source, 0, []⟩ : Metered σ)) rfl hstart requests
  have hlimit : (start setting source).limit = limitOf setting := rfl
  rw [hlimit] at hp hm hbeside
  generalize (start setting source).after requests = p at hp hbeside ⊢
  generalize Metered.after (start setting (⟨source, 0, []⟩ : Metered σ)) requests = m
    at hm hbeside ⊢
  constructor
  case depth =>
    have hdepth := hbeside.depth
    omega
  case trail => exact hbeside.trail
  case counted =>
    intro r
    rw [← hp] at hbeside
    exact (Metered.ask_beside (hp.trans hm.symm) hbeside r).1.symm
  case fresh => exact Pending.ask_start setting p hp
  case stuck =>
    intro r f hf hc later
    have hs := stuck_of_ask hf hc
    have hnext : p.nextStatement.1.map Answer.statement = .error f :=
      congrArg Prod.fst (hs.ask_eq .statement)
    rw [hs.ask_eq r, hs.after_eq later]
    cases h : p.nextStatement.1 with
    | error f' =>
        rw [h] at hnext
        cases hnext
        rfl
    | ok s =>
        rw [h] at hnext
        cases hnext

/-- Text that cannot be scanned is never left: having asked for the program, one is given the same
fault for the next statement, whatever is asked in between. -/
theorem stateless_after_unscannable :
    let source : Replay := ⟨[⟨.identifier, utf8 "a", ⟨1, 0, 1⟩⟩,
      ⟨.punctuator .semicolon, utf8 ";", ⟨1, 1, 2⟩⟩, ⟨.error, utf8 "stray", ⟨1, 2, 3⟩⟩]⟩
    let p := (start 4 source).after [.statement]
    (p.ask .program).1 = .error ⟨.unscannable (utf8 "stray"), ⟨1, 2, 3⟩⟩ ∧
      ((p.ask .program).2.after [.statement, .program]).nextStatement.1 =
        .error ⟨.unscannable (utf8 "stray"), ⟨1, 2, 3⟩⟩ :=
  ⟨rfl, (stateless_after 4 _ [.statement]).stuck .program _ rfl rfl [.statement, .program]⟩

end Parser

end ScriptFront
