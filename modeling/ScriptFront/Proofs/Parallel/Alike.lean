import Mathlib.Data.List.Forall2
import ScriptFront.Proofs.Parallel.Discipline

/-!
# Two Runs of one Grammar

`Alike P n S b Q x y` says that `x` and `y` are **the same computation** for two parsers that may
differ in their sources, in their disciplines and in where the tokens stand. The pairing `P` says
how they may differ; `n` is the number of charges left, `S` the kinds of token the computation can
begin at, `b` whether a success consumes a token, and `Q` how the two results correspond.

The relation has one constructor for each primitive of the parsing monad and for each thing that a
discipline decides. That the grammar is alike to itself is proved here, once, production by
production (`Alike.declaration`). What two parsers then have in common is a fact about each
constructor and not about each production: see `Parallel.Coupling`.
-/

namespace ScriptFront

open Text Parse

/-- **How two parsers may differ.** Corresponding tokens have one kind, and one value if there is
anything to them. Where the cause is `spared`, the left one may fail while the right one goes on;
where the right one is `ahead`, it may have charges to spare when the left one has none. -/
structure Pairing (σ τ : Type) where
  left : Discipline σ
  right : Discipline τ
  corresponds : Token → Token → Prop
  kind_eq : ∀ {t u : Token}, corresponds t u → t.kind = u.kind
  value_eq : ∀ {t u : Token}, corresponds t u → t.kind ≠ .eof → t.value = u.value
  spared : FaultCause → Prop
  ahead : Prop
  assign_eq : ∀ target operator value,
    left.assign target operator value = right.assign target operator value ∨
      left.assign target operator value = none ∧ spared .invalidTarget

namespace Pairing

variable {σ τ : Type} {t u : Token}

/-- Two parsers that are given **the same tokens**. -/
def ofEq (left : Discipline σ) (right : Discipline τ) (spared : FaultCause → Prop) (ahead : Prop)
    (assign_eq : ∀ target operator value,
      left.assign target operator value = right.assign target operator value ∨
        left.assign target operator value = none ∧ spared .invalidTarget) : Pairing σ τ where
  left := left
  right := right
  corresponds := Eq
  kind_eq h := by rw [h]
  value_eq h _ := by rw [h]
  spared := spared
  ahead := ahead
  assign_eq := assign_eq

/-- Corresponding tokens are described alike in a fault. -/
theorem description_eq (P : Pairing σ τ) (h : P.corresponds t u) :
    t.description = u.description := by
  by_cases hk : t.kind = .eof
  · simp only [Token.description, ← P.kind_eq h, hk]
  · simp only [Token.description, ← P.kind_eq h, P.value_eq h hk]

/-- Corresponding tokens are refused for the same cause. -/
theorem refusal_eq (P : Pairing σ τ) (h : P.corresponds t u) (hk : t.kind ≠ .eof) :
    refusal t = refusal u := by
  simp only [refusal, ← P.kind_eq h, P.value_eq h hk]

end Pairing

variable {σ τ : Type} [TokenSource σ] [TokenSource τ]

namespace Parse

variable {α : Type}

omit [TokenSource σ] in
/-- Collecting items is a loop that puts each of them in front of those before it. -/
theorem foldWithin_cons (continues : Kind → Bool) (item : Parse σ α) (bound : Nat)
    (acc : List α) :
    foldWithin continues (fun as => item >>= fun a => pure (a :: as)) bound acc =
      (fun as => as.reverse ++ acc) <$> collectWithin continues item bound := by
  induction bound generalizing acc with
  | zero => rfl
  | succ bound ih =>
      simp only [foldWithin, collectWithin, map_eq_pure_bind, bind_assoc, ih]
      congr 1
      funext k
      split
      · simp
      · simp

/-- What follows an optional delimiter, told by the current kind. -/
theorem accept_bind {β : Type} (p : Punctuator) (f : Bool → Parse σ β) :
    (accept p >>= f) = (do
      if (← Parse.kind) = .punctuator p then
        let _ ← advance
        f true
      else f false) := by
  funext c
  by_cases h : c.current.kind = .punctuator p
  · rw [bind_ok (accept_of_eq h), kind_bind, if_pos h, advance_bind]
  · rw [bind_ok (accept_of_ne h), kind_bind, if_neg h]

/-- Items are collected by a loop with the bound of the cursor, whether there are any or not. -/
theorem collectWhile_run (continues : Kind → Bool) (item : Parse σ α) (c : Cursor σ) :
    collectWhile continues item c = collectWithin continues item c.remaining c := by
  rw [collectWhile]
  split
  · rfl
  · next h =>
    cases c.remaining with
    | zero => rfl
    | succ bound =>
        simp only [collectWithin, kind_bind, h]
        rfl

/-- **Collecting is a loop** that puts items in front, and turns the list around in the end. -/
theorem collectWhile_eq (continues : Kind → Bool) (item : Parse σ α) :
    collectWhile continues item = List.reverse <$>
      foldWhile continues (fun as => item >>= fun a => pure (a :: as)) [] := by
  funext c
  have hfold := foldWithin_cons continues item c.remaining []
  calc collectWhile continues item c
      = collectWithin continues item c.remaining c := collectWhile_run continues item c
    _ = (List.reverse <$> foldWithin continues (fun as => item >>= fun a => pure (a :: as))
          c.remaining []) c := by rw [hfold]; simp
    _ = _ := by
        show EStateM.map _ _ c = EStateM.map _ _ c
        rw [EStateM.map, EStateM.map, foldWhile_eq]

end Parse

/-- Every kind of token. -/
def anyKind (_ : Kind) : Prop := True

/-- **The same computation** for the two parsers of a pairing. -/
inductive Alike (P : Pairing σ τ) :
    Nat → (Kind → Prop) → Bool → {α β : Type} → (α → β → Prop) → Parse σ α → Parse τ β → Prop
  | pure {n : Nat} {S : Kind → Prop} {α β : Type} {Q : α → β → Prop} {a : α} {b : β}
      (h : Q a b) : Alike P n S false Q (pure a) (pure b)
  | bind {n : Nat} {S : Kind → Prop} {i j : Bool} {α β α' β' : Type} {Q : α → β → Prop}
      {R : α' → β' → Prop} {x : Parse σ α} {y : Parse τ β} {f : α → Parse σ α'}
      {g : β → Parse τ β'} (hx : Alike P n S i Q x y)
      (hf : ∀ a b, Q a b → Alike P n anyKind j R (f a) (g b)) :
      Alike P n S (i || j) R (x >>= f) (y >>= g)
  | weaken {n : Nat} {S S' : Kind → Prop} {i j : Bool} {α β : Type} {Q R : α → β → Prop}
      {x : Parse σ α} {y : Parse τ β} (hS : ∀ k, S' k → S k) (hi : j = true → i = true)
      (hQ : ∀ a b, Q a b → R a b) (h : Alike P n S i Q x y) : Alike P n S' j R x y
  | current {n : Nat} {S : Kind → Prop} {i : Bool} {α β : Type} {Q : α → β → Prop}
      {f : Token → Parse σ α} {g : Token → Parse τ β}
      (h : ∀ t u, P.corresponds t u → S t.kind → Alike P n (· = t.kind) i Q (f t) (g u)) :
      Alike P n S i Q (Parse.current >>= f) (Parse.current >>= g)
  | advance {n : Nat} {S : Kind → Prop} {i : Bool} (h : i = true → ∀ k, S k → k ≠ .eof) :
      Alike P n S i (fun t u => P.corresponds t u ∧ S t.kind) advance advance
  | fail {n : Nat} {S : Kind → Prop} {i : Bool} {α β : Type} {Q : α → β → Prop} {t u : Token}
      {cause : FaultCause} (h : P.corresponds t u) :
      Alike P n S i Q (fail t.span cause) (fail u.span cause)
  | foldWhile {n : Nat} {S : Kind → Prop} {α β : Type} {Q : α → β → Prop}
      {continues : Kind → Bool} {round : α → Parse σ α} {round' : β → Parse τ β} {a : α} {b : β}
      (heof : continues .eof = false)
      (hround : ∀ a b, Q a b →
        Alike P n (continues · = true) true Q (round a) (round' b)) (h : Q a b) :
      Alike P n S false Q (foldWhile continues round a) (foldWhile continues round' b)
  | charged {n : Nat} {S : Kind → Prop} {i : Bool} {α β : Type} {Q : α → β → Prop}
      {x : Parse σ α} {y : Parse τ β} (h : Alike P n S i Q x y) :
      Alike P (n + 1) S i Q (P.left.charged x) (P.right.charged y)
  | exhausted {S : Kind → Prop} {i : Bool} {α β : Type} {Q : α → β → Prop} :
      Alike P 0 S i Q (P.left.exhausted : Parse σ α) (P.right.exhausted : Parse τ β)
  /-- The left parser has no charge left and the right one takes another. -/
  | ahead {S : Kind → Prop} {i : Bool} {α β : Type} {Q : α → β → Prop} {y : Parse τ β}
      (h : P.ahead) :
      Alike P 0 S i Q (P.left.exhausted : Parse σ α) (P.right.charged y)
  /-- The left parser refuses a target and the right one does not. -/
  | spared {n : Nat} {S : Kind → Prop} {α β : Type} {Q : α → β → Prop} {span : Span} {b : β}
      (h : P.spared .invalidTarget) : Alike P n S false Q (fail span .invalidTarget) (Pure.pure b)

namespace Alike

variable {P : Pairing σ τ} {n : Nat} {S : Kind → Prop} {i j : Bool} {α β α' β' : Type}
  {Q : α → β → Prop} {R : α' → β' → Prop}

/-! ### Combining -/

/-- In sequence, where the first part consumes a token if the whole does. -/
theorem seq {x : Parse σ α} {y : Parse τ β} {f : α → Parse σ α'} {g : β → Parse τ β'}
    (hx : Alike P n S i Q x y) (hf : ∀ a b, Q a b → Alike P n anyKind false R (f a) (g b)) :
    Alike P n S i R (x >>= f) (y >>= g) :=
  .weaken (fun _ h => h) (fun h => by simp [h]) (fun _ _ h => h) (.bind hx hf)

/-- In sequence, where the second part consumes a token if the whole does. -/
theorem andThen {x : Parse σ α} {y : Parse τ β} {f : α → Parse σ α'} {g : β → Parse τ β'}
    (hx : Alike P n S j Q x y) (hf : ∀ a b, Q a b → Alike P n anyKind i R (f a) (g b)) :
    Alike P n S i R (x >>= f) (y >>= g) :=
  .weaken (fun _ h => h) (fun h => by simp [h]) (fun _ _ h => h) (.bind hx hf)

/-- A computation that is alike wherever it begins is alike at some kinds. -/
theorem at_kinds {x : Parse σ α} {y : Parse τ β} (h : Alike P n anyKind i Q x y) :
    Alike P n S i Q x y :=
  .weaken (fun _ _ => trivial) (fun h => h) (fun _ _ h => h) h

/-- A function of either result may come after the same computation, if it keeps them related. -/
theorem map {x : Parse σ α} {y : Parse τ β} {f : α → α'} {g : β → β'} (hx : Alike P n S i Q x y)
    (hf : ∀ a b, Q a b → R (f a) (g b)) : Alike P n S i R (f <$> x) (g <$> y) := by
  rw [map_eq_pure_bind, map_eq_pure_bind]
  exact hx.seq fun a b h => .pure (hf a b h)

/-- What comes after looking at the kind of the current token has to be the same computation for
every kind that it can be. -/
theorem kind {f : Kind → Parse σ α} {g : Kind → Parse τ β}
    (h : ∀ k, S k → Alike P n (· = k) i Q (f k) (g k)) :
    Alike P n S i Q (Parse.kind >>= f) (Parse.kind >>= g) := by
  have hcur : Alike P n S i Q (Parse.current >>= fun t => f t.kind)
      (Parse.current >>= fun u => g u.kind) :=
    .current fun t u htu hS => P.kind_eq htu ▸ h t.kind hS
  exact hcur

/-- A choice that does not depend on the cursor is the same computation if both sides are. -/
theorem ite {p : Prop} [Decidable p] {x x' : Parse σ α} {y y' : Parse τ β}
    (h : p → Alike P n S i Q x y) (h' : ¬p → Alike P n S i Q x' y') :
    Alike P n S i Q (if p then x else x') (if p then y else y') := by
  by_cases hp : p
  · rw [if_pos hp, if_pos hp]
    exact h hp
  · rw [if_neg hp, if_neg hp]
    exact h' hp

/-! ### Primitives -/

/-- Consuming whatever token is current. -/
theorem take : Alike P n S false P.corresponds Parse.advance Parse.advance :=
  .weaken (fun _ h => h) id (fun _ _ h => h.1) (.advance nofun)

/-- Consuming a token that is known not to be the end of the input. -/
theorem consume (h : ∀ k, S k → k ≠ .eof) :
    Alike P n S true P.corresponds Parse.advance Parse.advance :=
  .weaken (fun _ h => h) id (fun _ _ h => h.1) (.advance fun _ => h)

/-- The faults of two corresponding tokens. -/
theorem unexpected {cause : Token → FaultCause}
    (hcause : ∀ t u, P.corresponds t u → cause t = cause u) :
    Alike P n S i Q (unexpected cause) (unexpected cause) := by
  have hcur : Alike P n S i Q
      (Parse.current >>= fun t =>
        Parse.fail t.span (if t.kind = .error then .unscannable t.value else cause t))
      (Parse.current >>= fun t =>
        Parse.fail t.span (if t.kind = .error then .unscannable t.value else cause t)) := by
    refine .current fun t u htu _ => ?_
    have heq : (if t.kind = .error then FaultCause.unscannable t.value else cause t) =
        if u.kind = .error then .unscannable u.value else cause u := by
      rw [hcause t u htu, ← P.kind_eq htu]
      split
      · next hk => rw [P.value_eq htu (by simp [hk])]
      · rfl
    rw [heq]
    exact .fail htu
  exact hcur

/-- A punctuation mark that is expected is the same computation, and gives corresponding tokens. -/
theorem expect (p : Punctuator) : Alike P n S true P.corresponds (expect p) (expect p) :=
  .kind fun _ _ => .ite (fun h => .consume fun _ h' => by simp [h', h])
    fun _ => .unexpected fun t u htu => by rw [P.description_eq htu]

/-- A name that has been read is the same on both sides. -/
theorem identifier : Alike P n S true (fun t u => t.value = u.value ∧ P.corresponds t u)
    identifier identifier := by
  refine .kind fun k _ => .ite (fun h => ?_)
    fun _ => .unexpected fun t u htu => by rw [P.description_eq htu]
  refine .weaken (fun _ h' => h') id ?_ (.advance fun _ _ h' => by simp [h', h])
  rintro t u ⟨htu, hk⟩
  exact ⟨P.value_eq htu (by simp [hk, h]), htu⟩

/-- An optional delimiter: consumed where it is current, and otherwise what comes next is read
in its place. -/
theorem accept {p : Punctuator} {f : Bool → Parse σ α} {g : Bool → Parse τ β}
    (h : Alike P n anyKind false Q (f true) (g true))
    (h' : Alike P n S i Q (f false) (g false)) :
    Alike P n S i Q (accept p >>= f) (accept p >>= g) := by
  rw [accept_bind, accept_bind]
  refine .kind fun k hk => .ite (fun heq => ?_) fun _ => ?_
  · exact .seq (.advance fun _ _ hk' => by simp [hk', heq]) fun _ _ _ => h
  · exact .weaken (fun _ hk' => hk' ▸ hk) id (fun _ _ => id) h'

/-- Items collected one by one correspond one by one. -/
theorem collectWhile {continues : Kind → Bool} {x : Parse σ α} {y : Parse τ β}
    (heof : continues .eof = false) (h : Alike P n (continues · = true) true Q x y) :
    Alike P n S false (List.Forall₂ Q) (collectWhile continues x) (collectWhile continues y) := by
  rw [collectWhile_eq, collectWhile_eq]
  have hloop : Alike P n S false (List.Forall₂ Q)
      (Parse.foldWhile continues (fun as => x >>= fun a => Pure.pure (a :: as)) [])
      (Parse.foldWhile continues (fun bs => y >>= fun b => Pure.pure (b :: bs)) []) :=
    .foldWhile heof (fun _ _ hs => h.seq fun _ _ hab => .pure (.cons hab hs)) .nil
  exact hloop.map fun _ _ hs => List.forall₂_reverse_iff.mpr hs

/-- Items in parentheses are the same computation if an item is. -/
theorem parenthesized {x : Parse σ α} {y : Parse τ β} (h : Alike P n anyKind true Q x y) :
    Alike P n S true (List.Forall₂ Q) (parenthesized x) (parenthesized y) := by
  refine .accept (.pure .nil) (.seq (.at_kinds h) fun a b hab => ?_)
  refine .seq (.collectWhile rfl (.andThen .take fun _ _ _ => h)) fun as bs hs => ?_
  exact .andThen (.expect _) fun _ _ _ => .pure (.cons hab hs)

/-! ### Expressions -/

section Expressions

variable {x : Parse σ Expr} {y : Parse τ Expr}

/-- A round of a binary level is the same computation if its operands are. -/
theorem binaryRound {level : BinaryLevel} (h : Alike P n anyKind true Eq x y) (left : Expr) :
    Alike P n S true Eq (binaryRound level x left) (binaryRound level y left) := by
  refine .andThen .take fun t u htu => ?_
  rw [P.kind_eq htu]
  exact h.seq fun _ _ hr => .pure (by rw [hr])

/-- **The binary levels** are the same computation if their operands are, by induction on the list
of levels. -/
theorem binaries (h : Alike P n anyKind true Eq x y) (levels : List BinaryLevel) :
    Alike P n anyKind true Eq (binaries levels x) (binaries levels y) := by
  induction levels with
  | nil => exact h
  | cons level levels ih =>
      refine ih.seq ?_
      rintro left _ rfl
      exact .foldWhile rfl (fun a b hab => hab ▸ ih.binaryRound a) rfl

/-- An assignment is the same computation if its sides are, even though the two grammars of the
pairing may differ in what can be assigned to. -/
theorem assignment (h : Alike P n anyKind true Eq x y) :
    Alike P n S true Eq (P.left.assignment x) (P.right.assignment y) := by
  refine .seq (.at_kinds (h.binaries _)) ?_
  rintro target _ rfl
  refine .kind fun k _ => .ite (fun hk => ?_) fun _ => .pure rfl
  refine .seq .take fun t u htu => .andThen (h.binaries _) ?_
  rintro value _ rfl
  rw [← P.kind_eq htu]
  rcases P.assign_eq target t.kind value with heq | ⟨heq, hspared⟩
  · rw [← heq]
    cases P.left.assign target t.kind value with
    | none => exact .fail htu
    | some e => exact .pure rfl
  · rw [heq]
    cases P.right.assign target t.kind value with
    | none => exact .fail htu
    | some e => exact .spared hspared

/-- A primary expression is the same computation if what is in parentheses is. -/
theorem primary (h : Alike P n anyKind true Eq x y) :
    Alike P n anyKind true Eq (primary x) (primary y) := by
  rw [primary_eq, primary_eq]
  refine .current fun t u htu _ => ?_
  rw [← Token.atom?_congr (P.kind_eq htu) (P.value_eq htu), ← P.kind_eq htu]
  cases hatom : t.atom? with
  | some e =>
      have hne := Token.kind_ne_eof_of_atom? hatom
      exact .seq (.consume fun _ hk => by rwa [hk]) fun _ _ _ => .pure rfl
  | none =>
      refine .ite (fun hk => ?_) fun _ => .ite (fun hk => ?_) fun _ =>
        .ite (fun hk => ?_) fun _ => ?_
      · refine .andThen .take fun _ _ _ => .seq h fun e e' he => ?_
        exact .andThen (.expect _) fun _ _ _ => .pure (by rw [he])
      · refine .andThen .take fun _ _ _ => .seq (.expect _) fun _ _ _ => ?_
        exact .andThen .identifier fun _ _ hv => .pure (by rw [hv.1])
      · rw [P.refusal_eq htu (by rcases hk with hk | hk <;> simp [hk])]
        exact .fail htu
      · exact .andThen .take fun _ _ _ => .fail htu

/-- One call or access is the same computation if the arguments are. -/
theorem accessRound (h : Alike P n anyKind true Eq x y) (e : Expr) :
    Alike P n (Kind.isAccess · = true) true Eq (accessRound x e) (accessRound y e) := by
  refine .andThen .take fun t u htu => ?_
  rw [← P.kind_eq htu]
  refine .ite (fun _ => ?_) fun _ => ?_
  · refine .seq h.parenthesized fun args args' hs => .pure ?_
    rw [List.forall₂_eq_eq_eq] at hs
    rw [hs]
  · exact .seq .identifier fun _ _ hv => .pure (by rw [hv.1])

/-- Calls and accesses are the same computation if what they are made on and their arguments are. -/
theorem accesses (h : Alike P n anyKind true Eq x y) :
    Alike P n S true Eq (accesses x) (accesses y) := by
  refine .seq (.at_kinds h.primary) ?_
  rintro first _ rfl
  exact .foldWhile rfl (fun a b hab => hab ▸ h.accessRound a) rfl

end Expressions

/-! ### Statements -/

section Statements

variable {x : Parse σ Expr} {y : Parse τ Expr} {s : Parse σ Stmt} {t : Parse τ Stmt}

/-- A condition is the same computation between its parentheses. -/
theorem condition (h : Alike P n anyKind true Eq x y) :
    Alike P n S true Eq (condition x) (condition y) :=
  .seq (.expect _) fun _ _ _ => .andThen h fun _ _ he => .andThen (.expect _) fun _ _ _ => .pure he

/-- An expression that may be missing is the same computation, and may consume nothing. -/
theorem optionalBefore (h : Alike P n anyKind true Eq x y) (stop : Punctuator) :
    Alike P n S false Eq (optionalBefore stop x) (optionalBefore stop y) :=
  .kind fun _ _ => .ite (fun _ => .pure rfl) fun _ =>
    .andThen (.at_kinds h) fun _ _ he => .pure (by rw [he])

/-- Items in braces are the same computation if an item is. -/
theorem braced {u : Parse σ α} {v : Parse τ α} (h : Alike P n anyKind true Eq u v) :
    Alike P n S true Eq (braced u) (braced v) := by
  refine .seq (.expect _) fun _ _ _ => ?_
  refine .seq (.collectWhile rfl (.at_kinds h)) fun as bs hs => ?_
  exact .andThen (.expect _) fun _ _ _ => .pure (List.forall₂_eq_eq_eq ▸ hs)

/-- A binding is the same computation if its value is. Its keyword is consumed unseen, so that it
must not be the end of the input. -/
theorem binding (h : Alike P n anyKind true Eq x y) (hS : ∀ k, S k → k ≠ .eof) :
    Alike P n S true Eq (binding x) (binding y) := by
  refine .seq (.consume hS) fun keyword keyword' hkw => ?_
  refine .andThen .identifier fun name name' hname => ?_
  rw [P.kind_eq hkw, hname.1]
  have hend : ∀ value value' : Option Expr, value = value' →
      Alike P n anyKind false Eq
        (do
          let _ ← Parse.expect .semicolon
          return Stmt.binding name'.value value (keyword'.kind = .keyword .constKw))
        (do
          let _ ← Parse.expect .semicolon
          return Stmt.binding name'.value value' (keyword'.kind = .keyword .constKw)) :=
    fun _ _ hv => .andThen (.expect _) fun _ _ _ => .pure (by rw [hv])
  exact .accept (.andThen (h.map fun _ _ he => congrArg some he) hend) (.andThen (.pure rfl) hend)

/-- The names in a list of parameters are the same on both sides. -/
theorem map_value_eq {R : Token → Token → Prop} (hR : ∀ t u, R t u → t.value = u.value)
    {ts us : List Token} (h : List.Forall₂ R ts us) : ts.map Token.value = us.map Token.value := by
  induction h with
  | nil => rfl
  | cons htu _ ih => rw [List.map_cons, List.map_cons, hR _ _ htu, ih]

/-- A function is the same computation if the statements of its body are. -/
theorem functionDecl (h : Alike P n anyKind true Eq s t) :
    Alike P n S true Eq (functionDecl s) (functionDecl t) := by
  refine .seq .identifier fun name name' hname => ?_
  refine .andThen (.expect _) fun _ _ _ => .andThen (.parenthesized .identifier) fun ps qs hps => ?_
  refine .andThen h.braced fun body body' hbody => .pure ?_
  have hnil : ps = [] ↔ qs = [] := by
    cases hps <;> simp
  simp only [hname.1, hbody, map_value_eq (fun _ _ h => h.1) hps, hnil]

/-- A superclass is the same computation, and may consume nothing. -/
theorem superclass (name : Bytes) : Alike P n S false Eq (superclass name) (superclass name) := by
  refine .accept ?_ (.pure rfl)
  refine .andThen .identifier fun parent parent' hparent => ?_
  rw [hparent.1]
  refine .ite (fun _ => .fail hparent.2) fun _ => .ite (fun _ => .pure rfl) fun _ => .pure rfl

/-- A class is the same computation if the statements of its methods are. -/
theorem classDecl (h : Alike P n anyKind true Eq s t) (hS : ∀ k, S k → k ≠ .eof) :
    Alike P n S true Eq (classDecl s) (classDecl t) := by
  refine .seq (.consume hS) fun _ _ _ => .andThen .identifier fun name name' hname => ?_
  rw [hname.1]
  refine .andThen (.superclass _) fun parent parent' hparent => ?_
  exact .andThen h.functionDecl.braced fun ms ms' hms => .pure (by rw [hparent, hms])

/-- A statement that is an expression is the same computation if the expression is. -/
theorem expressionStatement (h : Alike P n anyKind true Eq x y) :
    Alike P n S true Eq (expressionStatement x) (expressionStatement y) :=
  .seq (.at_kinds h) fun _ _ he => .andThen (.expect _) fun _ _ _ => .pure (by rw [he])

/-- The initializer of a loop is the same computation if its expression is. -/
theorem initializer (h : Alike P n anyKind true Eq x y) :
    Alike P n S false Eq (initializer x) (initializer y) := by
  refine .accept (.pure rfl) (.kind fun k _ => .ite (fun hk => ?_) fun _ => ?_)
  · exact .andThen (h.binding fun _ hk' => by simp [hk', hk]) fun _ _ hs => .pure (by rw [hs])
  · exact .andThen h.expressionStatement fun _ _ hs => .pure (by rw [hs])

/-- A loop with clauses is the same computation if the clauses and the body are. -/
theorem forLoop (h : Alike P n anyKind true Eq x y) (hs : Alike P n anyKind true Eq s t)
    (hS : ∀ k, S k → k ≠ .eof) : Alike P n S true Eq (forLoop x s) (forLoop y t) := by
  refine .seq (.consume hS) fun _ _ _ => .andThen (.expect _) fun _ _ _ => ?_
  refine .andThen h.initializer fun init init' hinit => ?_
  refine .andThen (h.optionalBefore _) fun test test' htest => .andThen (.expect _) fun _ _ _ => ?_
  refine .andThen (h.optionalBefore _) fun next next' hnext => .andThen (.expect _) fun _ _ _ => ?_
  exact .andThen hs fun body body' hbody => .pure (by rw [hinit, htest, hnext, hbody])

/-- A conditional is the same computation if its condition and its branches are. -/
theorem branch (h : Alike P n anyKind true Eq x y) (hs : Alike P n anyKind true Eq s t)
    (hS : ∀ k, S k → k ≠ .eof) : Alike P n S true Eq (branch x s) (branch y t) := by
  refine .seq (.consume hS) fun _ _ _ => .andThen h.condition fun test test' htest => ?_
  refine .andThen hs fun yes yes' hyes => .kind fun k _ => ?_
  rw [htest, hyes]
  refine .ite (fun _ => ?_) fun _ => .pure rfl
  exact .andThen .take fun _ _ _ => .andThen hs fun no no' hno => .pure (by rw [hno])

/-- A loop is the same computation if its condition and its body are. -/
theorem whileLoop (h : Alike P n anyKind true Eq x y) (hs : Alike P n anyKind true Eq s t)
    (hS : ∀ k, S k → k ≠ .eof) : Alike P n S true Eq (whileLoop x s) (whileLoop y t) := by
  refine .seq (.consume hS) fun _ _ _ => .andThen h.condition fun test test' htest => ?_
  exact .andThen hs fun body body' hbody => .pure (by rw [htest, hbody])

/-- A statement that prints is the same computation if the expression is. -/
theorem printing (h : Alike P n anyKind true Eq x y) (hS : ∀ k, S k → k ≠ .eof) :
    Alike P n S true Eq (printing x) (printing y) :=
  .seq (.consume hS) fun _ _ _ => .andThen h fun _ _ he =>
    .andThen (.expect _) fun _ _ _ => .pure (by rw [he])

/-- A statement that returns is the same computation if its value is. -/
theorem returning (h : Alike P n anyKind true Eq x y) (hS : ∀ k, S k → k ≠ .eof) :
    Alike P n S true Eq (returning x) (returning y) :=
  .seq (.consume hS) fun _ _ _ => .andThen (h.optionalBefore _) fun _ _ he =>
    .andThen (.expect _) fun _ _ _ => .pure (by rw [he])

/-- **An item of a block** is the same computation over levels that are. -/
theorem itemOver {s' : Parse σ Stmt} {t' : Parse τ Stmt} (h : Alike P n anyKind true Eq x y)
    (hd : Alike P n anyKind true Eq s t) (hs : Alike P n anyKind true Eq s' t') :
    Alike P n anyKind true Eq (itemOver x s s') (itemOver y t t') := by
  refine .kind fun k _ => .ite (fun hk => ?_) fun _ => .ite (fun hk => ?_) fun _ =>
    .ite (fun hk => ?_) fun _ => .at_kinds hs
  · exact h.binding fun _ hk' => by rcases hk with hk | hk <;> simp [hk', hk]
  · exact hd.classDecl fun _ hk' => by simp [hk', hk]
  · exact .andThen .take fun _ _ _ => .seq hd.functionDecl fun _ _ hf => .pure (by rw [hf])

/-- **A statement** is the same computation over levels that are. -/
theorem clauseOver {s' : Parse σ Stmt} {t' : Parse τ Stmt} (h : Alike P n anyKind true Eq x y)
    (hd : Alike P n anyKind true Eq s t) (hs : Alike P n anyKind true Eq s' t') :
    Alike P n anyKind true Eq (clauseOver x s s') (clauseOver y t t') := by
  refine .kind fun k _ => .ite (fun hk => ?_) fun _ => .ite (fun hk => ?_) fun _ =>
    .ite (fun hk => ?_) fun _ => .ite (fun hk => ?_) fun _ => .ite (fun hk => ?_) fun _ =>
    .ite (fun hk => ?_) fun _ => h.expressionStatement
  · exact h.printing fun _ hk' => by simp [hk', hk]
  · exact h.branch hs fun _ hk' => by simp [hk', hk]
  · exact h.whileLoop hs fun _ hk' => by simp [hk', hk]
  · exact h.forLoop hs fun _ hk' => by simp [hk', hk]
  · exact h.returning fun _ hk' => by simp [hk', hk]
  · exact .seq hd.braced fun _ _ hb => .pure (by rw [hb])

end Statements

/-! ### The recursive levels

The right parser has `e` charges more than the left one. If that is any at all it has to be
`ahead`, and then the left parser may be out of charges where the right one takes another. -/

section Levels

variable {e : Nat}

/-- **Operands** are the same computation, by induction on the charges. The right parser may have
more of them if the left one need not get as far. -/
theorem operand (he : e = 0 ∨ P.ahead) (d : Nat) :
    Alike P d anyKind true Eq (P.left.operand d) (P.right.operand (d + e)) := by
  induction d with
  | zero =>
      cases e with
      | zero =>
          refine .kind fun k _ => .ite (fun _ => .exhausted) fun _ => .accesses ?_
          exact .exhausted
      | succ m =>
          have h := he.resolve_left (Nat.succ_ne_zero m)
          rw [Nat.zero_add]
          refine .kind fun k _ => .ite (fun _ => .ahead h) fun _ => .accesses ?_
          exact .ahead h
  | succ d ih =>
      rw [Nat.add_right_comm]
      refine .kind fun k _ => .ite (fun _ => ?_) fun _ => .accesses ?_
      · refine .charged (.andThen .take fun t u htu => .seq ih fun _ _ he => .pure ?_)
        rw [P.kind_eq htu, he]
      · exact .charged ih.assignment

/-- **Expressions** are the same computation, whatever charges are left. -/
theorem expression (he : e = 0 ∨ P.ahead) (d : Nat) :
    Alike P d anyKind true Eq (P.left.expression d) (P.right.expression (d + e)) := by
  cases d with
  | zero =>
      cases e with
      | zero => exact .exhausted
      | succ m =>
          rw [Nat.zero_add]
          exact .ahead (he.resolve_left (Nat.succ_ne_zero m))
  | succ d =>
      rw [Nat.add_right_comm]
      exact .charged (operand he d).assignment

/-- **The grammar is one for both parsers.** Induction on the charges left. -/
theorem declaration_statement (he : e = 0 ∨ P.ahead) (d : Nat) :
    Alike P d anyKind true Eq (P.left.declaration d) (P.right.declaration (d + e)) ∧
      Alike P d anyKind true Eq (P.left.statement d) (P.right.statement (d + e)) := by
  induction d with
  | zero =>
      cases e with
      | zero => exact ⟨.exhausted, .exhausted⟩
      | succ m =>
          have h := he.resolve_left (Nat.succ_ne_zero m)
          rw [Nat.zero_add]
          exact ⟨.ahead h, .ahead h⟩
  | succ d ih =>
      rw [Nat.add_right_comm]
      have hx := expression he d
      exact ⟨.charged (hx.itemOver ih.1 ih.2), .charged (hx.clauseOver ih.1 ih.2)⟩

/-- **Items of a block** are the same computation, with the statements among them. -/
theorem declaration (he : e = 0 ∨ P.ahead) (d : Nat) :
    Alike P d anyKind true Eq (P.left.declaration d) (P.right.declaration (d + e)) :=
  (declaration_statement he d).1

/-- The next statement is the same computation, and may be missing. -/
theorem nextStatement (he : e = 0 ∨ P.ahead) (d : Nat) :
    Alike P d anyKind false Eq (P.left.nextStatement d) (P.right.nextStatement (d + e)) :=
  .kind fun _ _ => .ite (fun _ => .pure rfl) fun _ =>
    .andThen (.at_kinds (declaration he d)) fun _ _ hs => .pure (by rw [hs])

/-- **A program is the same computation** for the two parsers of a pairing. -/
theorem program (he : e = 0 ∨ P.ahead) (d : Nat) :
    Alike P d anyKind false Eq (P.left.program d) (P.right.program (d + e)) := by
  have h : Alike P d anyKind false (List.Forall₂ Eq) (P.left.program d)
      (P.right.program (d + e)) :=
    .collectWhile rfl (.at_kinds (declaration he d))
  rwa [List.forall₂_eq_eq_eq] at h

end Levels

end Alike

end ScriptFront
