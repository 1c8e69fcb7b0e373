import ScriptFront.Proofs.Soundness.Expression

/-!
# Statements that are Parsed are Spelled by what was Read

The statement grammar over `Soundness.Expression`: one lemma for each production, and one induction
on the charges for declarations and statements together (`Parse.declaration_statement_spells`).

The only place where the token after a production matters is a **pending `if`**. A statement that
ends in an `if` without `else` is returned only where the next token is not `else`
(`Stmt.Fits.not_else`); that is why the branch before an `else` never ends in one.

`Program.reads_of_ofTokens` is the result for every source of tokens.
-/

namespace ScriptFront

open Text

/-- A canonical statement that is no declaration and needs at most `charges`, before a token of
kind `next`. -/
structure Stmt.Fits (charges : Nat) (s : Stmt) (next : Kind) : Prop where
  canonical : s.canonical = true
  not_declaration : s.isDeclaration = false
  need_le : s.need ≤ charges
  not_else : s.isOpen = true → next ≠ .keyword .elseKw

/-- A canonical item that needs at most `charges`, its own charge included. -/
structure Stmt.FitsItem (charges : Nat) (s : Stmt) : Prop where
  canonical : s.canonical = true
  need_lt : s.need < charges

/-- A canonical function that needs at most `charges`. -/
structure FunctionDecl.Fits (charges : Nat) (f : FunctionDecl) : Prop where
  canonical : f.canonical = true
  need_le : f.need ≤ charges

/-! ### Lists of items -/

namespace Stmt

/-- Items fit together if each of them does. -/
theorem fits_items {d : Nat} {ss : List Stmt} (h : ∀ s ∈ ss, s.FitsItem d) :
    canonicals ss = true ∧ needs ss ≤ d :=
  ⟨canonicals_iff.mpr fun s hs => (h s hs).canonical,
    needs_le_iff.mpr fun s hs => (h s hs).need_lt⟩

end Stmt

/-- Methods fit together if each of them does. -/
theorem FunctionDecl.fits_methods {d : Nat} {fs : List FunctionDecl} (h : ∀ f ∈ fs, f.Fits d) :
    canonicals fs = true ∧ needs fs ≤ d :=
  ⟨canonicals_iff.mpr fun f hf => (h f hf).canonical,
    needs_le_iff.mpr fun f hf => (h f hf).need_le⟩

namespace Parse

variable {σ : Type} [TokenSource σ] {α : Type}

/-- A parser of statements whose results fit. -/
abbrev SpellsStmt (x : Parse σ Stmt) (charges : Nat) : Prop :=
  x.Spells Stmt.symbols fun s next => s.Fits charges next

/-- A parser of items whose results fit. -/
abbrev SpellsItem (x : Parse σ Stmt) (charges : Nat) : Prop :=
  x.Spells Stmt.symbols fun s _ => s.FitsItem charges

/-! ### Parts of statements -/

/-- A condition spells its symbols between parentheses. -/
theorem condition_spells {x : Parse σ Expr} {d : Nat} (hx : x.SpellsWhole d) :
    (condition x).Spells (fun e => .punct .parenLeft :: e.symbols ++ [.punct .parenRight])
      fun e _ => e.FitsWhole d := by
  intro c e c' hn h
  obtain ⟨t₁, c₁, h₁, h⟩ := bind_eq_ok_iff.mp h
  obtain ⟨e', c₂, h₂, h⟩ := bind_eq_ok_iff.mp h
  obtain ⟨t₃, c₃, h₃, h⟩ := bind_eq_ok_iff.mp h
  obtain ⟨rfl, rfl⟩ := pure_eq_ok_iff.mp h
  have hr₁ := reads_of_expect h₁
  obtain ⟨hr₂, hfit⟩ := hx (hn.of_reads hr₁) h₂
  exact ⟨(hr₁.append hr₂).append (reads_of_expect h₃), hfit⟩

/-- An expression that may be missing spells its symbols, or none. -/
theorem optionalBefore_spells {x : Parse σ Expr} {d : Nat} (hx : x.SpellsWhole d)
    (stop : Punctuator) :
    (optionalBefore stop x).Spells (Stmt.clauseSymbols []) fun v _ =>
      Stmt.clauseCanonical v = true ∧ Stmt.clauseNeed v ≤ d := by
  intro c v c' hn h
  simp only [optionalBefore, kind_bind] at h
  split at h
  · obtain ⟨rfl, rfl⟩ := pure_eq_ok_iff.mp h
    exact ⟨rfl, rfl, Nat.zero_le _⟩
  · obtain ⟨e, c₁, h₁, h⟩ := bind_eq_ok_iff.mp h
    obtain ⟨rfl, rfl⟩ := pure_eq_ok_iff.mp h
    obtain ⟨hr, hfit⟩ := hx hn h₁
    exact ⟨hr, hfit.canonical, hfit.need_le⟩

/-- Items in braces read their symbols between braces. -/
theorem braced_reads {item : Parse σ α} {S : α → List Symbol} {P : α → Prop}
    (hitem : item.Spells S fun a _ => P a) (hne : ∀ a, S a ≠ []) {as : List α}
    {c c' : Cursor σ} (hn : c.Named) (h : braced item c = .ok as c') :
    c.Reads (.punct .braceLeft :: as.flatMap S ++ [.punct .braceRight]) c' ∧ ∀ a ∈ as, P a := by
  obtain ⟨t₁, c₁, h₁, h⟩ := bind_eq_ok_iff.mp h
  obtain ⟨as', c₂, h₂, h⟩ := bind_eq_ok_iff.mp h
  obtain ⟨t₃, c₃, h₃, h⟩ := bind_eq_ok_iff.mp h
  obtain ⟨rfl, rfl⟩ := pure_eq_ok_iff.mp h
  have hr₁ := reads_of_expect h₁
  have hitems := collectWhile_reads (S := S) (P := P) rfl (by
    intro c a c' hn _ h
    obtain ⟨hr, hP⟩ := hitem hn h
    exact ⟨hr, hne a, hP⟩) (hn.of_reads hr₁) h₂
  obtain ⟨hr₂, hP, -⟩ := hitems
  exact ⟨(hr₁.append hr₂).append (reads_of_expect h₃), hP⟩

/-! ### Declarations -/

/-- A binding reads its symbols, and its keyword tells whether it is constant. -/
theorem binding_reads {x : Parse σ Expr} {d : Nat} (hx : x.SpellsWhole d) {s : Stmt}
    {c c' : Cursor σ} (hn : c.Named)
    (hk : c.current.kind = .keyword .letKw ∨ c.current.kind = .keyword .constKw)
    (h : binding x c = .ok s c') :
    c.Reads s.symbols c' ∧ ∃ name value,
      s = .binding name value (c.current.kind = .keyword .constKw) ∧
      Stmt.clauseCanonical value = true ∧ Stmt.clauseNeed value ≤ d := by
  rw [binding] at h
  rw [advance_bind] at h
  obtain ⟨name, c₁, h₁, h⟩ := bind_eq_ok_iff.mp h
  have hkey : c.Reads [.word (if c.current.kind = .keyword .constKw then .constKw else .letKw)]
      c.step := by
    refine ⟨symbol?_word ?_, rfl⟩
    rcases hk with hk | hk <;> rw [hk] <;> rfl
  have hr₁ := hkey.append (reads_of_identifier h₁)
  have hn₁ := hn.of_reads hr₁
  by_cases heq : c₁.current.kind = .punctuator .equals
  · rw [bind_ok (accept_of_eq heq), if_pos rfl] at h
    obtain ⟨v, c₂, hmap, h⟩ := bind_eq_ok_iff.mp h
    obtain ⟨e, h₂, rfl⟩ := map_eq_ok_iff.mp hmap
    obtain ⟨t₃, c₃, h₃, h⟩ := bind_eq_ok_iff.mp h
    obtain ⟨rfl, rfl⟩ := pure_eq_ok_iff.mp h
    have hre : c₁.Reads [.punct .equals] c₁.step := ⟨symbol?_punct heq, rfl⟩
    obtain ⟨hr₂, hfit⟩ := hx (hn₁.of_reads hre) h₂
    refine ⟨?_, _, _, rfl, hfit.canonical, hfit.need_le⟩
    have hall := ((hr₁.append hre).append hr₂).append (reads_of_expect h₃)
    simpa [Stmt.symbols, Stmt.clauseSymbols] using hall
  · rw [bind_ok (accept_of_ne heq), if_neg Bool.false_ne_true] at h
    obtain ⟨v, c₂, h₂, h⟩ := bind_eq_ok_iff.mp h
    obtain ⟨rfl, rfl⟩ := pure_eq_ok_iff.mp h₂
    obtain ⟨t₃, c₃, h₃, h⟩ := bind_eq_ok_iff.mp h
    obtain ⟨rfl, rfl⟩ := pure_eq_ok_iff.mp h
    refine ⟨?_, _, _, rfl, rfl, Nat.zero_le _⟩
    have hall := hr₁.append (reads_of_expect h₃)
    simpa [Stmt.symbols, Stmt.clauseSymbols] using hall

/-- An identifier spells its name. -/
theorem identifier_spells :
    (identifier : Parse σ Token).Spells (fun t => [.name t.value]) fun _ _ => True :=
  fun _ _ _ _ h => ⟨reads_of_identifier h, trivial⟩

/-- A function spells its symbols. -/
theorem functionDecl_spells {item : Parse σ Stmt} {d : Nat} (hitem : item.SpellsItem d) :
    (functionDecl item).Spells FunctionDecl.symbols fun f _ => f.Fits d := by
  intro c f c' hn h
  obtain ⟨name, c₁, h₁, h⟩ := bind_eq_ok_iff.mp h
  obtain ⟨t₂, c₂, h₂, h⟩ := bind_eq_ok_iff.mp h
  obtain ⟨params, c₃, h₃, h⟩ := bind_eq_ok_iff.mp h
  obtain ⟨body, c₄, h₄, h⟩ := bind_eq_ok_iff.mp h
  obtain ⟨rfl, rfl⟩ := pure_eq_ok_iff.mp h
  have hr₂ := (reads_of_identifier h₁).append (reads_of_expect h₂)
  obtain ⟨hr₃, -⟩ := parenthesized_reads identifier_spells (hn.of_reads hr₂) h₃
  obtain ⟨hr₄, hbody⟩ :=
    braced_reads hitem Stmt.symbols_ne_nil ((hn.of_reads hr₂).of_reads hr₃) h₄
  obtain ⟨hcanon, hneed⟩ := Stmt.fits_items hbody
  have hparams : (if params = [] then none else some (params.map Token.value)).getD []
      = params.map Token.value := by
    split
    · next hp => rw [hp]; rfl
    · rfl
  refine ⟨?_, ?_, hneed⟩
  · have hall := (hr₂.append hr₃).append hr₄
    simpa [FunctionDecl.symbols, hparams, Stmt.symbolsAll_eq_flatMap, Function.comp_def]
      using hall
  · rw [FunctionDecl.canonical, hcanon, Bool.and_true, decide_eq_true_eq]
    split
    · simp
    · next hp => simpa using hp

/-- A superclass spells its symbols. It is never the class itself, and never has a name without
characters. -/
theorem superclass_spells (name : Bytes) :
    (superclass name : Parse σ (Option Bytes)).Spells Stmt.superclassSymbols fun s _ =>
      s ≠ some name ∧ s ≠ some [] := by
  intro c s c' hn h
  rw [superclass] at h
  by_cases hk : c.current.kind = .punctuator .less
  · rw [bind_ok (accept_of_eq hk), if_pos rfl] at h
    obtain ⟨parent, c₁, h₁, h⟩ := bind_eq_ok_iff.mp h
    have hless : c.Reads [.punct .less] c.step := ⟨symbol?_punct hk, rfl⟩
    obtain ⟨hid, hparent, -⟩ := identifier_eq_ok_iff.mp h₁
    have hnamed := (hn.of_reads hless).current hid
    rw [← hparent] at hnamed
    split at h
    · exact absurd h fail_ne_ok
    · next hself =>
      rw [if_neg hnamed.1] at h
      obtain ⟨rfl, rfl⟩ := pure_eq_ok_iff.mp h
      exact ⟨hless.append (reads_of_identifier h₁), by simpa using hself,
        by simpa using hnamed.1⟩
  · rw [bind_ok (accept_of_ne hk), if_neg Bool.false_ne_true] at h
    obtain ⟨rfl, rfl⟩ := pure_eq_ok_iff.mp h
    exact ⟨rfl, by simp, by simp⟩

/-- A class reads its symbols and fits. -/
theorem classDecl_reads {item : Parse σ Stmt} {d : Nat} (hitem : item.SpellsItem d) {s : Stmt}
    {c c' : Cursor σ} (hn : c.Named) (hk : c.current.kind = .keyword .classKw)
    (h : classDecl item c = .ok s c') : c.Reads s.symbols c' ∧ s.FitsItem (d + 1) := by
  rw [classDecl] at h
  rw [advance_bind] at h
  obtain ⟨name, c₁, h₁, h⟩ := bind_eq_ok_iff.mp h
  obtain ⟨parent, c₂, h₂, h⟩ := bind_eq_ok_iff.mp h
  obtain ⟨methods, c₃, h₃, h⟩ := bind_eq_ok_iff.mp h
  obtain ⟨rfl, rfl⟩ := pure_eq_ok_iff.mp h
  have hkey : c.Reads [.word .classKw] c.step := ⟨symbol?_word hk, rfl⟩
  have hr₁ := hkey.append (reads_of_identifier h₁)
  obtain ⟨hr₂, hself, hempty⟩ := superclass_spells _ (hn.of_reads hr₁) h₂
  obtain ⟨hr₃, hmethods⟩ := braced_reads (functionDecl_spells hitem)
    FunctionDecl.symbols_ne_nil ((hn.of_reads hr₁).of_reads hr₂) h₃
  obtain ⟨hcanon, hneed⟩ := FunctionDecl.fits_methods hmethods
  refine ⟨?_, ?_, ?_⟩
  · have hall := (hr₁.append hr₂).append hr₃
    simpa [Stmt.symbols, FunctionDecl.symbolsAll_eq_flatMap] using hall
  · simp [Stmt.canonical, hself, hempty, hcanon]
  · simp only [Stmt.need]
    omega

/-! ### Statements -/

/-- A statement that is an expression reads its symbols. -/
theorem expressionStatement_reads {x : Parse σ Expr} {d : Nat} (hx : x.SpellsWhole d) {s : Stmt}
    {c c' : Cursor σ} (hn : c.Named) (h : expressionStatement x c = .ok s c') :
    c.Reads s.symbols c' ∧ ∃ e, s = .expression e ∧ e.FitsWhole d := by
  obtain ⟨e, c₁, h₁, h⟩ := bind_eq_ok_iff.mp h
  obtain ⟨t, c₂, h₂, h⟩ := bind_eq_ok_iff.mp h
  obtain ⟨rfl, rfl⟩ := pure_eq_ok_iff.mp h
  obtain ⟨hr, hfit⟩ := hx hn h₁
  exact ⟨hr.append (reads_of_expect h₂), e, rfl, hfit⟩

/-- The initializer of a loop spells its symbols. -/
theorem initializer_spells {x : Parse σ Expr} {d : Nat} (hx : x.SpellsWhole d) :
    (initializer x).Spells Stmt.initSymbols fun i _ =>
      Stmt.initCanonical i = true ∧ Stmt.initNeed i ≤ d := by
  intro c i c' hn h
  rw [initializer] at h
  by_cases hk : c.current.kind = .punctuator .semicolon
  · rw [bind_ok (accept_of_eq hk), if_pos rfl] at h
    obtain ⟨rfl, rfl⟩ := pure_eq_ok_iff.mp h
    exact ⟨⟨symbol?_punct hk, rfl⟩, rfl, Nat.zero_le _⟩
  · rw [bind_ok (accept_of_ne hk), if_neg Bool.false_ne_true, kind_bind] at h
    split at h
    · next hlet =>
      obtain ⟨s, c₁, h₁, h⟩ := bind_eq_ok_iff.mp h
      obtain ⟨rfl, rfl⟩ := pure_eq_ok_iff.mp h
      obtain ⟨hr, name, value, rfl, hcanon, hneed⟩ := binding_reads hx hn (.inl hlet) h₁
      refine ⟨hr, ?_, hneed⟩
      simp [Stmt.initCanonical, hlet, hcanon]
    · obtain ⟨s, c₁, h₁, h⟩ := bind_eq_ok_iff.mp h
      obtain ⟨rfl, rfl⟩ := pure_eq_ok_iff.mp h
      obtain ⟨hr, e, rfl, hfit⟩ := expressionStatement_reads hx hn h₁
      exact ⟨hr, hfit.canonical, hfit.need_le⟩

/-- A loop with clauses reads its symbols and fits what follows. -/
theorem forLoop_reads {x : Parse σ Expr} {y : Parse σ Stmt} {d : Nat} (hx : x.SpellsWhole d)
    (hy : y.SpellsStmt d) {s : Stmt} {c c' : Cursor σ} (hn : c.Named)
    (hk : c.current.kind = .keyword .forKw) (h : forLoop x y c = .ok s c') :
    c.Reads s.symbols c' ∧ s.Fits (d + 1) c'.current.kind := by
  rw [forLoop] at h
  rw [advance_bind] at h
  obtain ⟨t₁, c₁, h₁, h⟩ := bind_eq_ok_iff.mp h
  obtain ⟨init, c₂, h₂, h⟩ := bind_eq_ok_iff.mp h
  obtain ⟨test, c₃, h₃, h⟩ := bind_eq_ok_iff.mp h
  obtain ⟨t₄, c₄, h₄, h⟩ := bind_eq_ok_iff.mp h
  obtain ⟨increment, c₅, h₅, h⟩ := bind_eq_ok_iff.mp h
  obtain ⟨t₆, c₆, h₆, h⟩ := bind_eq_ok_iff.mp h
  obtain ⟨body, c₇, h₇, h⟩ := bind_eq_ok_iff.mp h
  obtain ⟨rfl, rfl⟩ := pure_eq_ok_iff.mp h
  have hkey : c.Reads [.word .forKw] c.step := ⟨symbol?_word hk, rfl⟩
  have hr₁ := hkey.append (reads_of_expect h₁)
  obtain ⟨hr₂, hinit, hinitNeed⟩ := initializer_spells hx (hn.of_reads hr₁) h₂
  have hr := hr₁.append hr₂
  obtain ⟨hr₃, htest, htestNeed⟩ := optionalBefore_spells hx _ (hn.of_reads hr) h₃
  have hr := (hr.append hr₃).append (reads_of_expect h₄)
  obtain ⟨hr₅, hincr, hincrNeed⟩ := optionalBefore_spells hx _ (hn.of_reads hr) h₅
  have hr := (hr.append hr₅).append (reads_of_expect h₆)
  obtain ⟨hr₇, hbody⟩ := hy (hn.of_reads hr) h₇
  have hbodyNeed := hbody.need_le
  refine ⟨?_, ?_, rfl, ?_, hbody.not_else⟩
  · have hall := hr.append hr₇
    cases init <;> simpa [Stmt.symbols, Stmt.initSymbols] using hall
  · simp [Stmt.canonical, hinit, htest, hincr, hbody.not_declaration, hbody.canonical]
  · simp only [Stmt.need]
    omega

/-- A conditional reads its symbols and fits what follows. If there is an `else`, the first branch
was left at it, so that this branch cannot have been waiting for one. -/
theorem branch_reads {x : Parse σ Expr} {y : Parse σ Stmt} {d : Nat} (hx : x.SpellsWhole d)
    (hy : y.SpellsStmt d) {s : Stmt} {c c' : Cursor σ} (hn : c.Named)
    (hk : c.current.kind = .keyword .ifKw) (h : branch x y c = .ok s c') :
    c.Reads s.symbols c' ∧ s.Fits (d + 1) c'.current.kind := by
  rw [branch] at h
  rw [advance_bind] at h
  obtain ⟨test, c₁, h₁, h⟩ := bind_eq_ok_iff.mp h
  obtain ⟨yes, c₂, h₂, h⟩ := bind_eq_ok_iff.mp h
  have hkey : c.Reads [.word .ifKw] c.step := ⟨symbol?_word hk, rfl⟩
  obtain ⟨hr₁, htest⟩ := condition_spells hx (hn.of_reads hkey) h₁
  have hr := hkey.append hr₁
  obtain ⟨hr₂, hyes⟩ := hy (hn.of_reads hr) h₂
  have hr := hr.append hr₂
  have htestNeed := htest.need_le
  have hyesNeed := hyes.need_le
  rw [kind_bind] at h
  split at h
  · next helse =>
    rw [advance_bind] at h
    obtain ⟨no, c₃, h₃, h⟩ := bind_eq_ok_iff.mp h
    obtain ⟨rfl, rfl⟩ := pure_eq_ok_iff.mp h
    have hr₃ : c₂.Reads [.word .elseKw] c₂.step := ⟨symbol?_word helse, rfl⟩
    have hr := hr.append hr₃
    obtain ⟨hr₄, hno⟩ := hy (hn.of_reads hr) h₃
    have hnoNeed := hno.need_le
    have hclosed : yes.isOpen = false := by
      cases hopen : yes.isOpen with
      | false => rfl
      | true => exact absurd helse (hyes.not_else hopen)
    refine ⟨?_, ?_, rfl, ?_, hno.not_else⟩
    · have hall := hr.append hr₄
      simpa [Stmt.symbols] using hall
    · simp [Stmt.canonical, htest.canonical, hyes.canonical, hyes.not_declaration, hclosed,
        hno.canonical, hno.not_declaration]
    · simp only [Stmt.need]
      omega
  · next helse =>
    obtain ⟨rfl, rfl⟩ := pure_eq_ok_iff.mp h
    refine ⟨?_, ?_, rfl, ?_, fun _ => helse⟩
    · simpa [Stmt.symbols] using hr
    · simp [Stmt.canonical, htest.canonical, hyes.canonical, hyes.not_declaration]
    · simp only [Stmt.need]
      omega

/-- A loop reads its symbols and fits what follows. -/
theorem whileLoop_reads {x : Parse σ Expr} {y : Parse σ Stmt} {d : Nat} (hx : x.SpellsWhole d)
    (hy : y.SpellsStmt d) {s : Stmt} {c c' : Cursor σ} (hn : c.Named)
    (hk : c.current.kind = .keyword .whileKw) (h : whileLoop x y c = .ok s c') :
    c.Reads s.symbols c' ∧ s.Fits (d + 1) c'.current.kind := by
  rw [whileLoop] at h
  rw [advance_bind] at h
  obtain ⟨test, c₁, h₁, h⟩ := bind_eq_ok_iff.mp h
  obtain ⟨body, c₂, h₂, h⟩ := bind_eq_ok_iff.mp h
  obtain ⟨rfl, rfl⟩ := pure_eq_ok_iff.mp h
  have hkey : c.Reads [.word .whileKw] c.step := ⟨symbol?_word hk, rfl⟩
  obtain ⟨hr₁, htest⟩ := condition_spells hx (hn.of_reads hkey) h₁
  have hr := hkey.append hr₁
  obtain ⟨hr₂, hbody⟩ := hy (hn.of_reads hr) h₂
  have htestNeed := htest.need_le
  have hbodyNeed := hbody.need_le
  refine ⟨?_, ?_, rfl, ?_, hbody.not_else⟩
  · have hall := hr.append hr₂
    simpa [Stmt.symbols] using hall
  · simp [Stmt.canonical, htest.canonical, hbody.canonical, hbody.not_declaration]
  · simp only [Stmt.need]
    omega

/-- A statement that prints reads its symbols and fits what follows. -/
theorem printing_reads {x : Parse σ Expr} {d : Nat} (hx : x.SpellsWhole d) {s : Stmt}
    {c c' : Cursor σ} (hn : c.Named) (hk : c.current.kind = .keyword .printKw)
    (h : printing x c = .ok s c') : c.Reads s.symbols c' ∧ s.Fits (d + 1) c'.current.kind := by
  rw [printing] at h
  rw [advance_bind] at h
  obtain ⟨e, c₁, h₁, h⟩ := bind_eq_ok_iff.mp h
  obtain ⟨t, c₂, h₂, h⟩ := bind_eq_ok_iff.mp h
  obtain ⟨rfl, rfl⟩ := pure_eq_ok_iff.mp h
  have hkey : c.Reads [.word .printKw] c.step := ⟨symbol?_word hk, rfl⟩
  obtain ⟨hr, hfit⟩ := hx (hn.of_reads hkey) h₁
  exact ⟨(hkey.append hr).append (reads_of_expect h₂), hfit.canonical, rfl,
    Nat.succ_le_succ hfit.need_le, by simp [Stmt.isOpen]⟩

/-- A statement that returns reads its symbols and fits what follows. -/
theorem returning_reads {x : Parse σ Expr} {d : Nat} (hx : x.SpellsWhole d) {s : Stmt}
    {c c' : Cursor σ} (hn : c.Named) (hk : c.current.kind = .keyword .returnKw)
    (h : returning x c = .ok s c') : c.Reads s.symbols c' ∧ s.Fits (d + 1) c'.current.kind := by
  rw [returning] at h
  rw [advance_bind] at h
  obtain ⟨v, c₁, h₁, h⟩ := bind_eq_ok_iff.mp h
  obtain ⟨t, c₂, h₂, h⟩ := bind_eq_ok_iff.mp h
  obtain ⟨rfl, rfl⟩ := pure_eq_ok_iff.mp h
  have hkey : c.Reads [.word .returnKw] c.step := ⟨symbol?_word hk, rfl⟩
  obtain ⟨hr, hcanon, hneed⟩ := optionalBefore_spells hx _ (hn.of_reads hkey) h₁
  exact ⟨(hkey.append hr).append (reads_of_expect h₂), hcanon, rfl, Nat.succ_le_succ hneed,
    by simp [Stmt.isOpen]⟩

/-! ### Charges -/

/-- A statement that fits is an item that fits with one more charge. -/
theorem fitsItem_of_fits {d : Nat} {s : Stmt} {k : Kind} (h : s.Fits d k) :
    s.FitsItem (d + 1) :=
  ⟨h.canonical, Nat.lt_succ_of_le h.need_le⟩

/-- **Declarations and statements are spelled by what they read.** Induction on the charges left: a
declaration of `d + 1` charges is made of declarations, statements and expressions of `d`, and so is
a statement. -/
theorem declaration_statement_spells (d : Nat) :
    (declaration d : Parse σ Stmt).SpellsItem d ∧ (statement d : Parse σ Stmt).SpellsStmt d := by
  induction d with
  | zero => exact ⟨fun _ _ _ _ h => absurd h tooDeep_ne_ok, fun _ _ _ _ h => absurd h tooDeep_ne_ok⟩
  | succ d ih =>
      obtain ⟨ihd, ihs⟩ := ih
      have he := expression_spells (σ := σ) d
      constructor
      · intro c s c' hn h
        simp only [declaration, kind_bind] at h
        obtain ⟨x, hx, h⟩ := exists_eq_run h
        split at hx <;> rename_i hk <;> subst hx
        case h_1 =>
            obtain ⟨hr, name, value, rfl, hcanon, hneed⟩ := binding_reads he hn (.inl hk) h
            exact ⟨hr, hcanon, Nat.lt_succ_of_le hneed⟩
        case h_2 =>
            obtain ⟨hr, name, value, rfl, hcanon, hneed⟩ := binding_reads he hn (.inr hk) h
            exact ⟨hr, hcanon, Nat.lt_succ_of_le hneed⟩
        case h_3 => exact classDecl_reads ihd hn hk h
        case h_4 =>
            rw [advance_bind] at h
            obtain ⟨f, c₁, h₁, h⟩ := bind_eq_ok_iff.mp h
            obtain ⟨rfl, rfl⟩ := pure_eq_ok_iff.mp h
            have hkey : c.Reads [.word .functionKw] c.step := ⟨symbol?_word hk, rfl⟩
            obtain ⟨hr, hfit⟩ := functionDecl_spells ihd (hn.of_reads hkey) h₁
            exact ⟨hkey.append hr, hfit.canonical, Nat.lt_succ_of_le hfit.need_le⟩
        case h_5 =>
            obtain ⟨hr, hfit⟩ := ihs hn h
            exact ⟨hr, fitsItem_of_fits hfit⟩
      · intro c s c' hn h
        simp only [statement, kind_bind] at h
        obtain ⟨x, hx, h⟩ := exists_eq_run h
        split at hx <;> rename_i hk <;> subst hx
        case h_1 => exact printing_reads he hn hk h
        case h_2 => exact branch_reads he ihs hn hk h
        case h_3 => exact whileLoop_reads he ihs hn hk h
        case h_4 => exact forLoop_reads he ihs hn hk h
        case h_5 => exact returning_reads he hn hk h
        case h_6 =>
            obtain ⟨body, c₁, h₁, h⟩ := bind_eq_ok_iff.mp h
            obtain ⟨rfl, rfl⟩ := pure_eq_ok_iff.mp h
            obtain ⟨hr, hbody⟩ := braced_reads ihd Stmt.symbols_ne_nil hn h₁
            obtain ⟨hcanon, hneed⟩ := Stmt.fits_items hbody
            refine ⟨?_, hcanon, rfl, Nat.succ_le_succ hneed, by simp [Stmt.isOpen]⟩
            rw [Stmt.symbols, Stmt.symbolsAll_eq_flatMap]
            exact hr
        case h_7 =>
            obtain ⟨hr, e, rfl, hfit⟩ := expressionStatement_reads he hn h
            exact ⟨hr, hfit.canonical, rfl, Nat.succ_le_succ hfit.need_le, by simp [Stmt.isOpen]⟩

end Parse

/-! ### Programs -/

namespace Program

variable {σ : Type} [TokenSource σ]

/-- **A parsed program is spelled by the whole source**: reading its symbols leads from the first
token to the end of the input. It is canonical, and its nesting is within the limit. -/
theorem reads_of_ofTokens {setting : Int} {source : σ} {p : Program}
    (hn : (Cursor.start source).Named) (h : ofTokens setting source = .ok p) :
    (∃ c', (Cursor.start source).Reads p.symbols c' ∧ c'.current.kind = .eof) ∧
      p.canonical = true ∧ p.need ≤ Parser.limitOf setting := by
  simp only [ofTokens, Parser.program, Parser.run, Parser.start] at h
  split at h
  · next ss c' hrun =>
    cases h
    have hitems := Parse.collectWhile_reads (S := Stmt.symbols)
      (P := Stmt.FitsItem (Parser.limitOf setting)) rfl (by
        intro c s c' hn _ h
        obtain ⟨hr, hfit⟩ := (Parse.declaration_statement_spells _).1 hn h
        exact ⟨hr, s.symbols_ne_nil, hfit⟩) hn hrun
    obtain ⟨hr, hfit, hstop⟩ := hitems
    refine ⟨⟨c', ?_, by simpa using hstop⟩, Stmt.fits_items hfit⟩
    rw [symbols, Stmt.symbolsAll_eq_flatMap]
    exact hr
  · cases h

end Program

end ScriptFront
