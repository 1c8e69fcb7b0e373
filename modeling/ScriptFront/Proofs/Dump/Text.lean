import ScriptFront.Program.Dump
import ScriptFront.Proofs.Dump.Operators
import ScriptFront.Proofs.Scanner.Lexing

/-!
# Dumps are Scanned as their Symbols

`Writes text ss` says that the text is scanned as the symbols wherever something follows that
breaks it off. **The dump of a tree writes the symbols of the tree** (`Expr.writes_dump`,
`Stmt.writes_dump`), provided its operators are in their places and its symbols are spellable. The
tree need not be canonical. The induction is on the tree, and each case puts the texts of the parts
together (`Writes.append`, `Writes.punct`). Line by line, the dump of a program is then scanned as
the symbols of the program (`Program.lexes_dump_of_operatorsFit`).

A dump has a blank on both sides of every operator between operands, but none after a unary
operator, a parenthesis or a point. What saves these is that no expression begins with the second
half of an operator (`Writes.frees`).
-/

namespace ScriptFront

open Text Scanner

/-! ### Texts and what may follow them -/

/-- The text is scanned as the symbols **before everything that breaks it off**. -/
def Writes (text : Bytes) (ss : List Symbol) : Prop :=
  ∀ rest, Breaks (Rune.decode rest) →
    Lexes (Rune.decode (text ++ rest)) ss (Rune.decode rest)

/-- The text breaks off what stands before it. -/
def Leads (text : Bytes) : Prop :=
  ∀ rest, Breaks (Rune.decode rest) → Breaks (Rune.decode (text ++ rest))

/-- The text can stand after an operator or delimiter. -/
def Frees (text : Bytes) : Prop :=
  ∀ rest, Breaks (Rune.decode rest) → Loose (Rune.decode (text ++ rest))

/-- What breaks off what stands before it can stand after an operator. -/
theorem Leads.frees {text : Bytes} (h : Leads text) : Frees text :=
  fun rest hrest => (h rest hrest).loose

/-- The empty text breaks off what stands before it if what comes next does. -/
theorem leads_nil : Leads [] :=
  fun _ hrest => hrest

/-- A text that begins with a breaker breaks off what stands before it. -/
theorem leads_cons {c : Char} (h : c ∈ breakers) (text : Bytes) : Leads (byte c :: text) := by
  intro rest _
  rw [List.cons_append, Rune.decode_byte_cons (breakers_spec h).1]
  exact breaks_cons h _

/-- Two texts that break off what stands before them do so together. -/
theorem Leads.append {text text' : Bytes} (h : Leads text) (h' : Leads text') :
    Leads (text ++ text') := by
  intro rest hrest
  rw [List.append_assoc]
  exact h _ (h' rest hrest)

/-- A text that can stand after an operator can go on with one that breaks it off. -/
theorem Frees.append {text text' : Bytes} (h : Frees text) (h' : Leads text') :
    Frees (text ++ text') := by
  intro rest hrest
  rw [List.append_assoc]
  exact h _ (h' rest hrest)

/-- A point breaks off what stands before it if a name follows. -/
theorem leads_point {name : Bytes} (hname : IsName name) (text : Bytes) :
    Leads (byte '.' :: (name ++ text)) := by
  intro rest _
  obtain ⟨⟨c, cs, rfl, hc, -⟩, -⟩ := hname
  rw [List.cons_append, Rune.decode_byte_cons (by decide), List.append_assoc,
    Rune.decode_encode_append]
  refine ⟨?_, List.takeWhile_cons_of_neg (by decide), List.takeWhile_cons_of_neg (by decide), ?_⟩
  · rintro c' more heq
    cases heq
    decide
  · rintro more heq
    cases heq
    refine List.takeWhile_cons_of_neg ?_
    intro hdigit
    rw [not_isWordStart_of_isDigit hdigit] at hc
    cases hc

/-- No operator or delimiter that a tree can begin with begins like the second half of one. -/
theorem not_mem_of_openers {p : Punctuator} (h : p ∈ openers) {c : Char}
    (hc : p.chars.head? = some c) : c ∉ secondHalves := by
  simp only [openers, List.mem_cons, List.not_mem_nil, or_false] at h
  rcases h with rfl | rfl | rfl | rfl | rfl
  all_goals
    cases hc
    decide

namespace Writes

variable {text text' : Bytes} {ss ss' : List Symbol}

/-! ### Putting texts together -/

/-- No text writes no symbols. -/
theorem nil : Writes [] [] :=
  fun _ _ => rfl

/-- Texts one after the other write their symbols in turn, if the second breaks off the first. -/
theorem append (h : Writes text ss) (hlead : Leads text') (h' : Writes text' ss') :
    Writes (text ++ text') (ss ++ ss') := by
  intro rest hrest
  rw [List.append_assoc]
  exact (h _ (hlead rest hrest)).append (h' rest hrest)

/-- A blank in front writes no symbol. -/
theorem blank (h : Writes text ss) : Writes (byte ' ' :: text) ss := by
  intro rest hrest
  rw [List.cons_append, Rune.decode_byte_cons (by decide)]
  exact (h rest hrest).blank rfl

/-- A punctuation mark writes itself, if the text after it can stand there. -/
theorem punct (p : Punctuator) (hfree : Frees text) (h : Writes text ss) :
    Writes (p.spelling ++ text) (.punct p :: ss) := by
  intro rest hrest
  rw [List.append_assoc]
  exact (lexes_punct p (hfree rest hrest)).append (h rest hrest)

/-- **A text that begins like a tree can stand after an operator**: what begins like the second half
of an operator is an operator that no tree begins with. -/
theorem frees (h : Writes text ss) (hss : Begins ss) : Frees text := by
  obtain ⟨s, ss, rfl, hs⟩ := hss
  rintro rest hrest c more htext hc
  have hopens : Punctuator.opens c = true := by
    simp only [secondHalves, List.mem_cons, List.not_mem_nil, or_false] at hc
    rcases hc with rfl | rfl | rfl | rfl <;> rfl
  obtain ⟨r, more', hcore, -, hsym, -⟩ := h rest hrest
  rw [htext, core, List.dropWhile_cons_of_neg (by simp [not_isBlank_of_opens hopens])] at hcore
  cases hcore
  obtain ⟨p, rfl, hp⟩ := exists_punct_of_lexeme hopens hsym
  exact not_mem_of_openers (hs p rfl) hp hc

/-! ### Single symbols -/

/-- A keyword writes itself. -/
theorem keyword (k : Keyword) : Writes k.spelling [.word k] :=
  fun _ hrest => lexes_keyword k hrest

/-- A name writes itself. -/
theorem name {bytes : Bytes} (h : IsName bytes) : Writes bytes [.name bytes] :=
  fun _ hrest => lexes_name h hrest

/-- A number that can be spelled writes itself. -/
theorem number {x : Binary64} (h : (Symbol.number x).Spellable) :
    Writes (Expr.numberStyle.write x) [.number x] :=
  fun _ hrest => lexes_number h hrest

/-- A quoted text writes the text. -/
theorem string {value : Bytes} (h : (Symbol.text value).Spellable) :
    Writes (Literal.quote value) [.text value] := by
  obtain ⟨cs, rfl⟩ := h
  exact fun rest _ => lexes_text cs rest

/-- A reference that can be spelled writes itself. -/
theorem reference {bytes : Bytes} (h : (Symbol.reference bytes).Spellable) :
    Writes bytes [.reference bytes] := by
  rw [Symbol.reference] at h ⊢
  split at h
  · next hthis =>
    rw [if_pos hthis, hthis]
    exact keyword .thisKw
  · next hthis =>
    rw [if_neg hthis]
    exact name h

/-- A punctuation mark at the end of a text writes itself. -/
theorem delimiter (p : Punctuator) : Writes p.spelling [.punct p] := by
  have h := punct p leads_nil.frees nil
  rwa [List.append_nil] at h

/-! ### The shapes of a dump -/

/-- An operator between two operands, with a blank on either side. -/
theorem operation (h : Writes text ss) (p : Punctuator) (h' : Writes text' ss') :
    Writes (text ++ byte ' ' :: p.spelling ++ byte ' ' :: text') (ss ++ .punct p :: ss') := by
  have hright := punct p (leads_cons (by decide) text').frees h'.blank
  have hall := h.append (leads_cons (by decide) _) hright.blank
  rwa [← List.cons_append, ← List.append_assoc] at hall

/-- A point and a name after an object. -/
theorem access (h : Writes text ss) {bytes : Bytes} (hname : IsName bytes) :
    Writes (text ++ byte '.' :: bytes) (ss ++ [.punct .dot, .name bytes]) := by
  have hlead := leads_point hname []
  rw [List.append_nil] at hlead
  have hword := name hname
  exact h.append hlead (punct .dot (hword.frees (begins_name bytes [])) hword)

/-- Parentheses around a text that may also be empty. -/
theorem parenthesized (hfree : Frees text) (h : Writes text ss) :
    Writes (byte '(' :: text ++ [byte ')']) (.punct .parenLeft :: ss ++ [.punct .parenRight]) := by
  have hlead : Leads [byte ')'] := leads_cons (by decide) []
  exact punct .parenLeft (hfree.append hlead) (h.append hlead (delimiter .parenRight))

end Writes

/-! ### Lists -/

namespace Writes

variable {α : Type} {T : α → Bytes} {S : α → List Symbol} {as : List α}

/-- Texts in a row, each of which breaks off the one before. -/
theorem flatMap (h : ∀ a ∈ as, Writes (T a) (S a)) (hlead : ∀ a ∈ as, Leads (T a)) :
    Leads (as.flatMap T) ∧ Writes (as.flatMap T) (as.flatMap S) := by
  induction as with
  | nil => exact ⟨leads_nil, nil⟩
  | cons a as ih =>
      rw [List.forall_mem_cons] at h hlead
      obtain ⟨hrest, htail⟩ := ih h.2 hlead.2
      exact ⟨hlead.1.append hrest, h.1.append hrest htail⟩

/-- Texts with commas between neighbours. -/
theorem separated (h : ∀ a ∈ as, Frees (T a) ∧ Writes (T a) (S a)) :
    Frees (join (utf8 ", ") (as.map T)) ∧
      Writes (join (utf8 ", ") (as.map T)) (Symbol.separated (as.map S)) := by
  cases as with
  | nil => exact ⟨leads_nil.frees, nil⟩
  | cons a as =>
      rw [List.forall_mem_cons] at h
      have hcomma : ∀ a ∈ as, Writes (utf8 ", " ++ T a) (.punct .comma :: S a) := fun a ha =>
        punct .comma (leads_cons (by decide) _).frees (h.2 a ha).2.blank
      obtain ⟨hlead, htail⟩ := flatMap hcomma fun a _ => leads_cons (by decide) _
      rw [List.map_cons, join_cons, List.map_cons, Symbol.separated, List.flatMap_map,
        List.flatMap_map]
      exact ⟨h.1.1.append hlead, h.1.2.append hlead htail⟩

end Writes

/-! ### Expressions -/

/-- What holds of symbols with commas between them holds of each part. -/
theorem Symbol.forall_of_separated {P : Symbol → Prop} {parts : List (List Symbol)}
    (h : ∀ s ∈ separated parts, P s) : ∀ part ∈ parts, ∀ s ∈ part, P s := by
  cases parts with
  | nil => exact nofun
  | cons part parts =>
      rw [separated, List.forall_mem_append] at h
      refine List.forall_mem_cons.mpr ⟨h.1, ?_⟩
      intro part' hpart s hs
      exact h.2 s (List.mem_flatMap.mpr ⟨part', hpart, List.mem_cons_of_mem _ hs⟩)

/-- The dumps of expressions are those of each. -/
theorem Expr.dumps_eq_map (es : List Expr) : dumps es = es.map dump := by
  induction es with
  | nil => rfl
  | cons e es ih => rw [dumps, ih, List.map_cons]

mutual

/-- **The dump of an expression writes its symbols.** Induction on the tree. -/
theorem Expr.writes_dump : (e : Expr) → e.operatorsFit = true → (∀ s ∈ e.symbols, s.Spellable) →
    Writes e.dump e.symbols
  | .boolean true, _, _ => .keyword .trueKw
  | .boolean false, _, _ => .keyword .falseKw
  | .number value, _, hs => .number (hs _ List.mem_cons_self)
  | .string value, _, hs => .string (hs _ List.mem_cons_self)
  | .reference name, _, hs => .reference (hs _ List.mem_cons_self)
  | .unary operator right, h, hs => by
    simp only [Expr.operatorsFit, Bool.and_eq_true] at h
    obtain ⟨p, rfl⟩ := Kind.punctuator_of_isUnary h.1
    have hright := right.writes_dump h.2 (List.forall_mem_cons.mp hs).2
    exact .punct p (hright.frees (right.begins h.2)) hright
  | .binary left operator right, h, hs | .logical left operator right, h, hs => by
    simp only [Expr.operatorsFit, Bool.and_eq_true] at h
    simp only [Expr.symbols, List.forall_mem_append, List.forall_mem_cons] at hs
    obtain ⟨p, rfl⟩ := Kind.isPunctuator_iff.mp h.1.1
    exact (left.writes_dump h.1.2 hs.1).operation p (right.writes_dump h.2 hs.2.2)
  | .grouping inner, h, hs => by
    simp only [Expr.symbols, List.forall_mem_append, List.forall_mem_cons, List.cons_append] at hs
    have hinner := inner.writes_dump h hs.2.1
    exact hinner.parenthesized (hinner.frees (inner.begins h))
  | .assign name operator value, h, hs => by
    simp only [Expr.operatorsFit, Bool.and_eq_true] at h
    simp only [Expr.symbols, List.forall_mem_cons] at hs
    obtain ⟨p, rfl⟩ := Kind.isPunctuator_iff.mp h.1
    exact (Writes.reference hs.1).operation p (value.writes_dump h.2 hs.2.2)
  | .get object name, h, hs => by
    simp only [Expr.symbols, List.forall_mem_append, List.forall_mem_cons] at hs
    exact (object.writes_dump h hs.1).access hs.2.2.1
  | .set object name operator value, h, hs => by
    simp only [Expr.operatorsFit, Bool.and_eq_true] at h
    simp only [Expr.symbols, List.forall_mem_append, List.forall_mem_cons] at hs
    obtain ⟨p, rfl⟩ := Kind.isPunctuator_iff.mp h.1.1
    have hproperty := (object.writes_dump h.1.2 hs.1).access hs.2.2.1
    have hset := hproperty.operation p (value.writes_dump h.2 hs.2.2.2.2)
    simp only [List.append_assoc, List.cons_append, List.nil_append] at hset
    simp only [Expr.dump, Expr.symbols, List.append_assoc, List.cons_append]
    exact hset
  | .super method, _, hs => by
    simp only [Expr.symbols, List.forall_mem_cons] at hs
    exact (Writes.keyword .superKw).access hs.2.2.1
  | .call callee args, h, hs => by
    simp only [Expr.operatorsFit, Bool.and_eq_true] at h
    simp only [Expr.symbols, List.forall_mem_append, List.forall_mem_cons, List.append_assoc,
      List.cons_append] at hs
    rw [Expr.symbolsEach_eq_map] at hs
    have hspell : ∀ e ∈ args, ∀ s ∈ e.symbols, s.Spellable := fun e he =>
      Symbol.forall_of_separated hs.2.2.1 _ (List.mem_map_of_mem he)
    obtain ⟨hfree, hlist⟩ := Writes.separated (Expr.writes_dumps args h.2 hspell)
    rw [← Expr.dumps_eq_map] at hfree hlist
    rw [← Expr.symbolsEach_eq_map] at hlist
    have hcall := (callee.writes_dump h.1 hs.1).append (leads_cons (by decide) _)
      (hlist.parenthesized hfree)
    simp only [Expr.dump, Expr.symbols, List.append_assoc, List.cons_append] at hcall ⊢
    exact hcall

/-- The dumps of expressions write their symbols. -/
theorem Expr.writes_dumps : (es : List Expr) → Expr.operatorsFits es = true →
    (∀ e ∈ es, ∀ s ∈ e.symbols, s.Spellable) → ∀ e ∈ es, Frees e.dump ∧ Writes e.dump e.symbols
  | [], _, _, _, hmem => absurd hmem List.not_mem_nil
  | e :: es, h, hs, e', hmem => by
    simp only [Expr.operatorsFits, Bool.and_eq_true] at h
    rw [List.forall_mem_cons] at hs
    rcases List.mem_cons.mp hmem with heq | hmem
    · have hwrites := e.writes_dump h.1 hs.1
      rw [heq]
      exact ⟨hwrites.frees (e.begins h.1), hwrites⟩
    · exact Expr.writes_dumps es h.2 hs.2 e' hmem

end

/-! ### The shapes of statements -/

namespace Writes

variable {text text' : Bytes} {ss ss' : List Symbol}

/-- A keyword, a blank and what the keyword introduces. -/
theorem introduced (k : Keyword) (h : Writes text ss) :
    Writes (k.spelling ++ byte ' ' :: text) (.word k :: ss) :=
  (keyword k).append (leads_cons (by decide) text) h.blank

/-- A statement that ends in a semicolon. -/
theorem terminated (h : Writes text ss) :
    Writes (text ++ [byte ';']) (ss ++ [.punct .semicolon]) :=
  h.append (leads_cons (by decide) []) (delimiter .semicolon)

/-- What a statement has in parentheses, and its body. -/
theorem headed (hfree : Frees text) (h : Writes text ss) (h' : Writes text' ss') :
    Writes (byte '(' :: text ++ byte ')' :: byte ' ' :: text')
      (.punct .parenLeft :: ss ++ .punct .parenRight :: ss') := by
  have hall := (parenthesized hfree h).append (leads_cons (by decide) text') h'.blank
  rw [List.append_assoc, List.append_assoc] at hall
  exact hall

/-- Texts between braces write their symbols between braces. -/
theorem braced {α : Type} {T : α → Bytes} {S : α → List Symbol} {as : List α}
    (h : ∀ a ∈ as, Writes (T a) (S a)) :
    Writes (Stmt.braced (as.map T))
      (.punct .braceLeft :: as.flatMap S ++ [.punct .braceRight]) := by
  have hclose := delimiter .braceRight
  cases as with
  | nil => exact punct .braceLeft (leads_cons (by decide) []).frees hclose
  | cons a as =>
      rw [List.forall_mem_cons] at h
      obtain ⟨hlead, htail⟩ := flatMap (T := fun a => byte ' ' :: T a)
        (fun a ha => (h.2 a ha).blank) fun a _ => leads_cons (by decide) _
      have hbody := (h.1.append hlead htail).append (leads_cons (by decide) _) hclose.blank
      have hall := punct .braceLeft (leads_cons (by decide) _).frees hbody.blank
      rw [List.map_cons, Stmt.braced, join_cons, List.flatMap_map]
      · exact hall
      · exact nofun

end Writes

namespace Stmt

/-- A clause after its lead-in writes its symbols, and it breaks off what stands before it. -/
theorem writes_clause {leadIn : Bytes} {syms : List Symbol} {value : Option Expr}
    (hfit : clauseFits value = true) (hs : ∀ s ∈ clauseSymbols syms value, s.Spellable)
    (hlead : ∀ text, Leads (leadIn ++ text))
    (hwrites : ∀ {text ss}, Writes text ss → Writes (leadIn ++ text) (syms ++ ss)) :
    Leads (clause leadIn value) ∧ Writes (clause leadIn value) (clauseSymbols syms value) := by
  cases value with
  | none => exact ⟨leads_nil, .nil⟩
  | some e =>
      have hexpr := e.writes_dump hfit fun s hmem => hs s (List.mem_append_right _ hmem)
      exact ⟨hlead e.dump, hwrites hexpr⟩

/-- A clause after a blank breaks off what stands before it, and writes its symbols. -/
theorem writes_clause_blank {value : Option Expr} (hfit : clauseFits value = true)
    (hs : ∀ s ∈ clauseSymbols [] value, s.Spellable) :
    Leads (clause [byte ' '] value) ∧ Writes (clause [byte ' '] value) (clauseSymbols [] value) :=
  writes_clause hfit hs (leads_cons (by decide)) fun h => h.blank

/-- An initial value breaks off the name before it, and writes its symbols after the sign. -/
theorem writes_clause_equals {value : Option Expr} (hfit : clauseFits value = true)
    (hs : ∀ s ∈ clauseSymbols [.punct .equals] value, s.Spellable) :
    Leads (clause (utf8 " = ") value) ∧
      Writes (clause (utf8 " = ") value) (clauseSymbols [.punct .equals] value) :=
  writes_clause hfit hs (fun _ => leads_cons (by decide) _) fun h =>
    (Writes.punct .equals (leads_cons (by decide) _).frees h.blank).blank

/-- The dumps of statements are those of each. -/
theorem dumps_eq_map (ss : List Stmt) : dumps ss = ss.map dump := by
  induction ss with
  | nil => rfl
  | cons s ss ih => rw [dumps, ih, List.map_cons]

end Stmt

/-- The dumps of functions are those of each. -/
theorem FunctionDecl.dumps_eq_map (fs : List FunctionDecl) : dumps fs = fs.map dump := by
  induction fs with
  | nil => rfl
  | cons f fs ih => rw [dumps, ih, List.map_cons]

/-- The name of a class and that of its superclass. -/
theorem Stmt.writes_heading {name : Bytes} (hname : IsName name) (superclass : Option Bytes) :
    (∀ s ∈ superclassSymbols superclass, s.Spellable) →
    Writes (name ++ (match superclass with
        | none => []
        | some parent => utf8 " < " ++ parent)) (.name name :: superclassSymbols superclass) := by
  intro hs
  cases superclass with
  | none =>
      rw [List.append_nil]
      exact Writes.name hname
  | some parent =>
      simp only [superclassSymbols, List.forall_mem_cons] at hs
      have h := (Writes.name hname).operation .less (.name hs.2.1)
      rw [List.append_assoc] at h
      exact h

/-! ### Statements -/

/-- A loop with three clauses, given the first one and the body. -/
theorem Stmt.writes_for {text text' : Bytes} {ss ss' : List Symbol}
    {test increment : Option Expr} (hfree : Frees text) (h : Writes text ss)
    (htest : clauseFits test = true) (hincrement : clauseFits increment = true)
    (hs : ∀ s ∈ clauseSymbols [] test, s.Spellable)
    (hs' : ∀ s ∈ clauseSymbols [] increment, s.Spellable) (hbody : Writes text' ss') :
    Writes
      (utf8 "for (" ++ (text ++ (clause [byte ' '] test ++
        byte ';' :: (clause [byte ' '] increment ++ (utf8 ") " ++ text')))))
      (.word .forKw :: .punct .parenLeft :: (ss ++ (clauseSymbols [] test ++
        .punct .semicolon :: (clauseSymbols [] increment ++ .punct .parenRight :: ss')))) := by
  obtain ⟨hlead, hwrites⟩ := writes_clause_blank htest hs
  obtain ⟨hlead', hwrites'⟩ := writes_clause_blank hincrement hs'
  have hsemicolon := Writes.punct .semicolon hlead'.frees hwrites'
  have hleads : Leads (clause [byte ' '] test ++ byte ';' :: clause [byte ' '] increment) :=
    hlead.append (leads_cons (by decide) _)
  have hclauses := h.append hleads (hwrites.append (leads_cons (by decide) _) hsemicolon)
  have hall := (hclauses.headed (hfree.append hleads) hbody).introduced .forKw
  simp only [List.append_assoc, List.cons_append] at hall
  exact hall

mutual

/-- **The dump of a statement writes its symbols.** Induction on the tree. -/
theorem Stmt.writes_dump : (s : Stmt) → s.operatorsFit = true →
    (∀ sym ∈ s.symbols, sym.Spellable) → Writes s.dump s.symbols
  | .binding name value constant, h, hs => by
    simp only [Stmt.symbols, List.forall_mem_append, List.forall_mem_cons, List.cons_append] at hs
    obtain ⟨hlead, hvalue⟩ := Stmt.writes_clause_equals h hs.2.2.1
    have hnamed := ((Writes.name hs.2.1).append hlead hvalue).terminated
    have hall := hnamed.introduced (if constant then .constKw else .letKw)
    simp only [List.append_assoc, List.cons_append, List.nil_append] at hall
    simp only [Stmt.dump, Stmt.symbols, List.append_assoc, List.cons_append]
    cases constant <;> exact hall
  | .function decl, h, hs => by
    simp only [Stmt.symbols, List.forall_mem_cons] at hs
    rw [Stmt.dump, Stmt.symbols]
    exact (decl.writes_dump h hs.2).introduced .functionKw
  | .classDecl name superclass methods, h, hs => by
    simp only [Stmt.symbols, List.forall_mem_append, List.forall_mem_cons, List.cons_append,
      List.append_assoc, FunctionDecl.symbolsAll_eq_flatMap, List.forall_mem_flatMap] at hs
    have hbody := Writes.braced (FunctionDecl.writes_dumps methods h hs.2.2.2.2.1)
    rw [← FunctionDecl.dumps_eq_map, ← FunctionDecl.symbolsAll_eq_flatMap] at hbody
    have hheading := Stmt.writes_heading hs.2.1 superclass hs.2.2.1
    have hall := (hheading.append (leads_cons (by decide) _) hbody.blank).introduced .classKw
    simp only [List.append_assoc, List.cons_append] at hall
    simp only [Stmt.dump, Stmt.symbols, List.append_assoc, List.cons_append]
    exact hall
  | .expression e, h, hs => by
    simp only [Stmt.symbols, List.forall_mem_append] at hs
    rw [Stmt.dump, Stmt.symbols]
    exact (e.writes_dump h hs.1).terminated
  | .print e, h, hs => by
    simp only [Stmt.symbols, List.forall_mem_append, List.forall_mem_cons, List.cons_append] at hs
    rw [Stmt.dump, Stmt.symbols]
    exact ((e.writes_dump h hs.2.1).introduced .printKw).terminated
  | .return value, h, hs => by
    simp only [Stmt.symbols, List.forall_mem_append, List.forall_mem_cons, List.cons_append] at hs
    obtain ⟨hlead, hvalue⟩ := Stmt.writes_clause_blank h hs.2.1
    rw [Stmt.dump, Stmt.symbols]
    exact ((Writes.keyword .returnKw).append hlead hvalue).terminated
  | .branch test yes none, h, hs => by
    simp only [Stmt.operatorsFit, Bool.and_eq_true] at h
    simp only [Stmt.symbols, List.forall_mem_append, List.forall_mem_cons, List.cons_append,
      List.append_assoc] at hs
    have htest := test.writes_dump h.1.1 hs.2.2.1
    have hyes := yes.writes_dump h.1.2 hs.2.2.2.2.1
    have hall := (htest.headed (htest.frees (test.begins h.1.1)) hyes).introduced .ifKw
    simp only [List.cons_append] at hall
    simp only [Stmt.dump, Stmt.symbols, List.append_assoc, List.cons_append, List.append_nil]
    exact hall
  | .branch test yes (some no), h, hs => by
    simp only [Stmt.operatorsFit, Bool.and_eq_true] at h
    simp only [Stmt.symbols, List.forall_mem_append, List.forall_mem_cons, List.cons_append,
      List.append_assoc] at hs
    have htest := test.writes_dump h.1.1 hs.2.2.1
    have hyes := yes.writes_dump h.1.2 hs.2.2.2.2.1
    have hno := ((no.writes_dump h.2 hs.2.2.2.2.2.2).introduced .elseKw).blank
    have hboth := hyes.append (leads_cons (by decide) _) hno
    have hall := (htest.headed (htest.frees (test.begins h.1.1)) hboth).introduced .ifKw
    simp only [List.cons_append] at hall
    simp only [Stmt.dump, Stmt.symbols, List.append_assoc, List.cons_append]
    exact hall
  | .while test body, h, hs => by
    simp only [Stmt.operatorsFit, Bool.and_eq_true] at h
    simp only [Stmt.symbols, List.forall_mem_append, List.forall_mem_cons, List.cons_append] at hs
    have htest := test.writes_dump h.1 hs.2.2.1
    have hbody := body.writes_dump h.2 hs.2.2.2.2
    have hall := (htest.headed (htest.frees (test.begins h.1)) hbody).introduced .whileKw
    simp only [List.cons_append] at hall
    simp only [Stmt.dump, Stmt.symbols, List.append_assoc, List.cons_append]
    exact hall
  | .for none test increment body, h, hs => by
    simp only [Stmt.operatorsFit, Bool.and_eq_true] at h
    simp only [Stmt.symbols, List.forall_mem_append, List.forall_mem_cons, List.cons_append,
      List.append_assoc, List.nil_append] at hs
    obtain ⟨-, -, -, htest, -, hincrement, -, hbody⟩ := hs
    have hall := Stmt.writes_for (leads_cons (by decide) []).frees (.delimiter .semicolon)
      h.1.1.2 h.1.2 htest hincrement (body.writes_dump h.2 hbody)
    simp only [Stmt.dump, Stmt.symbols, List.append_assoc, List.cons_append]
    exact hall
  | .for (some init) test increment body, h, hs => by
    simp only [Stmt.operatorsFit, Bool.and_eq_true] at h
    simp only [Stmt.symbols, List.forall_mem_append, List.forall_mem_cons, List.cons_append,
      List.append_assoc] at hs
    obtain ⟨-, -, hinit, htest, -, hincrement, -, hbody⟩ := hs
    have hfirst := init.writes_dump h.1.1.1 hinit
    have hall := Stmt.writes_for (hfirst.frees (Stmt.begins h.1.1.1)) hfirst
      h.1.1.2 h.1.2 htest hincrement (body.writes_dump h.2 hbody)
    simp only [Stmt.dump, Stmt.symbols, List.append_assoc, List.cons_append]
    exact hall
  | .block body, h, hs => by
    simp only [Stmt.symbols, List.forall_mem_append, List.forall_mem_cons, List.cons_append,
      Stmt.symbolsAll_eq_flatMap, List.forall_mem_flatMap] at hs
    have hbody := Writes.braced (Stmt.writes_dumps body h hs.2.1)
    rw [← Stmt.dumps_eq_map, ← Stmt.symbolsAll_eq_flatMap] at hbody
    rw [Stmt.dump, Stmt.symbols]
    exact hbody

/-- The dumps of statements write their symbols. -/
theorem Stmt.writes_dumps : (ss : List Stmt) → Stmt.operatorsFits ss = true →
    (∀ s ∈ ss, ∀ sym ∈ s.symbols, sym.Spellable) → ∀ s ∈ ss, Writes s.dump s.symbols
  | [], _, _, _, hmem => absurd hmem List.not_mem_nil
  | s :: ss, h, hs, s', hmem => by
    simp only [Stmt.operatorsFits, Bool.and_eq_true] at h
    rw [List.forall_mem_cons] at hs
    rcases List.mem_cons.mp hmem with heq | hmem
    · rw [heq]
      exact s.writes_dump h.1 hs.1
    · exact Stmt.writes_dumps ss h.2 hs.2 s' hmem

/-- The dump of a function writes its symbols. -/
theorem FunctionDecl.writes_dump : (f : FunctionDecl) → f.operatorsFit = true →
    (∀ sym ∈ f.symbols, sym.Spellable) → Writes f.dump f.symbols
  | .mk name params body, h, hs => by
    simp only [FunctionDecl.symbols, List.forall_mem_append, List.forall_mem_cons,
      List.cons_append, List.append_assoc, Stmt.symbolsAll_eq_flatMap,
      List.forall_mem_flatMap] at hs
    have hbody := Writes.braced (Stmt.writes_dumps body h hs.2.2.2.2.2.1)
    rw [← Stmt.dumps_eq_map, ← Stmt.symbolsAll_eq_flatMap] at hbody
    have hparams : ∀ param ∈ params.getD [], Frees param ∧ Writes param [.name param] := by
      intro param hparam
      have hname := Symbol.forall_of_separated hs.2.2.1 _ (List.mem_map_of_mem hparam) _
        List.mem_cons_self
      have hword := Writes.name hname
      exact ⟨hword.frees (begins_name param []), hword⟩
    obtain ⟨hfree, hlist⟩ := Writes.separated (T := id) hparams
    rw [List.map_id] at hfree hlist
    have hall := (Writes.name hs.1).append (leads_cons (by decide) _) (hlist.headed hfree hbody)
    simp only [List.cons_append, List.nil_append] at hall
    simp only [FunctionDecl.dump, FunctionDecl.symbols, List.append_assoc, List.cons_append]
    exact hall

/-- The dumps of functions write their symbols. -/
theorem FunctionDecl.writes_dumps : (fs : List FunctionDecl) →
    FunctionDecl.operatorsFits fs = true →
    (∀ f ∈ fs, ∀ sym ∈ f.symbols, sym.Spellable) → ∀ f ∈ fs, Writes f.dump f.symbols
  | [], _, _, _, hmem => absurd hmem List.not_mem_nil
  | f :: fs, h, hs, f', hmem => by
    simp only [FunctionDecl.operatorsFits, Bool.and_eq_true] at h
    rw [List.forall_mem_cons] at hs
    rcases List.mem_cons.mp hmem with heq | hmem
    · rw [heq]
      exact f.writes_dump h.1 hs.1
    · exact FunctionDecl.writes_dumps fs h.2 hs.2 f' hmem

end

/-! ### Programs -/

/-- **The dump of a program is scanned as its symbols**, statement by statement. The line feed after
a statement breaks it off from the next line, whatever that begins with. -/
theorem Program.lexes_dump_of_operatorsFit {p : Program} (hfit : p.operatorsFit = true)
    (hs : ∀ sym ∈ p.symbols, sym.Spellable) : Lexes (Rune.decode p.dump) p.symbols [] := by
  simp only [symbols, Stmt.symbolsAll_eq_flatMap, List.forall_mem_flatMap] at hs ⊢
  simp only [dump, Stmt.dumps_eq_map, List.flatMap_map]
  have hwrites := Stmt.writes_dumps p hfit hs
  clear hfit hs
  induction p with
  | nil => rfl
  | cons s ss ih =>
      rw [List.forall_mem_cons] at hwrites
      have htail := ih hwrites.2
      have hnewline (rest : Bytes) : Rune.decode (byte '\n' :: rest) =
          .char '\n' :: Rune.decode rest := Rune.decode_byte_cons (by decide) rest
      have hhead := hwrites.1 (byte '\n' :: ss.flatMap fun s => s.dump ++ [byte '\n']) (by
        rw [hnewline]
        exact breaks_cons (by decide) _)
      rw [hnewline] at hhead
      rw [List.flatMap_cons, List.flatMap_cons, List.append_assoc]
      exact hhead.append (htail.blank rfl)

end ScriptFront
