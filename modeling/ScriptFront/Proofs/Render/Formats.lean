import ScriptFront.Proofs.Dump.RoundTrip
import ScriptFront.Proofs.Render.Json
import ScriptFront.Proofs.Render.Tree
import ScriptFront.Render.Format

/-!
# Formats Carry the Same Information

Two programs that were parsed under the same options are **equal if and only if their dumps are,
their trees are, or their JSON texts are** (`Program.eq_iff_rendered_eq`). The pieces are:

* a dump is parsed to the program it was made of (`Program.dump_inj`);
* a canonical program can be told from its tree (`Program.tree_inj`);
* the tree of a program that was read from a text is clean (`Program.clean_tree`), and so it has a
  JSON form, from which it can be told (`Json.value_inj`).
-/

namespace ScriptFront

open Text Scanner TreeNode

/-! ### Texts of characters -/

/-- The bytes of a text are made of characters. -/
theorem isText_utf8 (s : String) : IsText (utf8 s) :=
  ⟨s.toList, utf8_eq_encode s⟩

/-- Texts together are made of characters if each of them is. -/
theorem IsText.append {text text' : Bytes} (h : IsText text) (h' : IsText text') :
    IsText (text ++ text') := by
  obtain ⟨cs, rfl⟩ := h
  obtain ⟨cs', rfl⟩ := h'
  exact ⟨cs ++ cs', by rw [List.map_append, Rune.encode_append]⟩

/-- The decimal form of a natural number is made of characters. -/
theorem isText_decimal (n : Nat) : IsText (decimal n) := by
  have hascii : ∀ c ∈ Nat.toDigits 10 n, byte c :: [] = Rune.bytes (.char c) := by
    intro c hc
    have hle := (toNat_of_isDigit (isDigit_of_mem_toDigits hc)).2
    exact (utf8EncodeChar_of_lt (by omega)).symm
  refine ⟨Nat.toDigits 10 n, ?_⟩
  rw [decimal, Rune.encode, List.flatMap_map, List.map_eq_flatMap]
  exact List.flatMap_congr hascii

/-- The decimal form of an integer is made of characters. -/
theorem isText_integer (n : Int) : IsText (integer n) := by
  cases n with
  | ofNat n => exact isText_decimal n
  | negSucc n => exact (isText_utf8 "-").append (isText_decimal (n + 1))

/-- The name of a kind is made of characters. -/
theorem Kind.isText_name (k : Kind) : IsText k.name := by
  cases k with
  | keyword k => cases k <;> exact isText_utf8 _
  | punctuator p => cases p <;> exact isText_utf8 _
  | other n => exact ((isText_utf8 _).append (isText_integer n)).append (isText_utf8 _)
  | _ => exact isText_utf8 _

/-- A name is made of characters. -/
theorem IsName.isText {name : Bytes} (h : IsName name) : IsText name := by
  obtain ⟨⟨c, cs, hname, -⟩, -⟩ := h
  exact ⟨c :: cs, hname⟩

/-- A reference that can be spelled is made of characters. -/
theorem isText_of_reference {name : Bytes} (h : (Symbol.reference name).Spellable) :
    IsText name := by
  rw [Symbol.reference] at h
  split at h
  · next hthis =>
    rw [hthis]
    exact isText_utf8 "this"
  · exact IsName.isText h

/-! ### Clean documents -/

namespace Document

/-- A truth value is clean. -/
@[simp] theorem clean_boolean {value : Bool} : (boolean value).Clean :=
  .boolean value

/-- A text is clean if it is made of characters. -/
@[simp] theorem clean_text {value : Bytes} : (text value).Clean ↔ IsText value := by
  refine ⟨?_, .text⟩
  rintro (_ | _ | htext)
  exact htext

/-- A list is clean if its items are. -/
@[simp] theorem clean_list {items : List Document} : (list items).Clean ↔ ∀ d ∈ items, d.Clean := by
  refine ⟨?_, .list⟩
  rintro (_ | _ | _ | hitems)
  exact hitems

end Document

namespace TreeNode

variable {key type : String} {d : Document} {value : Option Document}
  {entries entries' : List (Bytes × Document)}

/-- Are the keys texts and the values clean? -/
def CleanEntries (entries : List (Bytes × Document)) : Prop :=
  ∀ e ∈ entries, IsText e.1 ∧ e.2.Clean

/-- Where there are no entries they are clean. -/
@[simp] theorem cleanEntries_nil : CleanEntries [] :=
  nofun

/-- Entries are clean if the first and the others are. -/
@[simp] theorem cleanEntries_cons :
    CleanEntries (entry key d :: entries) ↔ d.Clean ∧ CleanEntries entries := by
  simp [CleanEntries, entry, isText_utf8]

/-- Entries together are clean if all of them are. -/
@[simp] theorem cleanEntries_append :
    CleanEntries (entries ++ entries') ↔ CleanEntries entries ∧ CleanEntries entries' :=
  List.forall_mem_append

/-- An entry that may be missing is clean if its value is, where it is there. -/
@[simp] theorem cleanEntries_optional :
    CleanEntries (optional key value) ↔ ∀ d, value = some d → d.Clean := by
  cases value <;> simp [optional]

/-- A node is clean if its parts are. -/
@[simp] theorem clean_node :
    (node type entries value).Clean ↔ CleanEntries entries ∧ ∀ d, value = some d → d.Clean := by
  have hrecord {entries : List (Bytes × Document)} :
      (Document.record entries).Clean ↔ CleanEntries entries := by
    constructor
    · rintro ⟨⟩
      next hkeys hentries => exact fun e he => ⟨hkeys e he, hentries e he⟩
    · intro h
      exact .record (fun e he => (h e he).1) fun e he => (h e he).2
  rw [node, hrecord]
  simp [isText_utf8]

end TreeNode

/-! ### Expressions -/

mutual

/-- The tree of an expression with a text is clean. Induction on the tree. -/
theorem Expr.clean_tree : (e : Expr) → (∀ s ∈ e.symbols, s.Spellable) → e.tree.Clean
  | .boolean _, _ => by simp [Expr.tree]
  | .number _, hs => by
    obtain ⟨hfin, hpos⟩ := hs _ List.mem_cons_self
    simpa [Expr.tree] using Document.Clean.number hfin hpos
  | .string _, hs => by
    have htext : IsText _ := hs _ List.mem_cons_self
    simpa [Expr.tree] using htext
  | .reference _, hs => by
    simpa [Expr.tree] using isText_of_reference (hs _ List.mem_cons_self)
  | .unary operator right, hs => by
    simp only [Expr.symbols, List.forall_mem_cons] at hs
    simp [Expr.tree, operator.isText_name, right.clean_tree hs.2]
  | .binary left operator right, hs | .logical left operator right, hs => by
    simp only [Expr.symbols, List.forall_mem_append, List.forall_mem_cons] at hs
    simp [Expr.tree, operator.isText_name, left.clean_tree hs.1, right.clean_tree hs.2.2]
  | .grouping inner, hs => by
    simp only [Expr.symbols, List.forall_mem_append, List.forall_mem_cons] at hs
    simp [Expr.tree, inner.clean_tree hs.1.2]
  | .assign name operator value, hs => by
    simp only [Expr.symbols, List.forall_mem_cons] at hs
    simp [Expr.tree, operator.isText_name, isText_of_reference hs.1, value.clean_tree hs.2.2]
  | .get object name, hs => by
    simp only [Expr.symbols, List.forall_mem_append, List.forall_mem_cons] at hs
    simp [Expr.tree, IsName.isText hs.2.2.1, object.clean_tree hs.1]
  | .set object name operator value, hs => by
    simp only [Expr.symbols, List.forall_mem_append, List.forall_mem_cons] at hs
    simp [Expr.tree, IsName.isText hs.2.2.1, operator.isText_name, object.clean_tree hs.1,
      value.clean_tree hs.2.2.2.2]
  | .super method, hs => by
    simp only [Expr.symbols, List.forall_mem_cons] at hs
    simp [Expr.tree, IsName.isText hs.2.2.1]
  | .call callee args, hs => by
    simp only [Expr.symbols, List.forall_mem_append, List.forall_mem_cons, List.append_assoc,
      List.cons_append] at hs
    rw [Expr.symbolsEach_eq_map] at hs
    have hargs := Expr.clean_trees args fun e he =>
      Symbol.forall_of_separated hs.2.2.1 _ (List.mem_map_of_mem he)
    simpa [Expr.tree, callee.clean_tree hs.1] using hargs

/-- The trees of expressions with texts are clean. -/
theorem Expr.clean_trees : (es : List Expr) → (∀ e ∈ es, ∀ s ∈ e.symbols, s.Spellable) →
    ∀ d ∈ Expr.trees es, d.Clean
  | [], _ => nofun
  | e :: es, hs => by
    rw [List.forall_mem_cons] at hs
    rw [Expr.trees, List.forall_mem_cons]
    exact ⟨e.clean_tree hs.1, Expr.clean_trees es hs.2⟩

end

/-! ### Statements -/

/-- The tree of a clause is clean if its symbols can be spelled. -/
theorem Stmt.clean_clause {leadIn : List Symbol} {value : Option Expr}
    (hs : ∀ s ∈ clauseSymbols leadIn value, s.Spellable) :
    ∀ d, value.map Expr.tree = some d → d.Clean := by
  intro d hd
  obtain ⟨e, rfl, rfl⟩ := Option.map_eq_some_iff.mp hd
  exact e.clean_tree fun s hmem => hs s (List.mem_append_right _ hmem)

/-- The name of a superclass is clean if its symbols can be spelled. -/
theorem Stmt.clean_superclass {superclass : Option Bytes}
    (hs : ∀ s ∈ superclassSymbols superclass, s.Spellable) :
    ∀ d, superclass.map Document.text = some d → d.Clean := by
  intro d hd
  obtain ⟨parent, rfl, rfl⟩ := Option.map_eq_some_iff.mp hd
  have hname := hs (.name parent) (List.mem_cons_of_mem _ List.mem_cons_self)
  exact .text (IsName.isText hname)

mutual

/-- The tree of a statement with a text is clean. Induction on the tree. -/
theorem Stmt.clean_tree : (s : Stmt) → (∀ sym ∈ s.symbols, sym.Spellable) → s.tree.Clean
  | .binding name value constant, hs => by
    simp only [Stmt.symbols, List.forall_mem_append, List.forall_mem_cons, List.cons_append] at hs
    rw [Stmt.tree, clean_node]
    exact ⟨by simp [IsName.isText hs.2.1], Stmt.clean_clause hs.2.2.1⟩
  | .function decl, hs => by
    simp only [Stmt.symbols, List.forall_mem_cons] at hs
    exact decl.clean_tree hs.2
  | .classDecl name superclass methods, hs => by
    simp only [Stmt.symbols, List.forall_mem_append, List.forall_mem_cons, List.cons_append,
      List.append_assoc, FunctionDecl.symbolsAll_eq_flatMap, List.forall_mem_flatMap] at hs
    have hmethods := FunctionDecl.clean_trees methods hs.2.2.2.2.1
    have hsuperclass := Stmt.clean_superclass hs.2.2.1
    simp only [Stmt.tree, clean_node, cleanEntries_cons, cleanEntries_optional,
      Document.clean_list, Document.clean_text]
    exact ⟨⟨hmethods, IsName.isText hs.2.1, hsuperclass⟩, nofun⟩
  | .expression e, hs => by
    simp only [Stmt.symbols, List.forall_mem_append] at hs
    simp [Stmt.tree, e.clean_tree hs.1]
  | .print e, hs => by
    simp only [Stmt.symbols, List.forall_mem_append, List.forall_mem_cons, List.cons_append] at hs
    simp [Stmt.tree, e.clean_tree hs.2.1]
  | .return value, hs => by
    simp only [Stmt.symbols, List.forall_mem_append, List.forall_mem_cons, List.cons_append] at hs
    rw [Stmt.tree, clean_node]
    exact ⟨cleanEntries_nil, Stmt.clean_clause hs.2.1⟩
  | .branch condition yes none, hs => by
    simp only [Stmt.symbols, List.forall_mem_append, List.forall_mem_cons, List.cons_append,
      List.append_assoc] at hs
    simp [Stmt.tree, Stmt.treeOption, condition.clean_tree hs.2.2.1, yes.clean_tree hs.2.2.2.2.1]
  | .branch condition yes (some no), hs => by
    simp only [Stmt.symbols, List.forall_mem_append, List.forall_mem_cons, List.cons_append,
      List.append_assoc] at hs
    simp [Stmt.tree, Stmt.treeOption, condition.clean_tree hs.2.2.1, yes.clean_tree hs.2.2.2.2.1,
      no.clean_tree hs.2.2.2.2.2.2]
  | .while condition body, hs => by
    simp only [Stmt.symbols, List.forall_mem_append, List.forall_mem_cons, List.cons_append] at hs
    simp [Stmt.tree, condition.clean_tree hs.2.2.1, body.clean_tree hs.2.2.2.2]
  | .for none condition increment body, hs => by
    simp only [Stmt.symbols, List.forall_mem_append, List.forall_mem_cons, List.cons_append,
      List.append_assoc, List.nil_append] at hs
    obtain ⟨-, -, -, hcondition, -, hincrement, -, hbody⟩ := hs
    simp only [Stmt.tree, Stmt.treeOption, clean_node, cleanEntries_append, cleanEntries_cons,
      cleanEntries_optional]
    exact ⟨⟨⟨⟨body.clean_tree hbody, Stmt.clean_clause hcondition⟩,
      Stmt.clean_clause hincrement⟩, nofun⟩, nofun⟩
  | .for (some init) condition increment body, hs => by
    simp only [Stmt.symbols, List.forall_mem_append, List.forall_mem_cons, List.cons_append,
      List.append_assoc] at hs
    obtain ⟨-, -, hinit, hcondition, -, hincrement, -, hbody⟩ := hs
    simp only [Stmt.tree, Stmt.treeOption, clean_node, cleanEntries_append, cleanEntries_cons,
      cleanEntries_optional, Option.some.injEq, forall_eq']
    exact ⟨⟨⟨⟨body.clean_tree hbody, Stmt.clean_clause hcondition⟩,
      Stmt.clean_clause hincrement⟩, init.clean_tree hinit⟩, nofun⟩
  | .block body, hs => by
    simp only [Stmt.symbols, List.forall_mem_append, List.forall_mem_cons, List.cons_append,
      Stmt.symbolsAll_eq_flatMap, List.forall_mem_flatMap] at hs
    simpa [Stmt.tree] using Stmt.clean_trees body hs.2.1

/-- The trees of statements with texts are clean. -/
theorem Stmt.clean_trees : (ss : List Stmt) → (∀ s ∈ ss, ∀ sym ∈ s.symbols, sym.Spellable) →
    ∀ d ∈ Stmt.trees ss, d.Clean
  | [], _ => nofun
  | s :: ss, hs => by
    rw [List.forall_mem_cons] at hs
    rw [Stmt.trees, List.forall_mem_cons]
    exact ⟨s.clean_tree hs.1, Stmt.clean_trees ss hs.2⟩

/-- The tree of a function with a text is clean. -/
theorem FunctionDecl.clean_tree : (f : FunctionDecl) → (∀ sym ∈ f.symbols, sym.Spellable) →
    f.tree.Clean
  | .mk name params body, hs => by
    simp only [FunctionDecl.symbols, List.forall_mem_append, List.forall_mem_cons,
      List.cons_append, List.append_assoc, Stmt.symbolsAll_eq_flatMap,
      List.forall_mem_flatMap] at hs
    have hparams : ∀ param ∈ params.getD [], IsText param := by
      intro param hparam
      have hname := Symbol.forall_of_separated hs.2.2.1 _ (List.mem_map_of_mem hparam) _
        List.mem_cons_self
      exact IsName.isText hname
    have hbody := Stmt.clean_trees body hs.2.2.2.2.2.1
    simp only [FunctionDecl.tree, clean_node, cleanEntries_cons, Document.clean_list,
      Document.clean_text, List.forall_mem_map]
    exact ⟨⟨⟨⟨hbody, cleanEntries_nil⟩, nofun⟩, IsName.isText hs.1, hparams, cleanEntries_nil⟩,
      nofun⟩

/-- The trees of functions with texts are clean. -/
theorem FunctionDecl.clean_trees : (fs : List FunctionDecl) →
    (∀ f ∈ fs, ∀ sym ∈ f.symbols, sym.Spellable) → ∀ d ∈ FunctionDecl.trees fs, d.Clean
  | [], _ => nofun
  | f :: fs, hs => by
    rw [List.forall_mem_cons] at hs
    rw [FunctionDecl.trees, List.forall_mem_cons]
    exact ⟨f.clean_tree hs.1, FunctionDecl.clean_trees fs hs.2⟩

end

namespace Program

/-- The tree of a program with a text is clean. -/
theorem clean_tree {p : Program} (hs : ∀ sym ∈ p.symbols, sym.Spellable) : p.tree.Clean := by
  simp only [symbols, Stmt.symbolsAll_eq_flatMap, List.forall_mem_flatMap] at hs
  simpa [tree] using Stmt.clean_trees p hs

/-- What a text that is parsed tells about its program. -/
theorem of_ofText {setting : Int} {source : Bytes} {p : Program}
    (h : ofText setting source = .ok p) :
    p.canonical = true ∧ (∀ sym ∈ p.symbols, sym.Spellable) ∧ p.need ≤ Parser.limitOf setting := by
  obtain ⟨⟨_, hreads, -⟩, hcanon, hneed⟩ := reads_of_ofTokens (named_start _) h
  exact ⟨hcanon, spellable_of_reads hreads, hneed⟩

/-- **A canonical program can be told from its dump**: it is what the dump is parsed to, where its
nesting is within the limit. -/
theorem dump_inj {setting : Int} {p q : Program} (hp : p.canonical = true)
    (hq : q.canonical = true) (hs : ∀ sym ∈ p.symbols, sym.Spellable)
    (hs' : ∀ sym ∈ q.symbols, sym.Spellable) (hneed : p.need ≤ Parser.limitOf setting)
    (hneed' : q.need ≤ Parser.limitOf setting) : p.dump = q.dump ↔ p = q := by
  have hread {p : Program} (hp : p.canonical = true) (hs : ∀ sym ∈ p.symbols, sym.Spellable)
      (hneed : p.need ≤ Parser.limitOf setting) : ofText setting p.dump = .ok p := by
    obtain ⟨s, hreads, hcore⟩ := (lexes_dump hp hs).reads {}
    exact (ofTokens_of_reads hp hreads (kind_next_of_core hcore)).1 hneed
  refine ⟨?_, congrArg dump⟩
  intro h
  have hsame := hread hp hs hneed
  rw [h, hread hq hs' hneed'] at hsame
  exact (Except.ok.inj hsame).symm

/-- **The formats carry the same information.** Two programs that are parsed under the same options
are equal if and only if their dumps are, their trees are, or their JSON texts are. -/
theorem eq_iff_rendered_eq {setting : Int} {source source' : Bytes} {p q : Program}
    (hp : ofText setting source = .ok p) (hq : ofText setting source' = .ok q) :
    (p = q ↔ p.dump = q.dump) ∧ (p = q ↔ p.tree = q.tree) ∧
      ∃ text text', p.render .json = .ok text ∧ q.render .json = .ok text' ∧
        (p = q ↔ text = text') := by
  obtain ⟨hcanon, hs, hneed⟩ := of_ofText hp
  obtain ⟨hcanon', hs', hneed'⟩ := of_ofText hq
  have hclean := clean_tree hs
  have hclean' := clean_tree hs'
  have hdump := dump_inj hcanon hcanon' hs hs' hneed hneed'
  refine ⟨hdump.symm, (tree_inj hcanon hcanon').symm, ?_⟩
  refine ⟨Json.value 0 p.tree ++ [byte '\n'], Json.value 0 q.tree ++ [byte '\n'], ?_, ?_, ?_⟩
  · rw [render, Json.render_of_clean hclean]
  · rw [render, Json.render_of_clean hclean']
  · rw [Json.value_inj hclean hclean', tree_inj hcanon hcanon']

/-- A program with an arithmetic operator. -/
def difference : Program :=
  [.expression (.binary (.reference (utf8 "a")) (.punctuator .minus) (.reference (utf8 "b")))]

/-- A program with a comparison in its place. -/
def comparison : Program :=
  [.expression (.logical (.reference (utf8 "a")) (.punctuator .less) (.reference (utf8 "b")))]

/-- Two programs that differ in an operator differ in their dumps, their trees and what is rendered
of them. -/
theorem eq_iff_rendered_eq_operators :
    ofText 5 (utf8 "a-b;") = .ok difference ∧ ofText 5 (utf8 "a<b;") = .ok comparison ∧
      difference.dump ≠ comparison.dump ∧ difference.tree ≠ comparison.tree ∧
      difference.render .json ≠ comparison.render .json := by
  have hdifference : ofText 5 (utf8 "a-b;") = .ok difference := by rfl
  have hcomparison : ofText 5 (utf8 "a<b;") = .ok comparison := by rfl
  have hne : difference ≠ comparison := by decide
  obtain ⟨hdump, htree, text, text', htext, htext', hjson⟩ :=
    eq_iff_rendered_eq hdifference hcomparison
  refine ⟨hdifference, hcomparison, hdump.not.mp hne, htree.not.mp hne, ?_⟩
  rw [htext, htext']
  intro h
  exact hne (hjson.mpr (Except.ok.inj h))

end Program

end ScriptFront
