import ScriptFront.Proofs.Dump.Lines
import ScriptFront.Proofs.Render.Formats

/-!
# Parsed Programs can be Rendered

**Every program that a text is parsed to can be written in every format** (`Program.renders`). Of
the formats only JSON can fail, on a number that is not finite, so the statement rests on what the
scanner and the parser let through:

* a number is finite and not negative, since a literal that overflows is refused;
* a string or a name is well-formed UTF-8, since an ill-formed byte is refused
  (`IsText.wellFormed`);
* and every node of the tree is a record of a known variant (`Stmt.tagged_tree`).

The first two are said of the symbols of the program and also of the **parts** of its tree
(`Document.PartOf`), which is what the formats are given.
-/

namespace ScriptFront

open Text Scanner TreeNode

/-- A text that is made of characters is well formed. -/
theorem IsText.wellFormed {text : Bytes} (h : IsText text) : wellFormed text = true := by
  obtain ⟨cs, rfl⟩ := h
  rw [Text.wellFormed, Rune.decode_encode_char, List.all_map]
  exact List.all_eq_true.mpr fun _ _ => rfl

/-! ### Parts of a document -/

namespace Document

/-- A document stands in another one, **at whatever depth**. -/
inductive PartOf (part : Document) : Document → Prop where
  | self : PartOf part part
  | item {items : List Document} {d : Document} (hmem : d ∈ items) (h : PartOf part d) :
      PartOf part (list items)
  | value {entries : List (Bytes × Document)} {e : Bytes × Document} (hmem : e ∈ entries)
      (h : PartOf part e.2) : PartOf part (record entries)

/-- What stands in a clean document is clean. -/
theorem PartOf.clean {part d : Document} (h : part.PartOf d) (hd : d.Clean) : part.Clean := by
  induction h with
  | self => exact hd
  | item hmem _ ih =>
      cases hd with
      | list hitems => exact ih (hitems _ hmem)
  | value hmem _ ih =>
      cases hd with
      | record _ hentries => exact ih (hentries _ hmem)

end Document

/-! ### Variants -/

namespace TreeNode

/-- The **variants of nodes**. -/
def variants : List String :=
  ["Program", "Boolean", "Number", "String", "Variable", "Unary", "Binary", "Logical", "Grouping",
    "Assign", "Get", "Set", "Super", "Call", "Let", "Function", "Class", "Expression", "Print",
    "Return", "If", "While", "For", "Block"]

/-- Is there a known variant under `type`? -/
def HasVariant (entries : List (Bytes × Document)) : Prop :=
  ∃ type ∈ variants, entry "type" (.text (utf8 type)) ∈ entries

end TreeNode

/-- **All records in the document are nodes** of a known variant. -/
def Document.Tagged (d : Document) : Prop :=
  ∀ entries, (record entries).PartOf d → HasVariant entries

namespace Document

/-- No record stands in a truth value. -/
@[simp] theorem tagged_boolean {value : Bool} : (boolean value).Tagged :=
  fun _ h => nomatch h

/-- No record stands in a number. -/
@[simp] theorem tagged_number {value : Binary64} : (number value).Tagged :=
  fun _ h => nomatch h

/-- No record stands in a text. -/
@[simp] theorem tagged_text {value : Bytes} : (text value).Tagged :=
  fun _ h => nomatch h

/-- A list is made of nodes if its items are. -/
@[simp] theorem tagged_list {items : List Document} :
    (list items).Tagged ↔ ∀ d ∈ items, d.Tagged := by
  constructor
  · intro h d hd entries hpart
    exact h entries (.item hd hpart)
  · rintro h entries ⟨⟩
    next hpart hmem => exact h _ hmem entries hpart

end Document

namespace TreeNode

variable {key type : String} {d : Document} {value : Option Document}
  {entries entries' : List (Bytes × Document)}

/-- Are the values made of nodes? -/
def TaggedEntries (entries : List (Bytes × Document)) : Prop :=
  ∀ e ∈ entries, e.2.Tagged

/-- There are no records where there are no entries. -/
@[simp] theorem taggedEntries_nil : TaggedEntries [] :=
  nofun

/-- Entries are made of nodes if the first and the others are. -/
@[simp] theorem taggedEntries_cons :
    TaggedEntries (entry key d :: entries) ↔ d.Tagged ∧ TaggedEntries entries :=
  List.forall_mem_cons

/-- Entries together are made of nodes if all of them are. -/
@[simp] theorem taggedEntries_append :
    TaggedEntries (entries ++ entries') ↔ TaggedEntries entries ∧ TaggedEntries entries' :=
  List.forall_mem_append

/-- An entry that may be missing is made of nodes if its value is, where it is there. -/
@[simp] theorem taggedEntries_optional :
    TaggedEntries (optional key value) ↔ ∀ d, value = some d → d.Tagged := by
  cases value <;> simp [optional]

/-- A node of a known variant is made of nodes if its parts are. -/
theorem tagged_node (htype : type ∈ variants) :
    (node type entries value).Tagged ↔
      TaggedEntries entries ∧ ∀ d, value = some d → d.Tagged := by
  have hrecord {entries : List (Bytes × Document)} (h : HasVariant entries) :
      (Document.record entries).Tagged ↔ TaggedEntries entries := by
    constructor
    · intro htagged e he inner hpart
      exact htagged inner (.value he hpart)
    · intro hentries inner hpart
      cases hpart with
      | self => exact h
      | value hmem hpart => exact hentries _ hmem inner hpart
  rw [node, hrecord ⟨type, htype, List.mem_append_right _ List.mem_cons_self⟩]
  simp

end TreeNode

/-! ### Trees -/

mutual

/-- The tree of an expression is made of nodes. Induction on the tree. -/
theorem Expr.tagged_tree : (e : Expr) → e.tree.Tagged
  | .boolean _ | .number _ | .string _ | .reference _ | .super _ => by
    simp +decide [Expr.tree, tagged_node]
  | .unary _ right => by
    simp +decide [Expr.tree, tagged_node, right.tagged_tree]
  | .binary left _ right | .logical left _ right => by
    simp +decide [Expr.tree, tagged_node, left.tagged_tree, right.tagged_tree]
  | .grouping inner => by
    simp +decide [Expr.tree, tagged_node, inner.tagged_tree]
  | .assign _ _ value => by
    simp +decide [Expr.tree, tagged_node, value.tagged_tree]
  | .get object _ => by
    simp +decide [Expr.tree, tagged_node, object.tagged_tree]
  | .set object _ _ value => by
    simp +decide [Expr.tree, tagged_node, object.tagged_tree, value.tagged_tree]
  | .call callee args => by
    simpa +decide [Expr.tree, tagged_node, callee.tagged_tree] using Expr.tagged_trees args

/-- The trees of expressions are made of nodes. -/
theorem Expr.tagged_trees : (es : List Expr) → ∀ d ∈ Expr.trees es, d.Tagged
  | [] => nofun
  | e :: es => by
    rw [Expr.trees, List.forall_mem_cons]
    exact ⟨e.tagged_tree, Expr.tagged_trees es⟩

end

mutual

/-- The tree of a statement is made of nodes. Induction on the tree. -/
theorem Stmt.tagged_tree : (s : Stmt) → s.tree.Tagged
  | .binding _ _ _ | .expression _ | .print _ | .return _ => by
    simp +decide [Stmt.tree, tagged_node, Expr.tagged_tree]
  | .function decl => decl.tagged_tree
  | .classDecl _ _ methods => by
    simpa +decide [Stmt.tree, tagged_node] using FunctionDecl.tagged_trees methods
  | .branch _ yes none => by
    simp +decide [Stmt.tree, Stmt.treeOption, tagged_node, Expr.tagged_tree, yes.tagged_tree]
  | .branch _ yes (some no) => by
    simp +decide [Stmt.tree, Stmt.treeOption, tagged_node, Expr.tagged_tree, yes.tagged_tree,
      no.tagged_tree]
  | .while _ body => by
    simp +decide [Stmt.tree, tagged_node, Expr.tagged_tree, body.tagged_tree]
  | .for none _ _ body => by
    simp +decide [Stmt.tree, Stmt.treeOption, tagged_node, Expr.tagged_tree, body.tagged_tree]
  | .for (some init) _ _ body => by
    simp +decide [Stmt.tree, Stmt.treeOption, tagged_node, Expr.tagged_tree, init.tagged_tree,
      body.tagged_tree]
  | .block body => by
    simpa +decide [Stmt.tree, tagged_node] using Stmt.tagged_trees body

/-- The trees of statements are made of nodes. -/
theorem Stmt.tagged_trees : (ss : List Stmt) → ∀ d ∈ Stmt.trees ss, d.Tagged
  | [] => nofun
  | s :: ss => by
    rw [Stmt.trees, List.forall_mem_cons]
    exact ⟨s.tagged_tree, Stmt.tagged_trees ss⟩

/-- The tree of a function is made of nodes. -/
theorem FunctionDecl.tagged_tree : (f : FunctionDecl) → f.tree.Tagged
  | .mk _ _ body => by
    simpa +decide [FunctionDecl.tree, tagged_node] using Stmt.tagged_trees body

/-- The trees of functions are made of nodes. -/
theorem FunctionDecl.tagged_trees : (fs : List FunctionDecl) →
    ∀ d ∈ FunctionDecl.trees fs, d.Tagged
  | [] => nofun
  | f :: fs => by
    rw [FunctionDecl.trees, List.forall_mem_cons]
    exact ⟨f.tagged_tree, FunctionDecl.tagged_trees fs⟩

end

namespace Program

/-- **The tree of a program is made of nodes**, whatever the program. -/
theorem tagged_tree (p : Program) : p.tree.Tagged := by
  simpa +decide [tree, tagged_node] using Stmt.tagged_trees p

/-! ### Rendering -/

/-- A program with a clean tree can be written in every format. -/
theorem exists_render {p : Program} (h : p.tree.Clean) (format : Format) :
    ∃ text, p.render format = .ok text := by
  cases format with
  | json => exact ⟨_, by rw [render, Json.render_of_clean h]⟩
  | _ => exact ⟨_, rfl⟩

/-- **Rendering never fails on parsed text.** Let a text be parsed, under any setting of the nesting
limit. Then every number of the program is finite and not negative, every string and every name is
well-formed, the same holds of whatever its tree is made of, all records in the tree are nodes of a
known variant, and the program can be written in every format. -/
theorem renders {setting : Int} {source : Bytes} {p : Program}
    (h : ofText setting source = .ok p) :
    (∀ x, .number x ∈ p.symbols → x.isFinite = true ∧ x.isNegative = false) ∧
      (∀ text, .text text ∈ p.symbols ∨ .name text ∈ p.symbols → wellFormed text = true) ∧
      (∀ x, (Document.number x).PartOf p.tree → x.isFinite = true ∧ x.isNegative = false) ∧
      (∀ text, (Document.text text).PartOf p.tree → wellFormed text = true) ∧
      p.tree.Tagged ∧
      ∀ format, ∃ text, p.render format = .ok text := by
  obtain ⟨-, hs, -⟩ := of_ofText h
  have hclean := clean_tree hs
  refine ⟨fun x hx => hs _ hx, ?_, ?_, ?_, p.tagged_tree, exists_render hclean⟩
  · rintro text (htext | hname)
    · exact IsText.wellFormed (hs _ htext)
    · exact (IsName.isText (hs _ hname)).wellFormed
  · intro x hpart
    cases hpart.clean hclean with
    | number hfin hpos => exact ⟨hfin, hpos⟩
  · intro text hpart
    cases hpart.clean hclean with
    | text htext => exact htext.wellFormed

/-- The program that `let a = 'é' + 007.5;` spells. -/
def accented : Program :=
  [.binding (utf8 "a") (some (.binary (.string (utf8 "é")) (.punctuator .plus)
    (.number ⟨0x401e000000000000⟩))) false]

/-- A source with an accent and a number with zeros in front, rendered in every format. -/
theorem renders_accented :
    ofText 8 (utf8 "let a = 'é' + 007.5;") = .ok accented ∧
      .number ⟨0x401e000000000000⟩ ∈ accented.symbols ∧
      (⟨0x401e000000000000⟩ : Binary64).isFinite = true ∧
      .text (utf8 "é") ∈ accented.symbols ∧ wellFormed (utf8 "é") = true ∧
      accented.tree.Tagged ∧ ∀ format, ∃ text, accented.render format = .ok text := by
  have hrun : ofText 8 (utf8 "let a = 'é' + 007.5;") = .ok accented :=
    eq_ok_of_toOption (by decide +kernel)
  have hnumber : .number ⟨0x401e000000000000⟩ ∈ accented.symbols := by decide
  have htext : .text (utf8 "é") ∈ accented.symbols := by decide
  obtain ⟨hnumbers, htexts, -, -, htagged, hrender⟩ := renders hrun
  exact ⟨hrun, hnumber, (hnumbers _ hnumber).1, htext, htexts _ (.inl htext), htagged, hrender⟩

end Program

end ScriptFront
