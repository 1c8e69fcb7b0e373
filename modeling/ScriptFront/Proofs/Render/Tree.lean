import Mathlib.Data.List.Nodup
import ScriptFront.Program.Tree
import ScriptFront.Proofs.Dump.Text

/-!
# Trees Tell Programs Apart

The tree of a program holds **everything there is to the program**. An expression can be told from
its tree, whatever it is (`Expr.tree_inj`). So can a statement that is canonical (`Stmt.tree_inj`),
and so a program (`Program.tree_inj`): a function without parameters and one with an empty list of
them have the same tree, but only the former is canonical.

A node is told by its variant and its parts (`TreeNode.node_inj`), since no part stands under the
key of the variant. An operator is told by its name (`Kind.name_inj`).
-/

namespace ScriptFront

open Text TreeNode

/-! ### Names -/

namespace Kind

/-- A kind is one of those with a name of their own, or another number. -/
theorem mem_all_or (k : Kind) : k ∈ all ∨ ∃ n, k = .other n := by
  cases k with
  | other n => exact .inr ⟨n, rfl⟩
  | keyword k => exact .inl (by cases k <;> decide)
  | punctuator p => exact .inl (by cases p <;> decide)
  | _ => exact .inl (by decide)

/-- **A kind can be told from its name.** A number that names no kind is written in a way that no
name begins with. -/
@[simp] theorem name_inj {k k' : Kind} : k.name = k'.name ↔ k = k' := by
  refine ⟨?_, congrArg name⟩
  intro h
  have hother : ∀ k ∈ all, (utf8 "TokenType(").isPrefixOf k.name = false := by decide +kernel
  have hnodup : (all.map name).Nodup := by decide +kernel
  have hprefix (n : Int) : (utf8 "TokenType(").isPrefixOf (other n).name = true := by
    rw [List.isPrefixOf_iff_prefix, name, List.append_assoc]
    exact List.prefix_append _ _
  rcases mem_all_or k with hk | ⟨n, rfl⟩ <;> rcases mem_all_or k' with hk' | ⟨n', rfl⟩
  · exact List.inj_on_of_nodup_map hnodup hk hk' h
  · have := hother k hk
    rw [h, hprefix] at this
    cases this
  · have := hother k' hk'
    rw [← h, hprefix] at this
    cases this
  · rw [name, name, List.append_cancel_right_eq, List.append_cancel_left_eq] at h
    exact congrArg other (integer_inj h)

end Kind

/-! ### Nodes -/

namespace TreeNode

variable {key key' type type' : String} {d d' : Document} {value value' : Option Document}
  {entries entries' : List (Bytes × Document)}

/-- An entry can be told from its key and its value. -/
@[simp] theorem entry_inj : entry key d = entry key' d' ↔ key = key' ∧ d = d' := by
  simp [entry]

/-- Does nothing stand under the key? -/
def Lacks (key : String) (entries : List (Bytes × Document)) : Prop :=
  ∀ e ∈ entries, e.1 ≠ utf8 key

/-- No entry stands under any key. -/
@[simp] theorem lacks_nil : Lacks key [] :=
  nofun

/-- Nothing stands under a key if neither the first entry nor another one does. -/
@[simp] theorem lacks_cons :
    Lacks key (entry key' d :: entries) ↔ key' ≠ key ∧ Lacks key entries := by
  simp [Lacks, entry]

/-- Nothing stands under a key in entries together if in neither of them. -/
@[simp] theorem lacks_append :
    Lacks key (entries ++ entries') ↔ Lacks key entries ∧ Lacks key entries' :=
  List.forall_mem_append

/-- An entry that may be missing stands under no other key. -/
@[simp] theorem lacks_optional (h : key' ≠ key) : Lacks key (optional key' value) := by
  cases value <;> simp [optional, h]

/-- If nothing stands under a key, no entry of it is there. -/
theorem Lacks.notMem (h : Lacks key entries) : entry key d ∉ entries :=
  fun hmem => h _ hmem rfl

/-- An entry that may be missing can be told from its value. -/
@[simp] theorem optional_inj : optional key value = optional key value' ↔ value = value' := by
  cases value <;> cases value' <;> simp [optional]

/-- An entry that may be missing can be told from what comes after it. -/
theorem optional_append_inj (h : Lacks key entries) (h' : Lacks key entries') :
    optional key value ++ entries = optional key value' ++ entries' ↔
      value = value' ∧ entries = entries' := by
  have hne (d : Document) (rest : List (Bytes × Document)) : entries ≠ entry key d :: rest := by
    rintro rfl
    exact h.notMem List.mem_cons_self
  have hne' (d : Document) (rest : List (Bytes × Document)) : entry key d :: rest ≠ entries' := by
    rintro rfl
    exact h'.notMem List.mem_cons_self
  cases value <;> cases value' <;> simp [optional, hne, hne']

/-- **A node is told by its variant and its parts.** -/
theorem node_inj (h : Lacks "type" entries) :
    node type entries value = node type' entries' value' ↔
      type = type' ∧ entries = entries' ∧ value = value' := by
  have hvalue : Lacks "type" (optional "value" value) := lacks_optional (by decide)
  rw [node, node, Document.record.injEq, List.append_cons_inj_of_notMem h.notMem hvalue.notMem,
    optional_inj, entry_inj, Document.text.injEq, utf8_inj]
  simp only [true_and]
  exact and_left_comm

end TreeNode

/-! ### Expressions -/

mutual

/-- **An expression can be told from its tree.** Induction on the tree. -/
theorem Expr.tree_inj : (e e' : Expr) → (e.tree = e'.tree ↔ e = e')
  | .boolean _, e' | .number _, e' | .string _, e' | .reference _, e' | .super _, e' => by
    cases e' <;> simp [Expr.tree, node_inj]
  | .unary _ r, e' => by cases e' <;> simp [Expr.tree, node_inj, Expr.tree_inj r]
  | .binary l _ r, e' => by
    cases e' <;> simp [Expr.tree, node_inj, Expr.tree_inj l, Expr.tree_inj r]
  | .logical l _ r, e' => by
    cases e' <;> simp [Expr.tree, node_inj, Expr.tree_inj l, Expr.tree_inj r]
  | .grouping e, e' => by cases e' <;> simp [Expr.tree, node_inj, Expr.tree_inj e]
  | .assign _ _ v, e' => by
    cases e' <;> simp [Expr.tree, node_inj, Expr.tree_inj v, and_assoc]
  | .get e _, e' => by
    cases e' <;> simp [Expr.tree, node_inj, Expr.tree_inj e, and_comm]
  | .set e _ _ v, e' => by
    cases e' <;> simp [Expr.tree, node_inj, Expr.tree_inj e, Expr.tree_inj v, and_assoc,
      and_left_comm]
  | .call e es, e' => by
    cases e' <;> simp [Expr.tree, node_inj, Expr.tree_inj e, Expr.trees_inj es, and_comm]

/-- Expressions can be told from their trees. -/
theorem Expr.trees_inj : (es es' : List Expr) → (Expr.trees es = Expr.trees es' ↔ es = es')
  | [], es' => by cases es' <;> simp [Expr.trees]
  | e :: es, es' => by cases es' <;> simp [Expr.trees, Expr.tree_inj e, Expr.trees_inj es]

end

/-- An expression that may be missing can be told from its tree. -/
theorem Expr.treeOption_inj {value value' : Option Expr} :
    value.map Expr.tree = value'.map Expr.tree ↔ value = value' := by
  cases value <;> cases value' <;> simp [Expr.tree_inj]

/-! ### Statements -/

/-- A superclass that may be missing can be told from its document. -/
theorem Stmt.superclass_inj {superclass superclass' : Option Bytes} :
    superclass.map Document.text = superclass'.map Document.text ↔ superclass = superclass' := by
  cases superclass <;> cases superclass' <;> simp

/-- A function that is canonical has no empty list of parameters. -/
theorem FunctionDecl.params_inj {params params' : Option (List Bytes)} (h : params ≠ some [])
    (h' : params' ≠ some []) :
    (params.getD []).map Document.text = (params'.getD []).map Document.text ↔
      params = params' := by
  rw [List.map_inj_right fun _ _ => Document.text.inj]
  cases params <;> cases params' <;> simp_all [eq_comm]

/-- The branches of a canonical statement are canonical. -/
theorem Stmt.canonical_of_branch {condition : Expr} {yes : Stmt} {no : Option Stmt}
    (h : (Stmt.branch condition yes no).canonical = true) :
    yes.canonical = true ∧ ∀ s, no = some s → s.canonical = true := by
  cases no with
  | none =>
      simp only [canonical, Bool.and_eq_true] at h
      exact ⟨h.1.2, nofun⟩
  | some s =>
      simp only [canonical, Bool.and_eq_true] at h
      refine ⟨h.1.2, ?_⟩
      intro s' hs'
      cases hs'
      exact h.2.2

/-- Only functions have nodes like those of functions. -/
theorem FunctionDecl.tree_ne_node {f : FunctionDecl} {type : String}
    {entries : List (Bytes × Document)} {value : Option Document} (h : "Function" ≠ type) :
    f.tree ≠ node type entries value := by
  obtain ⟨name, params, body⟩ := f
  simp [FunctionDecl.tree, node_inj, h]

/-- A node of another type is not the tree of a function. -/
theorem FunctionDecl.node_ne_tree {f : FunctionDecl} {type : String}
    {entries : List (Bytes × Document)} {value : Option Document} (h : "Function" ≠ type) :
    node type entries value ≠ f.tree :=
  (tree_ne_node h).symm

mutual

/-- **A canonical statement can be told from its tree.** Induction on the tree. -/
theorem Stmt.tree_inj : (s s' : Stmt) → s.canonical = true → s'.canonical = true →
    (s.tree = s'.tree ↔ s = s')
  | .binding .., s', _, _ => by
    cases s' <;> simp [Stmt.tree, node_inj, FunctionDecl.node_ne_tree, Expr.treeOption_inj,
      and_assoc, and_left_comm, and_comm]
  | .expression _, s', _, _ | .print _, s', _, _ | .return _, s', _, _ => by
    cases s' <;> simp [Stmt.tree, node_inj, FunctionDecl.node_ne_tree, Expr.tree_inj,
      Expr.treeOption_inj]
  | .function f, s', h, h' => by
    cases s' with
    | function f' =>
        rw [Stmt.canonical] at h h'
        simp [Stmt.tree, FunctionDecl.tree_inj f f' h h']
    | _ => simp [Stmt.tree, FunctionDecl.tree_ne_node]
  | .classDecl name superclass methods, s', h, h' => by
    cases s' with
    | classDecl name' superclass' methods' =>
        simp only [Stmt.canonical, Bool.and_eq_true] at h h'
        simp [Stmt.tree, node_inj, Stmt.superclass_inj, FunctionDecl.trees_inj _ _ h.2 h'.2,
          and_left_comm, and_comm]
    | _ => simp [Stmt.tree, node_inj, FunctionDecl.node_ne_tree]
  | .branch condition yes no, s', h, h' => by
    cases s' with
    | branch condition' yes' no' =>
        obtain ⟨hyes, hno⟩ := Stmt.canonical_of_branch h
        obtain ⟨hyes', hno'⟩ := Stmt.canonical_of_branch h'
        simp [Stmt.tree, node_inj, Expr.tree_inj, Stmt.tree_inj yes yes' hyes hyes',
          Stmt.treeOption_inj no no' hno hno', and_comm]
    | _ => simp [Stmt.tree, node_inj, FunctionDecl.node_ne_tree]
  | .while condition body, s', h, h' => by
    cases s' with
    | «while» condition' body' =>
        simp only [Stmt.canonical, Bool.and_eq_true] at h h'
        simp [Stmt.tree, node_inj, Expr.tree_inj, Stmt.tree_inj _ _ h.2 h'.2, and_comm]
    | _ => simp [Stmt.tree, node_inj, FunctionDecl.node_ne_tree]
  | .for init condition increment body, s', h, h' => by
    cases s' with
    | «for» init' condition' increment' body' =>
        simp only [Stmt.canonical, Bool.and_eq_true] at h h'
        have hinit := Stmt.treeOption_inj init init'
          (fun s hs => Stmt.canonical_of_initCanonical (hs ▸ h.1.1.1.1))
          (fun s hs => Stmt.canonical_of_initCanonical (hs ▸ h'.1.1.1.1))
        simp [Stmt.tree, node_inj, optional_append_inj, Expr.treeOption_inj, hinit,
          Stmt.tree_inj body body' h.2 h'.2, and_assoc, and_left_comm, and_comm]
    | _ => simp [Stmt.tree, node_inj, FunctionDecl.node_ne_tree]
  | .block body, s', h, h' => by
    cases s' with
    | block body' =>
        rw [Stmt.canonical] at h h'
        simp [Stmt.tree, node_inj, Stmt.trees_inj _ _ h h']
    | _ => simp [Stmt.tree, node_inj, FunctionDecl.node_ne_tree]

/-- A canonical statement that may be missing can be told from its tree. -/
theorem Stmt.treeOption_inj : (s s' : Option Stmt) → (∀ t, s = some t → t.canonical = true) →
    (∀ t, s' = some t → t.canonical = true) → (Stmt.treeOption s = Stmt.treeOption s' ↔ s = s')
  | none, s', _, _ => by cases s' <;> simp [Stmt.treeOption]
  | some s, none, _, _ => by simp [Stmt.treeOption]
  | some s, some s', h, h' => by
    simp [Stmt.treeOption, Stmt.tree_inj s s' (h s rfl) (h' s' rfl)]

/-- Canonical statements can be told from their trees. -/
theorem Stmt.trees_inj : (ss ss' : List Stmt) → Stmt.canonicals ss = true →
    Stmt.canonicals ss' = true → (Stmt.trees ss = Stmt.trees ss' ↔ ss = ss')
  | [], ss', _, _ => by cases ss' <;> simp [Stmt.trees]
  | s :: ss, [], _, _ => by simp [Stmt.trees]
  | s :: ss, s' :: ss', h, h' => by
    simp only [Stmt.canonicals, Bool.and_eq_true] at h h'
    simp [Stmt.trees, Stmt.tree_inj _ _ h.1 h'.1, Stmt.trees_inj _ _ h.2 h'.2]

/-- A canonical function can be told from its tree. -/
theorem FunctionDecl.tree_inj : (f f' : FunctionDecl) → f.canonical = true →
    f'.canonical = true → (f.tree = f'.tree ↔ f = f')
  | .mk name params body, .mk name' params' body', h, h' => by
    simp only [FunctionDecl.canonical, Bool.and_eq_true, decide_eq_true_eq] at h h'
    simp [FunctionDecl.tree, node_inj, FunctionDecl.params_inj h.1 h'.1,
      Stmt.trees_inj _ _ h.2 h'.2, and_left_comm, and_comm]

/-- Canonical functions can be told from their trees. -/
theorem FunctionDecl.trees_inj : (fs fs' : List FunctionDecl) →
    FunctionDecl.canonicals fs = true → FunctionDecl.canonicals fs' = true →
    (FunctionDecl.trees fs = FunctionDecl.trees fs' ↔ fs = fs')
  | [], fs', _, _ => by cases fs' <;> simp [FunctionDecl.trees]
  | f :: fs, [], _, _ => by simp [FunctionDecl.trees]
  | f :: fs, f' :: fs', h, h' => by
    simp only [FunctionDecl.canonicals, Bool.and_eq_true] at h h'
    simp [FunctionDecl.trees, FunctionDecl.tree_inj _ _ h.1 h'.1,
      FunctionDecl.trees_inj _ _ h.2 h'.2]

end

/-- **A canonical program can be told from its tree.** -/
theorem Program.tree_inj {p q : Program} (hp : p.canonical = true) (hq : q.canonical = true) :
    p.tree = q.tree ↔ p = q := by
  rw [tree, tree, node_inj (by simp)]
  simp [Stmt.trees_inj p q hp hq]

end ScriptFront
