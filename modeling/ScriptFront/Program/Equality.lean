import ScriptFront.Program.Basic

/-!
# Equality of programs

Equality of expressions and of statements is **decidable**, numbers being compared by their bits.
The trees hold lists of trees, so the test is written out as one recursion over trees and lists of
trees together; `Expr.same_iff` and `Stmt.same_iff` say that it decides equality.
-/

namespace ScriptFront

mutual

/-- Are two expressions equal? -/
def Expr.same : Expr → Expr → Bool
  | .boolean v, .boolean w => v = w
  | .number v, .number w => v = w
  | .string v, .string w => v = w
  | .reference v, .reference w => v = w
  | .unary o r, .unary p s => o = p && r.same s
  | .binary l o r, .binary m p s => l.same m && o = p && r.same s
  | .logical l o r, .logical m p s => l.same m && o = p && r.same s
  | .grouping e, .grouping f => e.same f
  | .assign n o v, .assign m p w => n = m && o = p && v.same w
  | .get e n, .get f m => e.same f && n = m
  | .set e n o v, .set f m p w => e.same f && n = m && o = p && v.same w
  | .super n, .super m => n = m
  | .call e as, .call f bs => e.same f && Expr.sameList as bs
  | _, _ => false

/-- Are two lists of expressions equal? -/
def Expr.sameList : List Expr → List Expr → Bool
  | [], [] => true
  | a :: as, b :: bs => a.same b && Expr.sameList as bs
  | _, _ => false

end

mutual

/-- The test of expressions decides equality. -/
theorem Expr.same_iff : (a b : Expr) → (a.same b = true ↔ a = b)
  | .boolean _, b | .number _, b | .string _, b | .reference _, b | .super _, b => by
    cases b <;> simp [Expr.same]
  | .unary _ r, b => by cases b <;> simp [Expr.same, Expr.same_iff r]
  | .binary l _ r, b => by
    cases b <;> simp [Expr.same, Expr.same_iff l, Expr.same_iff r, and_assoc]
  | .logical l _ r, b => by
    cases b <;> simp [Expr.same, Expr.same_iff l, Expr.same_iff r, and_assoc]
  | .grouping e, b => by cases b <;> simp [Expr.same, Expr.same_iff e]
  | .assign _ _ v, b => by cases b <;> simp [Expr.same, Expr.same_iff v, and_assoc]
  | .get e _, b => by cases b <;> simp [Expr.same, Expr.same_iff e]
  | .set e _ _ v, b => by
    cases b <;> simp [Expr.same, Expr.same_iff e, Expr.same_iff v, and_assoc]
  | .call e as, b => by cases b <;> simp [Expr.same, Expr.same_iff e, Expr.sameList_iff as]

/-- The test of lists of expressions decides equality. -/
theorem Expr.sameList_iff : (as bs : List Expr) → (Expr.sameList as bs = true ↔ as = bs)
  | [], bs => by cases bs <;> simp [Expr.sameList]
  | a :: as, bs => by cases bs <;> simp [Expr.sameList, Expr.same_iff a, Expr.sameList_iff as]

end

/-- Expressions can be compared. -/
instance : DecidableEq Expr :=
  fun a b => decidable_of_iff _ (Expr.same_iff a b)

mutual

/-- Are two statements equal? -/
def Stmt.same : Stmt → Stmt → Bool
  | .binding n v c, .binding m w d => n = m && v = w && c = d
  | .function f, .function g => f.same g
  | .classDecl n s fs, .classDecl m t gs => n = m && s = t && FunctionDecl.sameList fs gs
  | .expression e, .expression f => e = f
  | .print e, .print f => e = f
  | .return v, .return w => v = w
  | .branch c y n, .branch d z m => c = d && y.same z && Stmt.sameOption n m
  | .while c b, .while d e => c = d && b.same e
  | .for i c n b, .for j d m e => Stmt.sameOption i j && c = d && n = m && b.same e
  | .block ss, .block ts => Stmt.sameList ss ts
  | _, _ => false
termination_by structural s => s

/-- Are two optional statements equal? -/
def Stmt.sameOption : Option Stmt → Option Stmt → Bool
  | none, none => true
  | some s, some t => s.same t
  | _, _ => false
termination_by structural s => s

/-- Are two lists of statements equal? -/
def Stmt.sameList : List Stmt → List Stmt → Bool
  | [], [] => true
  | s :: ss, t :: ts => s.same t && Stmt.sameList ss ts
  | _, _ => false
termination_by structural s => s

/-- Are two functions equal? -/
def FunctionDecl.same : FunctionDecl → FunctionDecl → Bool
  | .mk n p b, .mk m q c => n = m && p = q && Stmt.sameList b c
termination_by structural f => f

/-- Are two lists of functions equal? -/
def FunctionDecl.sameList : List FunctionDecl → List FunctionDecl → Bool
  | [], [] => true
  | f :: fs, g :: gs => f.same g && FunctionDecl.sameList fs gs
  | _, _ => false
termination_by structural s => s

end

mutual

/-- The test of statements decides equality. -/
theorem Stmt.same_iff : (s t : Stmt) → (s.same t = true ↔ s = t)
  | .binding _ _ _, t | .expression _, t | .print _, t | .return _, t => by
    cases t <;> simp [Stmt.same, and_assoc]
  | .function f, t => by cases t <;> simp [Stmt.same, FunctionDecl.same_iff f]
  | .classDecl _ _ fs, t => by
    cases t <;> simp [Stmt.same, FunctionDecl.sameList_iff fs, and_assoc]
  | .branch _ y n, t => by
    cases t <;> simp [Stmt.same, Stmt.same_iff y, Stmt.sameOption_iff n, and_assoc]
  | .while _ b, t => by cases t <;> simp [Stmt.same, Stmt.same_iff b]
  | .for i _ _ b, t => by
    cases t <;> simp [Stmt.same, Stmt.sameOption_iff i, Stmt.same_iff b, and_assoc]
  | .block ss, t => by cases t <;> simp [Stmt.same, Stmt.sameList_iff ss]

/-- The test of optional statements decides equality. -/
theorem Stmt.sameOption_iff : (s t : Option Stmt) → (Stmt.sameOption s t = true ↔ s = t)
  | none, t => by cases t <;> simp [Stmt.sameOption]
  | some s, t => by cases t <;> simp [Stmt.sameOption, Stmt.same_iff s]

/-- The test of lists of statements decides equality. -/
theorem Stmt.sameList_iff : (ss ts : List Stmt) → (Stmt.sameList ss ts = true ↔ ss = ts)
  | [], ts => by cases ts <;> simp [Stmt.sameList]
  | s :: ss, ts => by cases ts <;> simp [Stmt.sameList, Stmt.same_iff s, Stmt.sameList_iff ss]

/-- The test of functions decides equality. -/
theorem FunctionDecl.same_iff : (f g : FunctionDecl) → (f.same g = true ↔ f = g)
  | .mk _ _ b, g => by cases g; simp [FunctionDecl.same, Stmt.sameList_iff b, and_assoc]

/-- The test of lists of functions decides equality. -/
theorem FunctionDecl.sameList_iff :
    (fs gs : List FunctionDecl) → (FunctionDecl.sameList fs gs = true ↔ fs = gs)
  | [], gs => by cases gs <;> simp [FunctionDecl.sameList]
  | f :: fs, gs => by
    cases gs <;> simp [FunctionDecl.sameList, FunctionDecl.same_iff f, FunctionDecl.sameList_iff fs]

end

/-- Statements can be compared. -/
instance : DecidableEq Stmt :=
  fun s t => decidable_of_iff _ (Stmt.same_iff s t)

/-- Functions can be compared. -/
instance : DecidableEq FunctionDecl :=
  fun f g => decidable_of_iff _ (FunctionDecl.same_iff f g)

end ScriptFront
