import ScriptFront.Tree.Basic

/-!
# Equality of trees

Two trees are equal if they agree at every node, in their tokens too. The
comparison is decided node by node (`Expr.same`, `Stmt.same`, `Block.same`).
-/

namespace ScriptFront

mutual

/-- Whether two expressions agree at every node. -/
def Expr.same : Expr → Expr → Bool
  | .ident m, .ident n => m == n
  | .int t v, .int u w => t == u && v == w
  | .bool t v, .bool u w => t == u && v == w
  | .prefixOp t o e, .prefixOp u q f => t == u && o == q && e.same f
  | .infixOp t o l r, .infixOp u q m s => t == u && o == q && l.same m && r.same s
  | .cond t c b a, .cond u d e f => t == u && c.same d && b.same e && Block.sameOption a f
  | .func t ps b, .func u qs c => t == u && ps == qs && b.same c
  | .call t c as, .call u d bs => t == u && c.same d && Expr.sameList as bs
  | _, _ => false

/-- Whether two lists of expressions agree. -/
def Expr.sameList : List Expr → List Expr → Bool
  | [], [] => true
  | e :: es, f :: fs => e.same f && Expr.sameList es fs
  | _, _ => false

/-- Whether two values agree, or are both missing. -/
def Expr.sameOption : Option Expr → Option Expr → Bool
  | none, none => true
  | some e, some f => e.same f
  | _, _ => false

/-- Whether two statements agree at every node. -/
def Stmt.same : Stmt → Stmt → Bool
  | .letStmt t n v, .letStmt u m w => t == u && n == m && Expr.sameOption v w
  | .returnStmt t v, .returnStmt u w => t == u && Expr.sameOption v w
  | .exprStmt t v, .exprStmt u w => t == u && Expr.sameOption v w
  | _, _ => false

/-- Whether two lists of statements agree. -/
def Stmt.sameList : List Stmt → List Stmt → Bool
  | [], [] => true
  | s :: ss, t :: ts => s.same t && Stmt.sameList ss ts
  | _, _ => false

/-- Whether two blocks agree at every node. -/
def Block.same : Block → Block → Bool
  | .mk t ss, .mk u rs => t == u && Stmt.sameList ss rs

/-- Whether two blocks agree, or are both missing. -/
def Block.sameOption : Option Block → Option Block → Bool
  | none, none => true
  | some b, some c => b.same c
  | _, _ => false

end

mutual

/-- By structural induction: expressions that agree at every node are equal. -/
theorem Expr.same_iff : ∀ e f : Expr, e.same f = true ↔ e = f
  | .ident m, f => by cases f <;> simp [Expr.same]
  | .int t v, f => by cases f <;> simp [Expr.same]
  | .bool t v, f => by cases f <;> simp [Expr.same]
  | .prefixOp t o e, f => by cases f <;> simp [Expr.same, Expr.same_iff e, and_assoc]
  | .infixOp t o l r, f => by
    cases f <;> simp [Expr.same, Expr.same_iff l, Expr.same_iff r, and_assoc]
  | .cond t c b a, f => by
    cases f <;>
      simp [Expr.same, Expr.same_iff c, Block.same_iff b, Block.sameOption_iff a, and_assoc]
  | .func t ps b, f => by cases f <;> simp [Expr.same, Block.same_iff b, and_assoc]
  | .call t c as, f => by
    cases f <;> simp [Expr.same, Expr.same_iff c, Expr.sameList_iff as, and_assoc]

theorem Expr.sameList_iff : ∀ es fs : List Expr, Expr.sameList es fs = true ↔ es = fs
  | [], fs => by cases fs <;> simp [Expr.sameList]
  | e :: es, fs => by cases fs <;> simp [Expr.sameList, Expr.same_iff e, Expr.sameList_iff es]

theorem Expr.sameOption_iff : ∀ v w : Option Expr, Expr.sameOption v w = true ↔ v = w
  | none, w => by cases w <;> simp [Expr.sameOption]
  | some e, w => by cases w <;> simp [Expr.sameOption, Expr.same_iff e]

/-- The same of statements. -/
theorem Stmt.same_iff : ∀ s t : Stmt, s.same t = true ↔ s = t
  | .letStmt u n v, t => by cases t <;> simp [Stmt.same, Expr.sameOption_iff v, and_assoc]
  | .returnStmt u v, t => by cases t <;> simp [Stmt.same, Expr.sameOption_iff v]
  | .exprStmt u v, t => by cases t <;> simp [Stmt.same, Expr.sameOption_iff v]

theorem Stmt.sameList_iff : ∀ ss ts : List Stmt, Stmt.sameList ss ts = true ↔ ss = ts
  | [], ts => by cases ts <;> simp [Stmt.sameList]
  | s :: ss, ts => by cases ts <;> simp [Stmt.sameList, Stmt.same_iff s, Stmt.sameList_iff ss]

/-- The same of blocks. -/
theorem Block.same_iff : ∀ b c : Block, b.same c = true ↔ b = c
  | .mk t ss, .mk u rs => by simp [Block.same, Stmt.sameList_iff ss]

theorem Block.sameOption_iff : ∀ a b : Option Block, Block.sameOption a b = true ↔ a = b
  | none, b => by cases b <;> simp [Block.sameOption]
  | some a, b => by cases b <;> simp [Block.sameOption, Block.same_iff a]

end

instance : DecidableEq Expr := fun e f => decidable_of_iff _ (Expr.same_iff e f)

instance : DecidableEq Stmt := fun s t => decidable_of_iff _ (Stmt.same_iff s t)

instance : DecidableEq Block := fun b c => decidable_of_iff _ (Block.same_iff b c)

deriving instance DecidableEq for Program

end ScriptFront
