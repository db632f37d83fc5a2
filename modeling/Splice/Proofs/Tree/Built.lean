import Splice.Proofs.Tree.Parts
import Splice.Tree.Parser

/-! What the grammar can build inside a number of open blocks and groups.  Every block, children
block, group and argument list takes one of the levels that are left, and an operation takes its
right operand from a higher rung of precedence than its own; but an operation may stand to the left
of any number of further ones at no cost. -/
namespace Splice

/-- An expression that can be read on a rung of precedence inside `n` open blocks and groups. -/
inductive Expr.Built : (n level : Nat) → Expr → Prop where
  | name {n level : Nat} {name : String} : Built n level (.name name)
  | number {n level : Nat} {value : Float} : Built n level (.number value)
  | text {n level : Nat} {value : String} : Built n level (.text value)
  | call {n level : Nat} {callee : String} {args : List Expr} (hroom : n < Parser.maxNesting)
      (hargs : ∀ e ∈ args, Built (n + 1) 1 e) : Built n level (.call callee args)
  /-- A widget needs neither arguments nor children. -/
  | ui {n level : Nat} {widget : Widget} {args children : List Expr}
      (hroom : args ++ children ≠ [] → n < Parser.maxNesting)
      (hargs : ∀ e ∈ args, Built (n + 1) 1 e) (hchildren : ∀ e ∈ children, Built (n + 1) 1 e) :
      Built n level (.ui widget args children)
  | group {n level : Nat} {e : Expr} (hroom : n < Parser.maxNesting) (h : Built (n + 1) 1 e) :
      Built n level e
  | binary {n level : Nat} {op : Operator} {left right : Expr} (hlevel : level ≤ op.precedence)
      (hleft : Built n op.precedence left) (hright : Built n (op.precedence + 1) right) :
      Built n level (.binary op left right)

inductive Stmt.Built : (n : Nat) → Stmt → Prop where
  | of_parts {n : Nat} {s : Stmt} (hexprs : ∀ e ∈ s.exprs, e.Built n 1)
      (hroom : s.blocks ≠ [] → n < Parser.maxNesting)
      (hblocks : ∀ block ∈ s.blocks, ∀ t ∈ block, Built (n + 1) t) : Built n s

theorem Expr.Built.weaken {n level lower : Nat} {e : Expr} (h : e.Built n level)
    (hle : lower ≤ level) : e.Built n lower := by
  cases h with
  | name => exact .name
  | number => exact .number
  | text => exact .text
  | call hroom hargs => exact .call hroom hargs
  | ui hroom hargs hchildren => exact .ui hroom hargs hchildren
  | group hroom h => exact .group hroom h
  | binary hlevel hleft hright => exact .binary (Nat.le_trans hle hlevel) hleft hright

def Expr.AllBuilt (n : Nat) (es : List Expr) : Prop :=
  ∀ e ∈ es, e.Built n 1

def Stmt.AllBuilt (n : Nat) (stmts : List Stmt) : Prop :=
  ∀ s ∈ stmts, s.Built n

section Lists

variable {n level : Nat} {e : Expr} {es args children : List Expr} {s : Stmt} {stmts : List Stmt}

@[simp] theorem Expr.allBuilt_nil : AllBuilt n [] :=
  List.forall_mem_nil _

@[simp] theorem Expr.allBuilt_cons : AllBuilt n (e :: es) ↔ e.Built n 1 ∧ AllBuilt n es :=
  List.forall_mem_cons

@[simp] theorem Stmt.allBuilt_nil : AllBuilt n [] :=
  List.forall_mem_nil _

@[simp] theorem Stmt.allBuilt_cons : AllBuilt n (s :: stmts) ↔ s.Built n ∧ AllBuilt n stmts :=
  List.forall_mem_cons

theorem Stmt.built_iff : s.Built n ↔ Expr.AllBuilt n s.exprs ∧
    (s.blocks ≠ [] → n < Parser.maxNesting) ∧ ∀ block ∈ s.blocks, AllBuilt (n + 1) block := by
  refine ⟨fun h => ?_, fun ⟨hexprs, hroom, hblocks⟩ => .of_parts hexprs hroom hblocks⟩
  cases h with
  | of_parts hexprs hroom hblocks => exact ⟨hexprs, hroom, hblocks⟩

end Lists

end Splice
