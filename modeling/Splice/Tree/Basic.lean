import Splice.Token.Kind

/-!
# Program trees

Descriptions, instructions, queries and module names are text for the collaborator; the program
itself never looks inside them.
-/

namespace Splice

inductive Expr where
  | binary (op : Operator) (left right : Expr)
  | name (name : String)
  | number (value : Float)
  | text (value : String)
  | call (callee : String) (args : List Expr)
  | ui (widget : Widget) (args children : List Expr)

inductive Stmt where
  | function (name : String) (params : List String) (body : List Stmt)
  | binding (name : String) (init : Option Expr)
  | branch (test : Expr) (yes : List Stmt) (no : Option (List Stmt))
  | loop (test : Expr) (body : List Stmt)
  | ret (value : Option Expr)
  | expr (expr : Expr)
  | generate (name : String) (params : List String) (description : String)
  | optimize (body : List Stmt)
  | ask (instruction : Option String) (body : Option (List Stmt))
  | load (library : String)
  | search (query : String)
  | inspect (target : Expr)

/-- Statements in the order in which they run. -/
structure Program where
  body : List Stmt := []

structure Function where
  name : String
  params : List String
  body : List Stmt

def Stmt.function? : Stmt → Option Function
  | .function name params body => some ⟨name, params, body⟩
  | _ => none

def Program.functions (program : Program) : List Function :=
  program.body.filterMap Stmt.function?

def Stmt.endsWithBlock : Stmt → Bool
  | .function .. | .branch .. | .loop .. | .optimize _ | .ask _ (some _) => true
  | _ => false

/-!
Two trees are the same when they differ at most in the sign of zeros; a literal that is not a
number is not even the same as itself.
-/

mutual

def Expr.same : Expr → Expr → Bool
  | .binary op l r, .binary op' l' r' => op == op' && l.same l' && r.same r'
  | .name n, .name n' => n == n'
  | .number x, .number x' => x == x'
  | .text t, .text t' => t == t'
  | .call f args, .call f' args' => f == f' && Expr.sameAll args args'
  | .ui w args children, .ui w' args' children' =>
      w == w' && Expr.sameAll args args' && Expr.sameAll children children'
  | _, _ => false

def Expr.sameAll : List Expr → List Expr → Bool
  | [], [] => true
  | e :: es, e' :: es' => e.same e' && Expr.sameAll es es'
  | _, _ => false

end

def Expr.sameOption : Option Expr → Option Expr → Bool
  | none, none => true
  | some e, some e' => e.same e'
  | _, _ => false

mutual

def Stmt.same : Stmt → Stmt → Bool
  | .function n ps body, .function n' ps' body' => n == n' && ps == ps' && Stmt.sameAll body body'
  | .binding n init, .binding n' init' => n == n' && Expr.sameOption init init'
  | .branch t yes none, .branch t' yes' none => t.same t' && Stmt.sameAll yes yes'
  | .branch t yes (some no), .branch t' yes' (some no') =>
      t.same t' && Stmt.sameAll yes yes' && Stmt.sameAll no no'
  | .loop t body, .loop t' body' => t.same t' && Stmt.sameAll body body'
  | .ret v, .ret v' => Expr.sameOption v v'
  | .expr e, .expr e' => e.same e'
  | .generate n ps d, .generate n' ps' d' => n == n' && ps == ps' && d == d'
  | .optimize body, .optimize body' => Stmt.sameAll body body'
  | .ask i none, .ask i' none => i == i'
  | .ask i (some body), .ask i' (some body') => i == i' && Stmt.sameAll body body'
  | .load s, .load s' => s == s'
  | .search q, .search q' => q == q'
  | .inspect e, .inspect e' => e.same e'
  | _, _ => false

def Stmt.sameAll : List Stmt → List Stmt → Bool
  | [], [] => true
  | s :: ss, s' :: ss' => s.same s' && Stmt.sameAll ss ss'
  | _, _ => false

end

def Program.same (p q : Program) : Bool :=
  Stmt.sameAll p.body q.body

end Splice
