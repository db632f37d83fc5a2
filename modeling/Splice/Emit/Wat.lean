import Splice.Emit.Fault
import Splice.Text.Spaces
import Splice.Tree.Basic

/-!
# WebAssembly text

Every top-level function becomes a function from 32-bit integers to one 32-bit integer.  Only
parameters have storage, so a read of any other variable, and any text literal, is refused.
Statements for the collaborator are left as comments.

Code is a list of instructions in which blocks, loops and branches hold their bodies;
`Module.render` writes it out.
-/

namespace Splice.Wat

inductive Instr where
  | const (value : Int)
  | localGet (index : Nat)
  | arith (op : Operator)
  | eqz
  | call (name : String)
  | drop
  | ret
  | jump (label : String)
  | jumpIf (label : String)
  | block (label : String) (body : List Instr)
  | loop (label : String) (body : List Instr)
  | branch (yes : List Instr) (no : Option (List Instr))
  | comment (text : String)

/-- A function with its number of parameters. -/
structure Func where
  name : String
  arity : Nat
  body : List Instr

structure Module where
  funcs : List Func := []

/-- What names mean inside one function: its parameters, and the arities of all functions. -/
structure Context where
  params : List String
  arity? : String → Option Nat

/-- The arity of a function; of several with one name the last counts. -/
def arityIn (functions : List Function) (name : String) : Option Nat :=
  (functions.reverse.find? (·.name == name)).map (·.params.length)

def int32? (x : Float) : Option Int :=
  (Decimal.integer? x).filter fun n => -2147483648 ≤ n && n ≤ 2147483647

def widgetCode : Widget → List Instr
  | .box => [.call "createBox"]
  | .text => [.const 0, .const 0, .call "createText"]
  | .button => [.const 0, .const 0, .call "createButton"]

mutual

/-- Code that leaves the value of an expression on the stack.  The arguments of a widget are not
lowered. -/
def lowerExpr (ctx : Context) : Expr → Except EmitFault (List Instr)
  | .number x =>
    match int32? x with
    | some n => .ok [.const n]
    | none => .error (.numberOutOfRange x)
  | .text t => .error (.unsupported (.textLiteral t))
  | .name n =>
    match ctx.params.idxOf? n with
    | some i => .ok [.localGet i]
    | none => .error (.unsupported (.variableRead n))
  | .binary op l r => do
    let left ← lowerExpr ctx l
    let right ← lowerExpr ctx r
    return left ++ right ++ [.arith op]
  | .call callee args => do
    if callee = "print" then
      return (← lowerEach ctx (.call "log") args) ++ [.const 0]
    else
      match ctx.arity? callee with
      | none => throw (.unsupported (.undeclaredCall callee))
      | some expected =>
        if expected = args.length then
          return (← lowerArgs ctx args) ++ [.call callee]
        else
          throw (.unsupported (.arity callee args.length expected))
  | .ui widget _ children => do
    return widgetCode widget ++ (← lowerEach ctx .drop children)

def lowerArgs (ctx : Context) : List Expr → Except EmitFault (List Instr)
  | [] => .ok []
  | e :: es => do
    let first ← lowerExpr ctx e
    return first ++ (← lowerArgs ctx es)

def lowerEach (ctx : Context) (use : Instr) : List Expr → Except EmitFault (List Instr)
  | [] => .ok []
  | e :: es => do
    let first ← lowerExpr ctx e
    return first ++ use :: (← lowerEach ctx use es)

end

mutual

/-- Code that leaves the stack as it was.  A binding only computes its initialiser. -/
def lowerStmt (ctx : Context) : Stmt → Except EmitFault (List Instr)
  | .function name _ _ => .error (.unsupported (.nestedFunction name))
  | .binding _ none => .ok []
  | .binding _ (some init) => do
    return (← lowerExpr ctx init) ++ [.drop]
  | .branch test yes none => do
    let test ← lowerExpr ctx test
    return test ++ [.branch (← lowerBlock ctx yes) none]
  | .branch test yes (some no) => do
    let test ← lowerExpr ctx test
    let yes ← lowerBlock ctx yes
    return test ++ [.branch yes (some (← lowerBlock ctx no))]
  | .loop test body => do
    let test ← lowerExpr ctx test
    let body ← lowerBlock ctx body
    let round := test ++ [.eqz, .jumpIf "break"] ++ body ++ [.jump "continue"]
    return [.block "break" [.loop "continue" round]]
  | .ret none => .ok [.const 0, .ret]
  | .ret (some value) => do
    return (← lowerExpr ctx value) ++ [.ret]
  | .expr e => do
    return (← lowerExpr ctx e) ++ [.drop]
  | .generate name _ _ => .ok [.comment ("generate fn " ++ name ++ ": not compiled")]
  | .optimize _ => .ok [.comment "ai.optimize block: not compiled"]
  | .ask _ _ => .ok [.comment "ai statement: not compiled"]
  | .load library => .ok [.comment ("ai.import " ++ library ++ ": not compiled")]
  | .search _ => .ok [.comment "ai.search: not compiled"]
  | .inspect _ => .ok [.comment "ai.inspect: not compiled"]

def lowerBlock (ctx : Context) : List Stmt → Except EmitFault (List Instr)
  | [] => .ok []
  | s :: ss => do
    let first ← lowerStmt ctx s
    return first ++ (← lowerBlock ctx ss)

end

def lowerFunction (arity? : String → Option Nat) (f : Function) : Except EmitFault Func := do
  let body ← lowerBlock ⟨f.params, arity?⟩ f.body
  return ⟨f.name, f.params.length, body ++ [.const 0]⟩

def Module.ofProgram (program : Program) : Except EmitFault Module := do
  return ⟨← program.functions.mapM (lowerFunction (arityIn program.functions))⟩

def arithName : Operator → String
  | .add => "i32.add"
  | .sub => "i32.sub"
  | .mul => "i32.mul"
  | .div => "i32.div_s"
  | .equal => "i32.eq"
  | .notEqual => "i32.ne"
  | .less => "i32.lt_s"
  | .greater => "i32.gt_s"

/-- One line of code, two spaces for each level; an empty line stays empty. -/
def line (depth : Nat) (text : String) : String :=
  if text.isEmpty then "\n" else Text.spaces (2 * depth) ++ text ++ "\n"

mutual

def Instr.render (depth : Nat) : Instr → String
  | .const value => line depth ("i32.const " ++ toString value)
  | .localGet index => line depth ("local.get $p" ++ toString index)
  | .arith op => line depth (arithName op)
  | .eqz => line depth "i32.eqz"
  | .call name => line depth ("call $" ++ name)
  | .drop => line depth "drop"
  | .ret => line depth "return"
  | .jump label => line depth ("br $" ++ label)
  | .jumpIf label => line depth ("br_if $" ++ label)
  | .block label body =>
    line depth ("block $" ++ label) ++ renderAll (depth + 1) body ++ line depth "end"
  | .loop label body =>
    line depth ("loop $" ++ label) ++ renderAll (depth + 1) body ++ line depth "end"
  | .branch yes none => line depth "if" ++ renderAll (depth + 1) yes ++ line depth "end"
  | .branch yes (some no) =>
    line depth "if" ++ renderAll (depth + 1) yes ++ line depth "else" ++
      renderAll (depth + 1) no ++ line depth "end"
  | .comment text => line depth (";; " ++ text)

def renderAll (depth : Nat) : List Instr → String
  | [] => ""
  | i :: is => i.render depth ++ renderAll depth is

end

def Func.header (f : Func) : String :=
  "(func $" ++ f.name ++
    String.join ((List.range f.arity).map fun i => " (param $p" ++ toString i ++ " i32)") ++
    " (result i32)"

/-- A function; the main one is exported. -/
def Func.render (f : Func) : String :=
  line 1 "" ++ line 1 f.header ++ renderAll 2 f.body ++ line 1 ")" ++
    (if f.name = "main" then line 1 "(export \"main\" (func $main))" else "")

def preamble : List String :=
  ["(import \"env\" \"log\" (func $log (param i32)))",
    "(import \"env\" \"createBox\" (func $createBox (result i32)))",
    "(import \"env\" \"createText\" (func $createText (param i32 i32) (result i32)))",
    "(import \"env\" \"createButton\" (func $createButton (param i32 i32) (result i32)))",
    "(import \"env\" \"appendChild\" (func $appendChild (param i32 i32)))",
    "(memory $memory 1)",
    "(export \"memory\" (memory $memory))"]

def Module.render (m : Module) : String :=
  line 0 "(module" ++ String.join (preamble.map (line 1)) ++
    String.join (m.funcs.map Func.render) ++ line 0 ")"

end Splice.Wat
