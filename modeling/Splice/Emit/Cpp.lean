import Splice.Decimal.Text
import Splice.Text.Spaces
import Splice.Tree.Basic

/-!
# C++ text

Functions and variables are declared with `auto`, widgets call console stubs from a fixed preamble,
and statements for the collaborator are left as comments.
-/

namespace Splice.Cpp

def escapeChar (c : Char) : List Char :=
  if c = '\\' then ['\\', '\\']
  else if c = '"' then ['\\', '"']
  else if c = '\n' then ['\\', 'n']
  else if c = '\t' then ['\\', 't']
  else if c = '\r' then ['\\', 'r']
  else [c]

def escape (text : String) : String :=
  String.ofList (text.toList.flatMap escapeChar)

def literal (text : String) : String :=
  "string(\"" ++ escape text ++ "\")"

def indentation (depth : Nat) : String :=
  Text.spaces (4 * depth)

def line (depth : Nat) (text : String) : String :=
  indentation depth ++ text ++ "\n"

def isBinary : Expr → Bool
  | .binary .. => true
  | _ => false

def group (parens : Bool) (part : String) : String :=
  if parens then "(" ++ part ++ ")" else part

def defaultArgs : Widget → String
  | .box => ""
  | .text => literal ""
  | .button => literal "Button"

/-- A widget with children is a function that is called where it stands. -/
def called (depth : Nat) (first body : String) : String :=
  "[&]() \x7b\n" ++ line (depth + 1) (first ++ ";") ++ body ++ indentation depth ++ "\x7d()"

mutual

def expr (depth : Nat) : Expr → String
  | .number x => Decimal.text x
  | .text t => literal t
  | .name n => n
  | .binary op l r =>
    group (isBinary l) (expr depth l) ++ " " ++ op.symbol ++ " " ++
      group (isBinary r) (expr depth r)
  | .call callee args => callee ++ "(" ++ ", ".intercalate (exprs depth args) ++ ")"
  | .ui widget args children =>
    let shown := if args.isEmpty then defaultArgs widget
      else ", ".intercalate (exprs depth args)
    let call := widget.name ++ "(" ++ shown ++ ")"
    match children with
    | [] => call
    | child :: more =>
      called depth call
        (String.join ((exprs (depth + 1) (child :: more)).map fun e => line (depth + 1) (e ++ ";")))

def exprs (depth : Nat) : List Expr → List String
  | [] => []
  | e :: es => expr depth e :: exprs depth es

end

def paramList (params : List String) : String :=
  ", ".intercalate (params.map ("auto " ++ ·))

mutual

/-- A statement; inside `main` a bare return gives zero. -/
def stmt (inMain : Bool) (depth : Nat) : Stmt → String
  | .function name params body =>
    line depth ("auto " ++ name ++ " = [&](" ++ paramList params ++ ") \x7b") ++
      block false depth body ++ line depth "\x7d;"
  | .binding name none => line depth ("auto " ++ name ++ " = 0;")
  | .binding name (some init) => line depth ("auto " ++ name ++ " = " ++ expr depth init ++ ";")
  | .branch test yes none =>
    line depth ("if (" ++ expr depth test ++ ") \x7b") ++ block inMain depth yes ++
      line depth "\x7d"
  | .branch test yes (some no) =>
    line depth ("if (" ++ expr depth test ++ ") \x7b") ++ block inMain depth yes ++
      line depth "\x7d else \x7b" ++ block inMain depth no ++ line depth "\x7d"
  | .loop test body =>
    line depth ("while (" ++ expr depth test ++ ") \x7b") ++ block inMain depth body ++
      line depth "\x7d"
  | .ret none => line depth (if inMain then "return 0;" else "return;")
  | .ret (some value) => line depth ("return " ++ expr depth value ++ ";")
  | .expr e => line depth (expr depth e ++ ";")
  | .generate name _ _ => line depth ("// [AI generated function '" ++ name ++ "' placeholder]")
  | .optimize _ => line depth "// [AI optimized block placeholder]"
  | .ask instruction _ =>
    line depth ("// [AI instruction placeholder: " ++ instruction.getD "Improve this code" ++ "]")
  | .load library => line depth ("// [AI module '" ++ library ++ "' placeholder]")
  | .search query => line depth ("// [AI search: " ++ query ++ "]")
  | .inspect _ => line depth "// [AI inspect placeholder]"

def block (inMain : Bool) (depth : Nat) : List Stmt → String
  | [] => ""
  | s :: ss => stmt inMain (depth + 1) s ++ block inMain depth ss

end

def mainFunction (body : List Stmt) : String :=
  line 0 "int main() \x7b" ++ block true 0 body ++ line 1 "return 0;" ++ line 0 "\x7d"

def function (f : Function) : String :=
  if f.name = "main" then mainFunction f.body
  else
    line 0 ("auto " ++ f.name ++ "(" ++ paramList f.params ++ ") \x7b") ++
      block false 0 f.body ++ line 0 "\x7d"

def script (program : Program) : String :=
  let body := program.body.filter (·.function?.isNone)
  if program.functions.any (·.name == "main") || body.isEmpty then ""
  else "\n" ++ mainFunction body

def preamble : List String :=
  ["#include <iostream>",
    "#include <string>",
    "#include <vector>",
    "#include <functional>",
    "",
    "using namespace std;",
    "",
    "template <typename... Args>",
    "void box(Args...) \x7b cout << \"[BOX]\" << endl; \x7d",
    "template <typename T, typename... Rest>",
    "void text(T content, Rest...) \x7b cout << content << endl; \x7d",
    "template <typename T, typename... Rest>",
    "void button(T label, Rest...) \x7b cout << \"[BUTTON: \" << label << \"]\" << endl; \x7d",
    "",
    "void print() \x7b cout << endl; \x7d",
    "template <typename T, typename... Rest>",
    "void print(T first, Rest... rest) \x7b",
    "    cout << first;",
    "    ((cout << \" \" << rest), ...);",
    "    cout << endl;",
    "\x7d"]

def unit (program : Program) : String :=
  String.join (preamble.map (line 0)) ++
    String.join (program.functions.map fun f => "\n" ++ function f) ++ script program

end Splice.Cpp
