/-!
# Kinds of token

Words of the language fall into three groups: keywords that open a statement, the three widgets of
the user interface, and plain names.  Operators carry their symbol and their binding strength.
-/

namespace Splice

inductive Widget where
  | box
  | text
  | button
  deriving DecidableEq, Repr

def Widget.name : Widget → String
  | .box => "box"
  | .text => "text"
  | .button => "button"

inductive Operator where
  | add
  | sub
  | mul
  | div
  | less
  | greater
  | equal
  | notEqual
  deriving DecidableEq, Repr

def Operator.symbol : Operator → String
  | .add => "+"
  | .sub => "-"
  | .mul => "*"
  | .div => "/"
  | .less => "<"
  | .greater => ">"
  | .equal => "=="
  | .notEqual => "!="

/-- Binding strength: comparisons are weakest, products strongest. -/
def Operator.precedence : Operator → Nat
  | .less | .greater | .equal | .notEqual => 1
  | .add | .sub => 2
  | .mul | .div => 3

def Operator.name : Operator → String
  | .add => "Plus"
  | .sub => "Minus"
  | .mul => "Star"
  | .div => "Slash"
  | .less => "Less"
  | .greater => "Greater"
  | .equal => "EqualEqual"
  | .notEqual => "NotEqual"

/-- Words that open a statement or a part of one. -/
inductive Keyword where
  | function
  | binding
  | ret
  | branch
  | otherwise
  | loop
  | generate
  | description
  | ai
  | aiOptimize
  | aiImport
  | aiSearch
  | aiInspect
  deriving DecidableEq, Repr

/-- The canonical spelling; a binding may also be spelled `let`. -/
def Keyword.spelling : Keyword → String
  | .function => "fn"
  | .binding => "var"
  | .ret => "return"
  | .branch => "if"
  | .otherwise => "else"
  | .loop => "while"
  | .generate => "generate"
  | .description => "description"
  | .ai => "ai"
  | .aiOptimize => "ai.optimize"
  | .aiImport => "ai.import"
  | .aiSearch => "ai.search"
  | .aiInspect => "ai.inspect"

def Keyword.name : Keyword → String
  | .function => "Fn"
  | .binding => "Var"
  | .ret => "Return"
  | .branch => "If"
  | .otherwise => "Else"
  | .loop => "While"
  | .generate => "Generate"
  | .description => "Description"
  | .ai => "Ai"
  | .aiOptimize => "AiOptimize"
  | .aiImport => "AiImport"
  | .aiSearch => "AiSearch"
  | .aiInspect => "AiInspect"

inductive Kind where
  | keyword (word : Keyword)
  | widget (widget : Widget)
  | operator (op : Operator)
  | ident
  | number
  | string
  | assign
  | leftParen
  | rightParen
  | comma
  | colon
  | newline
  | indent
  | dedent
  | endOfInput
  deriving DecidableEq, Repr

namespace Kind

def ofWord? : String → Option Kind
  | "fn" => some (.keyword .function)
  | "var" => some (.keyword .binding)
  | "let" => some (.keyword .binding)
  | "return" => some (.keyword .ret)
  | "if" => some (.keyword .branch)
  | "else" => some (.keyword .otherwise)
  | "while" => some (.keyword .loop)
  | "box" => some (.widget .box)
  | "text" => some (.widget .text)
  | "button" => some (.widget .button)
  | "generate" => some (.keyword .generate)
  | "description" => some (.keyword .description)
  | "ai" => some (.keyword .ai)
  | "ai.optimize" => some (.keyword .aiOptimize)
  | "ai.import" => some (.keyword .aiImport)
  | "ai.search" => some (.keyword .aiSearch)
  | "ai.inspect" => some (.keyword .aiInspect)
  | _ => none

def ofWord (word : String) : Kind :=
  (ofWord? word).getD .ident

def widget? : Kind → Option Widget
  | .widget w => some w
  | _ => none

def operator? : Kind → Option Operator
  | .operator op => some op
  | _ => none

def phrase : Kind → String
  | .keyword word => "'" ++ word.spelling ++ "'"
  | .widget w => "'" ++ w.name ++ "'"
  | .operator op => "'" ++ op.symbol ++ "'"
  | .ident => "identifier"
  | .number => "number"
  | .string => "string"
  | .assign => "'='"
  | .leftParen => "'('"
  | .rightParen => "')'"
  | .comma => "','"
  | .colon => "':'"
  | .newline => "newline"
  | .indent => "indent"
  | .dedent => "dedent"
  | .endOfInput => "end of input"

def name : Kind → String
  | .keyword word => word.name
  | .widget .box => "Box"
  | .widget .text => "Text"
  | .widget .button => "Button"
  | .operator op => op.name
  | .ident => "Ident"
  | .number => "Number"
  | .string => "String"
  | .assign => "Assign"
  | .leftParen => "LeftParen"
  | .rightParen => "RightParen"
  | .comma => "Comma"
  | .colon => "Colon"
  | .newline => "Newline"
  | .indent => "Indent"
  | .dedent => "Dedent"
  | .endOfInput => "Eof"

def endsStatement : Kind → Bool
  | .newline | .dedent | .endOfInput => true
  | _ => false

end Kind

theorem Kind.ofWord?_spelling (word : Keyword) :
    Kind.ofWord? word.spelling = some (.keyword word) := by
  cases word <;> rfl

theorem Kind.ofWord?_widget (w : Widget) : Kind.ofWord? w.name = some (.widget w) := by
  cases w <;> rfl

end Splice
