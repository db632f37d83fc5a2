import Splice.Decimal.Text
import Splice.Text.Blank
import Splice.Text.Spaces
import Splice.Token.Line
import Splice.Tree.Basic

/-!
# The canonical form of a program

Operands are put in parentheses exactly where the grammar would otherwise group them differently.
A widget with children ends in an indented block, so whatever follows it in the same statement
goes to a fresh line at the statement's own indentation.
-/

namespace Splice

def quote (text : String) : String :=
  if text.toList.contains '"' then "'" ++ text ++ "'" else "\"" ++ text ++ "\""

def isPlainName (word : String) : Bool :=
  match word.toList with
  | [] => false
  | c :: cs => Line.isWordStart c && cs.all Line.isWordPart && (Kind.ofWord? word).isNone

/-- Text being written, and the depth of a line break that is owed before more text. -/
structure Pen where
  out : String := ""
  owed : Option Nat := none
  deriving DecidableEq, Repr

namespace Pen

def indentation (depth : Nat) : String :=
  Text.spaces (4 * depth)

def freshLine (p : Pen) (depth : Nat) : Pen :=
  { out := p.out ++ "\n" ++ indentation depth }

/-- Text of the current statement.  After an owed break leading blanks would read as a deeper
indentation, so they are dropped. -/
def write (p : Pen) (text : String) : Pen :=
  match p.owed with
  | none => { p with out := p.out ++ text }
  | some depth => { out := (p.freshLine depth).out ++ Text.trimStart text }

def group (p : Pen) (parens : Bool) (part : Pen → Pen) : Pen :=
  if parens then (part (p.write "(")).write ")" else part p

def settle (p : Pen) : Pen :=
  { p with owed := none }

end Pen

namespace Expr

/-- Binding strength as an operand; expressions without an operator bind tightest. -/
def strength : Expr → Nat
  | .binary op _ _ => op.precedence
  | _ => 4

/-- Whether a colon after the expression would be taken for the start of a children block. -/
def endsBare : Expr → Bool
  | .ui _ _ children => children.isEmpty
  | .binary _ _ right => right.endsBare
  | _ => false

mutual

def write (depth : Nat) : Expr → Pen → Pen
  | .binary op left right, p =>
    let p := p.group (left.strength < op.precedence) (write depth left)
    let p := p.write (" " ++ op.symbol ++ " ")
    p.group (right.strength ≤ op.precedence) (write depth right)
  | .name n, p => p.write n
  | .number value, p => p.write (Decimal.text value)
  | .text value, p => p.write (quote value)
  | .call callee args, p => (writeArgs depth true args ((p.write callee).write "(")).write ")"
  | .ui widget args children, p =>
    let p := (writeArgs depth true args ((p.write widget.name).write "(")).write ")"
    match children with
    | [] => p
    | child :: more =>
      { writeChildren (depth + 1) (child :: more) (p.write ":") with owed := some depth }

def writeArgs (depth : Nat) (first : Bool) : List Expr → Pen → Pen
  | [], p => p
  | e :: es, p => writeArgs depth false es (write depth e (if first then p else p.write ", "))

def writeChildren (depth : Nat) : List Expr → Pen → Pen
  | [], p => p
  | e :: es, p => writeChildren depth es (write depth e (p.freshLine depth))

end

def writeTest (depth : Nat) (e : Expr) (p : Pen) : Pen :=
  p.group e.endsBare (e.write depth)

def print (e : Expr) (depth : Nat) : String :=
  (e.write depth {}).out

end Expr

namespace Stmt

def signature (name : String) (params : List String) : String :=
  name ++ "(" ++ ", ".intercalate params ++ ")"

def writeInstruction (instruction : Option String) (p : Pen) : Pen :=
  match instruction with
  | none => p
  | some text => (p.write " ").write (quote text)

mutual

def write (depth : Nat) : Stmt → Pen → Pen
  | .function name params body, p =>
    writeBlock depth body (p.write ("fn " ++ signature name params ++ ":"))
  | .binding name none, p => p.write ("var " ++ name)
  | .binding name (some init), p =>
    init.write depth ((p.write ("var " ++ name)).write " = ")
  | .branch test yes none, p =>
    writeBlock depth yes ((test.writeTest depth (p.write "if ")).write ":")
  | .branch test yes (some no), p =>
    let p := writeBlock depth yes ((test.writeTest depth (p.write "if ")).write ":")
    writeBlock depth no ((p.freshLine depth).write "else:")
  | .loop test body, p =>
    writeBlock depth body ((test.writeTest depth (p.write "while ")).write ":")
  | .ret none, p => p.write "return"
  | .ret (some value), p => value.write depth ((p.write "return").write " ")
  | .expr e, p => e.write depth p
  | .generate name params description, p =>
    p.write ("generate fn " ++ signature name params ++ ": description " ++ quote description)
  | .optimize body, p => writeBlock depth body (p.write "ai.optimize:")
  | .ask instruction none, p => writeInstruction instruction (p.write "ai")
  | .ask instruction (some body), p =>
    writeBlock depth body ((writeInstruction instruction (p.write "ai")).write ":")
  | .load library, p =>
    (p.write "ai.import ").write (if isPlainName library then library else quote library)
  | .search query, p => (p.write "ai.search ").write (quote query)
  | .inspect target, p => target.write depth (p.write "ai.inspect ")

def writeBlock (depth : Nat) : List Stmt → Pen → Pen
  | [], p => p
  | s :: ss, p => writeBlock depth ss (write (depth + 1) s (p.freshLine (depth + 1))).settle

end

def print (s : Stmt) (depth : Nat) : String :=
  (s.write depth { out := Pen.indentation depth }).out

def printAll (stmts : List Stmt) : String :=
  "\n".intercalate (stmts.map (print · 0))

end Stmt

def Program.print (program : Program) : String :=
  let text := Stmt.printAll program.body
  if text.isEmpty then text else text ++ "\n"

end Splice
