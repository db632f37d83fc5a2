import Splice.Token.Basic
import Splice.Tree.Printer

/-! How a tree is spelled in words, a word being a token without its place.  The text of a tree may
end inside indented blocks, which only the next line or the end of the text closes; so a spelling
is a sequence of words together with the number of blocks it leaves open. -/
namespace Splice

abbrev Word := Kind × String

def Token.word (token : Token) : Word :=
  (token.kind, token.text)

namespace Kind

def text : Kind → String
  | .keyword word => word.spelling
  | .widget w => w.name
  | .operator op => op.symbol
  | .assign => "="
  | .leftParen => "("
  | .rightParen => ")"
  | .comma => ","
  | .colon => ":"
  | .newline => "\n"
  | _ => ""

def word (kind : Kind) : Word :=
  (kind, kind.text)

end Kind

structure Spelling where
  line : List Word
  /-- The number of blocks that are still open after the last word. -/
  opens : Nat := 0

namespace Spelling

def dedents (count : Nat) : List Word :=
  List.replicate count Kind.dedent.word

/-- The break that ends a line, unless the text ends with the line. -/
def lineBreak (broken : Bool) : List Word :=
  if broken then [Kind.newline.word] else []

/-- What closes open blocks; nothing if there are none. -/
def closing (broken : Bool) (count : Nat) : List Word :=
  if count = 0 then [] else lineBreak broken ++ dedents count

def settled (s : Spelling) : List Word :=
  s.line ++ closing true s.opens

/-- The words once a line at the same depth follows, or the text ends. -/
def ended (broken : Bool) (s : Spelling) : List Word :=
  s.line ++ lineBreak broken ++ dedents s.opens

def after (words : List Word) (s : Spelling) : Spelling :=
  ⟨words ++ s.line, s.opens⟩

def group (parens : Bool) (s : Spelling) : Spelling :=
  if parens then ⟨Kind.leftParen.word :: s.settled ++ [Kind.rightParen.word], 0⟩ else s

def listTail : List Spelling → List Word
  | [] => []
  | s :: more => Kind.comma.word :: s.settled ++ listTail more

def list : List Spelling → List Word
  | [] => []
  | s :: more => s.settled ++ listTail more

/-- Further lines at the same depth, after a line that left blocks open. -/
def linesTail (opens : Nat) : List Spelling → Spelling
  | [] => ⟨[], opens⟩
  | s :: more => (linesTail s.opens more).after (Kind.newline.word :: dedents opens ++ s.line)

def lines : List Spelling → Spelling
  | [] => ⟨[], 0⟩
  | s :: more => (linesTail s.opens more).after s.line

def block : List Spelling → Spelling
  | [] => ⟨[], 0⟩
  | s :: more =>
    ⟨Kind.newline.word :: Kind.indent.word :: (lines (s :: more)).line,
      (lines (s :: more)).opens + 1⟩

def heading (name : String) (params : List String) : List Word :=
  (.ident, name) :: Kind.leftParen.word ::
    list (params.map fun param => ⟨[(.ident, param)], 0⟩) ++ [Kind.rightParen.word]

def instruction : Option String → List Word
  | none => []
  | some text => [(.string, text)]

end Spelling

open Spelling

namespace Expr

mutual

def spelling : Expr → Spelling
  | .binary op left right =>
    (group (right.strength ≤ op.precedence) right.spelling).after
      ((group (left.strength < op.precedence) left.spelling).settled ++ [(Kind.operator op).word])
  | .name n => ⟨[(.ident, n)], 0⟩
  | .number value => ⟨[(.number, Decimal.text value)], 0⟩
  | .text value => ⟨[(.string, value)], 0⟩
  | .call callee args =>
    ⟨(.ident, callee) :: Kind.leftParen.word :: list (spellings args) ++ [Kind.rightParen.word], 0⟩
  | .ui widget args children =>
    let call := (Kind.widget widget).word :: Kind.leftParen.word :: list (spellings args) ++
      [Kind.rightParen.word]
    match children with
    | [] => ⟨call, 0⟩
    | child :: more => (block (spellings (child :: more))).after (call ++ [Kind.colon.word])

def spellings : List Expr → List Spelling
  | [] => []
  | e :: es => e.spelling :: spellings es

end

def testSpelling (e : Expr) : Spelling :=
  group e.endsBare e.spelling

end Expr

namespace Stmt

mutual

def spelling : Stmt → Spelling
  | .function name params body =>
    (block (spellings body)).after
      ((Kind.keyword .function).word :: heading name params ++ [Kind.colon.word])
  | .binding name none => ⟨[(Kind.keyword .binding).word, (.ident, name)], 0⟩
  | .binding name (some init) =>
    init.spelling.after [(Kind.keyword .binding).word, (.ident, name), Kind.assign.word]
  | .branch test yes none =>
    (block (spellings yes)).after
      ((Kind.keyword .branch).word :: test.testSpelling.settled ++ [Kind.colon.word])
  | .branch test yes (some no) =>
    (block (spellings no)).after
      ((Kind.keyword .branch).word :: test.testSpelling.settled ++
        Kind.colon.word :: (block (spellings yes)).ended true ++
          [(Kind.keyword .otherwise).word, Kind.colon.word])
  | .loop test body =>
    (block (spellings body)).after
      ((Kind.keyword .loop).word :: test.testSpelling.settled ++ [Kind.colon.word])
  | .ret none => ⟨[(Kind.keyword .ret).word], 0⟩
  | .ret (some value) => value.spelling.after [(Kind.keyword .ret).word]
  | .expr e => e.spelling
  | .generate name params description =>
    ⟨(Kind.keyword .generate).word :: (Kind.keyword .function).word :: heading name params ++
      [Kind.colon.word, (Kind.keyword .description).word, (.string, description)], 0⟩
  | .optimize body =>
    (block (spellings body)).after [(Kind.keyword .aiOptimize).word, Kind.colon.word]
  | .ask text none => ⟨(Kind.keyword .ai).word :: Spelling.instruction text, 0⟩
  | .ask text (some body) =>
    (block (spellings body)).after
      ((Kind.keyword .ai).word :: Spelling.instruction text ++ [Kind.colon.word])
  | .load library =>
    ⟨[(Kind.keyword .aiImport).word,
      (if isPlainName library then Kind.ident else Kind.string, library)], 0⟩
  | .search query => ⟨[(Kind.keyword .aiSearch).word, (.string, query)], 0⟩
  | .inspect target => target.spelling.after [(Kind.keyword .aiInspect).word]

def spellings : List Stmt → List Spelling
  | [] => []
  | s :: ss => s.spelling :: spellings ss

end

/-- All words of a text of statements; `broken` says whether the text ends with a line break. -/
def words (broken : Bool) (stmts : List Stmt) : List Word :=
  match stmts with
  | [] => [Kind.endOfInput.word]
  | s :: ss => (lines (spellings (s :: ss))).ended broken ++ [Kind.endOfInput.word]

end Stmt

/-! Names are words that are not reserved, blocks hold a statement at least, and texts stay on one
line and leave one sort of quote unused.  Unless another class of numbers is given, numbers are
whole with a clear sign bit. -/

def isPlainText (text : String) : Bool :=
  !text.toList.contains '\n' && !(text.toList.contains '"' && text.toList.contains '\'')

def Decimal.isNatural (x : Float) : Bool :=
  x.isFinite && (integer? x).isSome && x.toBits < 0x8000000000000000

mutual

def Expr.wellFormed (e : Expr) (number : Float → Bool := Decimal.isNatural) : Bool :=
  match e with
  | .binary _ left right => left.wellFormed number && right.wellFormed number
  | .name n => isPlainName n
  | .number value => number value
  | .text value => isPlainText value
  | .call callee args => isPlainName callee && Expr.allWellFormed args number
  | .ui _ args children => Expr.allWellFormed args number && Expr.allWellFormed children number

def Expr.allWellFormed (es : List Expr) (number : Float → Bool := Decimal.isNatural) : Bool :=
  match es with
  | [] => true
  | e :: es => e.wellFormed number && Expr.allWellFormed es number

end

mutual

def Stmt.wellFormed (s : Stmt) (number : Float → Bool := Decimal.isNatural) : Bool :=
  match s with
  | .function name params body =>
    isPlainName name && params.all isPlainName && !body.isEmpty && Stmt.allWellFormed body number
  | .binding name none => isPlainName name
  | .binding name (some init) => isPlainName name && init.wellFormed number
  | .branch test yes none =>
    test.wellFormed number && !yes.isEmpty && Stmt.allWellFormed yes number
  | .branch test yes (some no) =>
    test.wellFormed number && !yes.isEmpty && Stmt.allWellFormed yes number && !no.isEmpty &&
      Stmt.allWellFormed no number
  | .loop test body => test.wellFormed number && !body.isEmpty && Stmt.allWellFormed body number
  | .ret none => true
  | .ret (some value) => value.wellFormed number
  | .expr e => e.wellFormed number
  | .generate name params description =>
    isPlainName name && params.all isPlainName && isPlainText description
  | .optimize body => !body.isEmpty && Stmt.allWellFormed body number
  | .ask instruction none => instruction.all isPlainText
  | .ask instruction (some body) =>
    instruction.all isPlainText && !body.isEmpty && Stmt.allWellFormed body number
  | .load library => isPlainText library
  | .search query => isPlainText query
  | .inspect target => target.wellFormed number

def Stmt.allWellFormed (ss : List Stmt) (number : Float → Bool := Decimal.isNatural) : Bool :=
  match ss with
  | [] => true
  | s :: ss => s.wellFormed number && Stmt.allWellFormed ss number

end

/-! The greatest number of blocks, children blocks, argument lists and parentheses that are open at
once.  Argument lists count even when they are empty; parameter lists do not count. -/

def Spelling.grouped (parens : Bool) (nesting : Nat) : Nat :=
  if parens then nesting + 1 else nesting

mutual

def Expr.nesting : Expr → Nat
  | .binary op left right =>
    max (grouped (left.strength < op.precedence) left.nesting)
      (grouped (right.strength ≤ op.precedence) right.nesting)
  | .call _ args => Expr.maxNesting args + 1
  | .ui _ args [] => Expr.maxNesting args + 1
  | .ui _ args (child :: more) =>
    max (Expr.maxNesting args + 1) (Expr.maxNesting (child :: more) + 1)
  | _ => 0

def Expr.maxNesting : List Expr → Nat
  | [] => 0
  | e :: es => max e.nesting (Expr.maxNesting es)

end

def Expr.testNesting (e : Expr) : Nat :=
  grouped e.endsBare e.nesting

mutual

def Stmt.nesting : Stmt → Nat
  | .function _ _ body => Stmt.maxNesting body + 1
  | .binding _ none => 0
  | .binding _ (some init) => init.nesting
  | .branch test yes none => max test.testNesting (Stmt.maxNesting yes + 1)
  | .branch test yes (some no) =>
    max test.testNesting (max (Stmt.maxNesting yes + 1) (Stmt.maxNesting no + 1))
  | .loop test body => max test.testNesting (Stmt.maxNesting body + 1)
  | .ret none => 0
  | .ret (some value) => value.nesting
  | .expr e => e.nesting
  | .generate _ _ _ => 0
  | .optimize body => Stmt.maxNesting body + 1
  | .ask _ none => 0
  | .ask _ (some body) => Stmt.maxNesting body + 1
  | .load _ => 0
  | .search _ => 0
  | .inspect target => target.nesting

def Stmt.maxNesting : List Stmt → Nat
  | [] => 0
  | s :: ss => max s.nesting (Stmt.maxNesting ss)

end

/-- Whether a program has a written form that the grammar can give back. -/
def Program.wellFormed (program : Program) : Bool :=
  Stmt.allWellFormed program.body

def Program.nesting (program : Program) : Nat :=
  Stmt.maxNesting program.body

end Splice
