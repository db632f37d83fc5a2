import Splice.Decimal.Reader
import Splice.Tree.Basic
import Splice.Tree.Cursor

/-!
# From tokens to a program

Recursive descent.  Comparisons bind weakest, then sums, then products, and all of them associate
to the left.  Blocks, children blocks, groups and argument lists may nest a hundred deep.

The recursion is bounded by a fuel argument.  Between two tokens read it goes down at most ten
levels, so `boundFor` is always enough.
-/

namespace Splice

/-- A parser reads tokens from a cursor; the first fault ends it. -/
abbrev Parser := StateT Cursor (Except ParseFault)

namespace Parser

theorem bind_of_ok {α β : Type} {p : Parser α} {f : α → Parser β} {a : α} {c c' : Cursor}
    (h : p c = .ok (a, c')) : (p >>= f) c = f a c' := by
  simp only [bind, StateT.bind, h]
  rfl

theorem bind_of_error {α β : Type} {p : Parser α} {f : α → Parser β} {fault : ParseFault}
    {c : Cursor} (h : p c = .error fault) : (p >>= f) c = .error fault := by
  simp only [bind, StateT.bind, h]
  rfl

def maxNesting : Nat := 100

def fail {α : Type} (cause : ParseFault.Cause) : Parser α :=
  fun c => .error (c.fault cause)

def kind : Parser Kind :=
  fun c => .ok (c.kind, c)

def advance : Parser Token :=
  fun c => .ok (c.here, c.advance)

def accept (kind : Kind) : Parser Bool :=
  fun c => .ok (if c.kind = kind then (true, c.advance) else (false, c))

def expect (kind : Kind) (what : ParseFault.Expected) : Parser Token :=
  fun c => if c.kind = kind then .ok (c.here, c.advance) else .error (c.fault (.expected what))

def skipNewlines : Parser Unit :=
  fun c => .ok ((), c.skipNewlines)

def enter : Parser Unit :=
  fun c =>
    if maxNesting ≤ c.nesting then .error (c.fault (.nestingTooDeep maxNesting))
    else .ok ((), { c with nesting := c.nesting + 1 })

def leave : Parser Unit :=
  fun c => .ok ((), { c with nesting := c.nesting - 1 })

/-- A statement ends at a line break, at the end of a block or of the input, or with a block of
its own. -/
def endStatement : Parser Unit :=
  fun c =>
    if c.before.head?.map (·.kind) = some .dedent ∨ c.kind.endsStatement then .ok ((), c)
    else .error (c.fault (.unfinishedStatement c.kind))

def openBlock : Parser Unit := do
  let _ ← expect .newline .blockNewline
  skipNewlines
  let _ ← expect .indent .blockIndent

def paramNames : Nat → Parser (List String)
  | 0 => fail .boundReached
  | fuel + 1 => do
    let name ← expect .ident .paramName
    if ← accept .comma then
      return name.text :: (← paramNames fuel)
    else
      return [name.text]

def params (fuel : Nat) : Parser (List String) := do
  let _ ← expect .leftParen .paramsOpen
  let names ← if (← kind) = .rightParen then pure [] else paramNames fuel
  let _ ← expect .rightParen .paramsClose
  return names

def optionalText : Parser (Option String) := do
  if (← kind) = .string then
    return some (← advance).text
  else
    return none

/-- Move past line breaks and an `else` behind them; without an `else` stay where we are. -/
def acceptOtherwise : Parser Bool :=
  fun c =>
    let ahead := c.skipNewlines
    .ok (if ahead.kind = .keyword .otherwise then (true, ahead.advance) else (false, c))

def opensGenerated : Parser Bool :=
  fun c => .ok
    (c.kind = .keyword .function ∨ (c.kind = .ident ∧ c.here.text = "function"), c)

/-- The rest of a function to be generated: its signature and its description. -/
def generated (fuel : Nat) : Parser Stmt := do
  if ← opensGenerated then
    let _ ← advance
    let name ← expect .ident .functionName
    let names ← params fuel
    let _ ← expect .colon .signatureColon
    let _ ← expect (.keyword .description) .descriptionWord
    let description ← expect .string .descriptionText
    return .generate name.text names description.text
  else
    fail (.expected .generatedFunction)

def number (text : String) : Parser Expr :=
  match Decimal.read? text with
  | some value => return .number value
  | none => fail (.invalidNumber text)

mutual

/-- An expression of operators that bind at least as strongly as `level`; above the third level
stand the expressions without operators. -/
def operation (level : Nat) : Nat → Parser Expr
  | 0 => fail .boundReached
  | fuel + 1 => do
    if 3 < level then
      primary fuel
    else
      let left ← operation (level + 1) fuel
      operands level left fuel

def operands (level : Nat) (left : Expr) : Nat → Parser Expr
  | 0 => fail .boundReached
  | fuel + 1 => do
    match (← kind).operator? with
    | none => return left
    | some op =>
      if op.precedence = level then
        let _ ← advance
        let right ← operation (level + 1) fuel
        operands level (.binary op left right) fuel
      else
        return left

def primary : Nat → Parser Expr
  | 0 => fail .boundReached
  | fuel + 1 => do
    match ← kind with
    | .number => number (← advance).text
    | .string => return .text (← advance).text
    | .ident =>
      let name ← advance
      if (← kind) = .leftParen then
        return .call name.text (← arguments fuel)
      else
        return .name name.text
    | .widget widget =>
      let _ ← advance
      let args ← if (← kind) = .leftParen then arguments fuel else pure []
      if ← accept .colon then
        return .ui widget args (← children fuel)
      else
        return .ui widget args []
    | .leftParen =>
      enter
      let _ ← advance
      let expr ← operation 1 fuel
      let _ ← expect .rightParen .groupClose
      leave
      return expr
    | found => fail (.unexpectedToken found)

def arguments : Nat → Parser (List Expr)
  | 0 => fail .boundReached
  | fuel + 1 => do
    enter
    let _ ← expect .leftParen .argsOpen
    let args ← if (← kind) = .rightParen then pure [] else argumentList fuel
    let _ ← expect .rightParen .argsClose
    leave
    return args

def argumentList : Nat → Parser (List Expr)
  | 0 => fail .boundReached
  | fuel + 1 => do
    let arg ← operation 1 fuel
    if ← accept .comma then
      return arg :: (← argumentList fuel)
    else
      return [arg]

def children : Nat → Parser (List Expr)
  | 0 => fail .boundReached
  | fuel + 1 => do
    enter
    openBlock
    let exprs ← childList fuel
    let _ ← expect .dedent .childrenDedent
    leave
    return exprs

def childList : Nat → Parser (List Expr)
  | 0 => fail .boundReached
  | fuel + 1 => do
    skipNewlines
    match ← kind with
    | .dedent | .endOfInput => return []
    | _ =>
      let child ← operation 1 fuel
      endStatement
      return child :: (← childList fuel)

end

def expression (fuel : Nat) : Parser Expr :=
  operation 1 fuel

mutual

def statement : Nat → Parser Stmt
  | 0 => fail .boundReached
  | fuel + 1 => do
    let stmt ← statementForm fuel
    endStatement
    return stmt

/-- A statement by its first word; any other is an expression. -/
def statementForm : Nat → Parser Stmt
  | 0 => fail .boundReached
  | fuel + 1 => do
    match ← kind with
    | .keyword .function =>
      let _ ← advance
      let name ← expect .ident .functionName
      let names ← params fuel
      let _ ← expect .colon .bodyColon
      return .function name.text names (← block fuel)
    | .keyword .binding =>
      let _ ← advance
      let name ← expect .ident .variableName
      if ← accept .assign then
        return .binding name.text (some (← expression fuel))
      else
        return .binding name.text none
    | .keyword .ret =>
      let _ ← advance
      if (← kind).endsStatement then
        return .ret none
      else
        return .ret (some (← expression fuel))
    | .keyword .branch =>
      let _ ← advance
      let test ← expression fuel
      let _ ← expect .colon .branchColon
      let yes ← block fuel
      if ← acceptOtherwise then
        let _ ← expect .colon .otherwiseColon
        return .branch test yes (some (← block fuel))
      else
        return .branch test yes none
    | .keyword .loop =>
      let _ ← advance
      let test ← expression fuel
      let _ ← expect .colon .loopColon
      return .loop test (← block fuel)
    | .keyword .generate =>
      let _ ← advance
      generated fuel
    | .keyword .aiOptimize =>
      let _ ← advance
      let _ ← expect .colon .optimizeColon
      return .optimize (← block fuel)
    | .keyword .ai =>
      let _ ← advance
      let instruction ← optionalText
      if ← accept .colon then
        return .ask instruction (some (← block fuel))
      else
        return .ask instruction none
    | .keyword .aiImport =>
      let _ ← advance
      match ← kind with
      | .ident | .string => return .load (← advance).text
      | _ => fail (.expected .libraryName)
    | .keyword .aiSearch =>
      let _ ← advance
      return .search (← expect .string .searchQuery).text
    | .keyword .aiInspect =>
      let _ ← advance
      return .inspect (← expression fuel)
    | _ => return .expr (← expression fuel)

def block : Nat → Parser (List Stmt)
  | 0 => fail .boundReached
  | fuel + 1 => do
    enter
    openBlock
    let stmts ← statements true fuel
    let _ ← expect .dedent .blockDedent
    leave
    return stmts

/-- Statements up to the end of input or, inside a block, up to a dedent. -/
def statements (nested : Bool) : Nat → Parser (List Stmt)
  | 0 => fail .boundReached
  | fuel + 1 => do
    skipNewlines
    let next ← kind
    if next = .endOfInput ∨ (nested ∧ next = .dedent) then
      return []
    else
      let stmt ← statement fuel
      return stmt :: (← statements nested fuel)

end

def boundFor (c : Cursor) : Nat :=
  10 * (c.after.length + 2)

end Parser

def Program.ofTokens (tokens : List Token) : Except ParseFault Program :=
  let c := Cursor.ofTokens tokens
  (Parser.statements false (Parser.boundFor c) c).map fun parsed => ⟨parsed.1⟩

def Expr.ofTokens (tokens : List Token) : Except ParseFault Expr :=
  let c := Cursor.ofTokens tokens
  (Parser.expression (Parser.boundFor c) c).map (·.1)

end Splice
