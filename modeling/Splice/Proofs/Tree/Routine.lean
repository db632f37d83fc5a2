import Splice.Proofs.Tree.Script

/-! The grammar as routines.  A routine is a script that may also call the parsers, and each parser
does what its routine says with one level of fuel less for the parsers that it calls.  So a parser
with any fuel runs along a script, and what the few routines have in common every parse has. -/
namespace Splice.Parser

variable {α β : Type}

inductive Rule : Type → Type where
  | paramNames : Rule (List String)
  | operation (level : Nat) : Rule Expr
  | operands (level : Nat) (left : Expr) : Rule Expr
  | primary : Rule Expr
  | arguments : Rule (List Expr)
  | argumentList : Rule (List Expr)
  | children : Rule (List Expr)
  | childList : Rule (List Expr)
  | statement : Rule Stmt
  | statementForm : Rule Stmt
  | block : Rule (List Stmt)
  | statements (nested : Bool) : Rule (List Stmt)

def Rule.parse (fuel : Nat) : Rule α → Parser α
  | .paramNames => Parser.paramNames fuel
  | .operation level => Parser.operation level fuel
  | .operands level left => Parser.operands level left fuel
  | .primary => Parser.primary fuel
  | .arguments => Parser.arguments fuel
  | .argumentList => Parser.argumentList fuel
  | .children => Parser.children fuel
  | .childList => Parser.childList fuel
  | .statement => Parser.statement fuel
  | .statementForm => Parser.statementForm fuel
  | .block => Parser.block fuel
  | .statements nested => Parser.statements nested fuel

inductive Routine (α : Type) : Type 1 where
  | done (a : α)
  | fail (cause : ParseFault.Cause)
  | step {β : Type} (first : Step β) (next : β → Routine α)
  | call {β : Type} (rule : Rule β) (next : β → Routine α)

namespace Routine

def bind : Routine α → (α → Routine β) → Routine β
  | done a, f => f a
  | fail cause, _ => .fail cause
  | step first next, f => .step first fun b => (next b).bind f
  | call rule next, f => .call rule fun b => (next b).bind f

instance : Monad Routine where
  pure := done
  bind := bind

instance : MonadLift Step Routine where
  monadLift first := step first done

instance : MonadLift Rule Routine where
  monadLift rule := call rule done

def openBlock : Routine Unit := do
  Step.breakLine
  Step.skipNewlines
  let _ ← Step.expect .indent .blockIndent

def params : Routine (List String) := do
  let _ ← Step.expect .leftParen .paramsOpen
  let names ← if ← Step.isNext .rightParen then pure [] else Rule.paramNames
  let _ ← Step.expect .rightParen .paramsClose
  return names

def optionalText : Routine (Option String) := do
  if ← Step.isNext .string then
    return some (← Step.advance)
  else
    return none

def generated : Routine Stmt := do
  if ← Step.opensGenerated then
    let _ ← Step.advance
    let name ← Step.expect .ident .functionName
    let names ← params
    let _ ← Step.expect .colon .signatureColon
    let _ ← Step.expect (.keyword .description) .descriptionWord
    let description ← Step.expect .string .descriptionText
    return .generate name names description
  else
    fail (.expected .generatedFunction)

def number (text : String) : Routine Expr :=
  match Decimal.read? text with
  | some value => return .number value
  | none => fail (.invalidNumber text)

end Routine

def Rule.routine : Rule α → Routine α
  | .paramNames => do
    let name ← Step.expect .ident .paramName
    if ← Step.accept .comma then
      return name :: (← Rule.paramNames)
    else
      return [name]
  | .operation level => do
    if 3 < level then
      Rule.primary
    else
      let left ← Rule.operation (level + 1)
      Rule.operands level left
  | .operands level left => do
    match ← Step.operator? with
    | none => return left
    | some op =>
      if op.precedence = level then
        let _ ← Step.advance
        let right ← Rule.operation (level + 1)
        Rule.operands level (.binary op left right)
      else
        return left
  | .primary => do
    match ← Step.kind with
    | .number => Routine.number (← Step.advance)
    | .string => return .text (← Step.advance)
    | .ident =>
      let name ← Step.advance
      if ← Step.isNext .leftParen then
        return .call name (← Rule.arguments)
      else
        return .name name
    | .widget widget =>
      let _ ← Step.advance
      let args ← if ← Step.isNext .leftParen then Rule.arguments else pure []
      if ← Step.accept .colon then
        return .ui widget args (← Rule.children)
      else
        return .ui widget args []
    | .leftParen =>
      Step.enter
      let _ ← Step.advance
      let expr ← Rule.operation 1
      let _ ← Step.expect .rightParen .groupClose
      Step.leave
      return expr
    | found => Routine.fail (.unexpectedToken found)
  | .arguments => do
    Step.enter
    let _ ← Step.expect .leftParen .argsOpen
    let args ← if ← Step.isNext .rightParen then pure [] else Rule.argumentList
    let _ ← Step.expect .rightParen .argsClose
    Step.leave
    return args
  | .argumentList => do
    let arg ← Rule.operation 1
    if ← Step.accept .comma then
      return arg :: (← Rule.argumentList)
    else
      return [arg]
  | .children => do
    Step.enter
    Routine.openBlock
    let exprs ← Rule.childList
    let _ ← Step.expect .dedent .childrenDedent
    Step.leave
    return exprs
  | .childList => do
    Step.skipNewlines
    let next ← Step.kind
    if next = .dedent ∨ next = .endOfInput then
      return []
    else
      let child ← Rule.operation 1
      Step.endStatement
      return child :: (← Rule.childList)
  | .statement => do
    let stmt ← Rule.statementForm
    Step.endStatement
    return stmt
  | .statementForm => do
    match ← Step.kind with
    | .keyword .function =>
      let _ ← Step.advance
      let name ← Step.expect .ident .functionName
      let names ← Routine.params
      let _ ← Step.expect .colon .bodyColon
      return .function name names (← Rule.block)
    | .keyword .binding =>
      let _ ← Step.advance
      let name ← Step.expect .ident .variableName
      if ← Step.accept .assign then
        return .binding name (some (← Rule.operation 1))
      else
        return .binding name none
    | .keyword .ret =>
      let _ ← Step.advance
      if ← Step.ends then
        return .ret none
      else
        return .ret (some (← Rule.operation 1))
    | .keyword .branch =>
      let _ ← Step.advance
      let test ← Rule.operation 1
      let _ ← Step.expect .colon .branchColon
      let yes ← Rule.block
      if ← Step.acceptOtherwise then
        let _ ← Step.expect .colon .otherwiseColon
        return .branch test yes (some (← Rule.block))
      else
        return .branch test yes none
    | .keyword .loop =>
      let _ ← Step.advance
      let test ← Rule.operation 1
      let _ ← Step.expect .colon .loopColon
      return .loop test (← Rule.block)
    | .keyword .generate =>
      let _ ← Step.advance
      Routine.generated
    | .keyword .aiOptimize =>
      let _ ← Step.advance
      let _ ← Step.expect .colon .optimizeColon
      return .optimize (← Rule.block)
    | .keyword .ai =>
      let _ ← Step.advance
      let instruction ← Routine.optionalText
      if ← Step.accept .colon then
        return .ask instruction (some (← Rule.block))
      else
        return .ask instruction none
    | .keyword .aiImport =>
      let _ ← Step.advance
      let next ← Step.kind
      if next = .ident ∨ next = .string then
        return .load (← Step.advance)
      else
        Routine.fail (.expected .libraryName)
    | .keyword .aiSearch =>
      let _ ← Step.advance
      return .search (← Step.expect .string .searchQuery)
    | .keyword .aiInspect =>
      let _ ← Step.advance
      return .inspect (← Rule.operation 1)
    | _ => return .expr (← Rule.operation 1)
  | .block => do
    Step.enter
    Routine.openBlock
    let stmts ← Rule.statements true
    let _ ← Step.expect .dedent .blockDedent
    Step.leave
    return stmts
  | .statements nested => do
    Step.skipNewlines
    let next ← Step.kind
    if next = .endOfInput ∨ (nested ∧ next = .dedent) then
      return []
    else
      let stmt ← Rule.statement
      return stmt :: (← Rule.statements nested)

namespace Routine

def run (parse : ∀ {β : Type}, Rule β → Parser β) : Routine α → Parser α
  | done a => pure a
  | fail cause => Parser.fail cause
  | step first next => first.run >>= fun b => (next b).run parse
  | call rule next => parse rule >>= fun b => (next b).run parse

variable {parse : ∀ {β : Type}, Rule β → Parser β}

@[simp] theorem run_bind (r : Routine α) (f : α → Routine β) :
    (r >>= f).run parse = r.run parse >>= fun a => (f a).run parse := by
  change (r.bind f).run @parse = _
  induction r with
  | done a => rfl
  | fail cause => rfl
  | step first next ih => simp only [bind, run, ih, bind_assoc]
  | call rule next ih => simp only [bind, run, ih, bind_assoc]

@[simp] theorem run_pure (a : α) : (pure a : Routine α).run parse = pure a := rfl

@[simp] theorem run_fail (cause : ParseFault.Cause) :
    (fail cause : Routine α).run parse = Parser.fail cause := rfl

@[simp] theorem run_step (first : Step α) : (liftM first : Routine α).run parse = first.run :=
  bind_pure _

@[simp] theorem run_call (rule : Rule α) : (liftM rule : Routine α).run parse = parse rule :=
  bind_pure _

@[simp] theorem run_ite {p : Prop} [Decidable p] (r s : Routine α) :
    (if p then r else s).run parse = if p then r.run parse else s.run parse := by
  split <;> rfl

theorem run_openBlock : openBlock.run parse = Parser.openBlock := by
  simp [openBlock, Parser.openBlock, Step.run]

theorem run_params {fuel : Nat} : params.run (Rule.parse fuel) = Parser.params fuel := by
  simp [params, Parser.params, Step.run, Rule.parse]

theorem run_optionalText : optionalText.run parse = Parser.optionalText := by
  simp [optionalText, Parser.optionalText, Step.run]

theorem run_generated {fuel : Nat} : generated.run (Rule.parse fuel) = Parser.generated fuel := by
  simp [generated, Parser.generated, Step.run, run_params]

theorem run_number (text : String) : (number text).run parse = Parser.number text := by
  unfold number Parser.number
  cases Decimal.read? text <;> rfl

end Routine

open Routine in
theorem Rule.parse_succ (rule : Rule α) (fuel : Nat) :
    rule.parse (fuel + 1) = rule.routine.run (Rule.parse fuel) := by
  cases rule with
  | paramNames => simp [parse, routine, Step.run, Parser.paramNames]
  | operation => simp [parse, routine, Parser.operation]
  | operands level left =>
    simp only [parse, routine, Parser.operands, run_bind, run_step, Step.run, bind_assoc, pure_bind]
    refine bind_congr fun next => ?_
    cases next.operator? <;> simp [parse, Step.run]
  | primary =>
    simp only [parse, routine, Parser.primary, run_bind, run_step, Step.run]
    refine bind_congr fun next => ?_
    cases next <;> simp [parse, Step.run, run_number]
  | arguments => simp [parse, routine, Step.run, Parser.arguments]
  | argumentList => simp [parse, routine, Step.run, Parser.argumentList]
  | children => simp [parse, routine, Step.run, Parser.children, run_openBlock]
  | childList =>
    simp only [parse, routine, Parser.childList, run_bind, run_step, Step.run]
    refine bind_congr fun _ => bind_congr fun next => ?_
    cases next <;> simp [parse, Step.run]
  | statement => simp [parse, routine, Step.run, Parser.statement]
  | statementForm =>
    simp only [parse, routine, Parser.statementForm, run_bind, run_step, Step.run]
    refine bind_congr fun next => ?_
    cases next with
    | keyword word =>
      cases word with
      | aiImport =>
        simp only [run_bind, run_step, Step.run, bind_assoc, pure_bind]
        refine bind_congr fun _ => bind_congr fun next => ?_
        cases next <;> simp [Step.run]
      | _ =>
        simp [parse, Step.run, expression, run_params, run_generated, run_optionalText]
    | _ => simp [parse, expression]
  | block => simp [parse, routine, Step.run, Parser.block, run_openBlock]
  | statements => simp [parse, routine, Step.run, Parser.statements]

theorem Rule.parse_zero (rule : Rule α) : rule.parse 0 = Parser.fail .boundReached := by
  cases rule <;> rfl

/-- The script of a routine, given those of the parsers that it calls. -/
def Routine.script (scripts : ∀ {β : Type}, Rule β → Script β) : Routine α → Script α
  | done a => .done a
  | fail cause => .fail cause
  | step first next => .step first fun b => (next b).script scripts
  | call rule next => (scripts rule).bind fun b => (next b).script scripts

def Rule.script : Nat → {α : Type} → Rule α → Script α
  | 0, _, _ => .fail .boundReached
  | fuel + 1, _, rule => rule.routine.script (Rule.script fuel)

theorem Routine.run_script {scripts : ∀ {β : Type}, Rule β → Script β}
    {parse : ∀ {β : Type}, Rule β → Parser β}
    (h : ∀ {β : Type} (rule : Rule β), (scripts rule).run = parse rule) (r : Routine α) :
    (r.script scripts).run = r.run parse := by
  induction r with
  | done a => rfl
  | fail cause => rfl
  | step first next ih => simp only [script, Script.run, run, ih]
  | call rule next ih => simp only [script, Script.run_bind, run, ih, h]

theorem Rule.run_script (rule : Rule α) (fuel : Nat) :
    (rule.script fuel).run = rule.parse fuel := by
  induction fuel generalizing α with
  | zero => exact rule.parse_zero.symm
  | succ fuel ih => rw [script, Routine.run_script ih, parse_succ]

end Splice.Parser
