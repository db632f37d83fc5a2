import Splice.Collaborator.Fence
import Splice.Session.Basic
import Splice.Tree.Printer

/-!
# Running programs

A run changes the session whether it ends well or not.  Its recursion is bounded by a fuel
argument; `Stop` tells a run that failed from one that crashed and from one that used up its fuel.

Statements that ask the collaborator for code compile the answer on its own and splice it into the
running program.
-/

namespace Splice

/-- Why a run does not end with a result. -/
inductive Stop where
  | fault (fault : RunFault)
  | crash
  | outOfFuel
  deriving DecidableEq, Repr

inductive Flow where
  | normal
  | ret (value : Value)
  deriving DecidableEq

def Run (α : Type) : Type :=
  Session → Except Stop α × Session

namespace Run

@[always_inline, inline]
protected def pure {α : Type} (a : α) : Run α :=
  fun s => (.ok a, s)

@[always_inline, inline]
protected def bind {α β : Type} (x : Run α) (f : α → Run β) : Run β :=
  fun s =>
    match x s with
    | (.ok a, s) => f a s
    | (.error e, s) => (.error e, s)

instance : Monad Run where
  pure := Run.pure
  bind := Run.bind

theorem pure_apply {α : Type} (a : α) (s : Session) : (pure a : Run α) s = (.ok a, s) :=
  rfl

theorem bind_apply {α β : Type} (x : Run α) (f : α → Run β) (s : Session) :
    (x >>= f) s =
      match x s with
      | (.ok a, t) => f a t
      | (.error e, t) => (.error e, t) :=
  rfl

def fail {α : Type} (fault : RunFault) : Run α :=
  fun s => (.error (.fault fault), s)

def crash {α : Type} : Run α :=
  fun s => (.error .crash, s)

def outOfFuel {α : Type} : Run α :=
  fun s => (.error .outOfFuel, s)

def get : Run Session :=
  fun s => (.ok s, s)

def modify (f : Session → Session) : Run Unit :=
  fun s => (.ok (), f s)

def say (line : String) : Run Unit :=
  modify (·.say line)

def note (text : String) : Run Unit :=
  modify (·.note text)

/-- Run in a frame of its own, which is left again however the run ends. -/
def inFrame {α : Type} (enter : Frames → Frames) (x : Run α) : Run α :=
  fun s =>
    match x { s with frames := enter s.frames } with
    | (result, s) => (result, { s with frames := s.frames.pop })

def request (r : Request) : Run Completion :=
  fun s =>
    match s.backend.answer r with
    | (.ok completion, backend) => (.ok completion, { s with backend := backend })
    | (.error fault, backend) =>
      (.error (.fault (.collaborator fault)), { s with backend := backend })

def sizeText (text : String) : String :=
  toString text.utf8ByteSize ++ " bytes"

/-- Request code; a fence around it is dropped. -/
def requestCode (r : Request) : Run String := do
  let completion ← request r
  let code := unfence completion.text
  note (r.operation ++ ": received " ++ sizeText code ++ " in " ++
    toString completion.chunks.length ++ " chunk(s)")
  return code

def requestAnswer (r : Request) : Run String := do
  let completion ← request r
  note (r.operation ++ ": received " ++ sizeText completion.text)
  return completion.text

def compileAnswer (code : String) : Run Program :=
  match compile code with
  | .ok program => return program
  | .error (.fault fault) => fail (.compile fault)
  | .error .crash => crash

def firstText (args : List Value) : Option String :=
  args.head?.map Value.display

def callBuiltin (builtin : Builtin) (args : List Value) : Run Value := do
  match builtin with
  | .print => say (" ".intercalate (args.map Value.display))
  | .draw .box => modify (·.draw .box)
  | .draw .text =>
    match firstText args with
    | some content => modify (·.draw (.text content))
    | none => pure ()
  | .draw .button => modify (·.draw (.button ((firstText args).getD "Button")))
  | .ask =>
    let question := (firstText args).getD ""
    say ("[AI Asking]: " ++ question)
    let completion ← request (.process question "")
    note ("ai_ask answered with " ++ sizeText completion.text)
    return .text completion.text
  | .remember =>
    let fact := (firstText args).getD ""
    say ("[AI Memory]: Remembered \"" ++ fact ++ "\"")
    modify (·.remember fact)
  return .undefined

/-- Call the builtin that a name is bound to in the current frame. -/
def callBound (name : String) (args : List Value) : Run Value := do
  match (← get).frames.get? name with
  | some (.builtin builtin) => callBuiltin builtin args
  | _ => fail (.functionNotFound name)

def apply (op : Operator) (left right : Value) : Run Value :=
  match Value.binary op left right with
  | .ok value => return value
  | .error fault => fail (.operand fault)

def lookup (name : String) : Run Value := do
  match (← get).frames.get? name with
  | some value => return value
  | none => fail (.undefinedVariable name)

def generate (name : String) (params : List String) (description : String) : Run Unit := do
  say ("[AI] Generating function '" ++ name ++ "'...")
  let code ← requestCode (.generateFunction name params description)
  say ("[AI] Generated:\n" ++ code)
  let program ← compileAnswer code
  modify fun s => program.functions.foldl announce s
where
  announce (s : Session) (decl : Function) : Session :=
    (s.register decl).say ("[AI] Function '" ++ decl.name ++ "' registered.")

def requestOptimized (body : List Stmt) : Run Program := do
  say "[AI] Optimizing block..."
  let code ← requestCode (.optimizeBlock (Stmt.printAll body))
  say ("[AI] Optimized Code:\n" ++ code)
  compileAnswer code

def withFacts (instruction : String) (facts : Array String) : String :=
  if facts.isEmpty then instruction
  else instruction ++ "\n[Memory]: " ++ "; ".intercalate facts.toList

/-- Ask for code that follows an instruction; a blank answer is an empty program. -/
def requestInstructed (instruction : Option String) (body : Option (List Stmt)) :
    Run Program := do
  let words := instruction.getD (← get).config.defaultInstruction
  say ("[AI] Instruction: \"" ++ words ++ "\"")
  let context := (body.map Stmt.printAll).getD ""
  let code ← requestCode (.process (withFacts words (← get).facts) context)
  say ("[AI] Result:\n" ++ code)
  if (Text.dropBlanks code.toList).isEmpty then
    return {}
  else
    compileAnswer code

def requestModule (library : String) : Run Program := do
  say ("[AI] Importing module '" ++ library ++ "'...")
  compileAnswer (← requestCode (.generateModule library))

def search (query : String) : Run Unit := do
  let answer ← requestAnswer (.search query (← get).facts.toList)
  say ("[AI Search]: " ++ answer)

def inspect (value : Value) : Run Unit := do
  let answer ← requestAnswer (.inspect value)
  say ("[AI Inspect]: " ++ answer)

mutual

def exec : Nat → Stmt → Run Flow
  | 0, _ => outOfFuel
  | fuel + 1, stmt => do
    match stmt with
    | .function name params body =>
      modify (·.register ⟨name, params, body⟩)
      return .normal
    | .binding name none =>
      modify (·.define name .null)
      return .normal
    | .binding name (some init) =>
      let value ← eval fuel init
      modify (·.define name value)
      return .normal
    | .branch test yes no =>
      if (← eval fuel test).holds then
        execBlock fuel yes
      else
        match no with
        | some no => execBlock fuel no
        | none => return .normal
    | .loop test body => execLoop fuel test body
    | .ret none => return .ret .null
    | .ret (some value) => return .ret (← eval fuel value)
    | .expr e =>
      let _ ← eval fuel e
      return .normal
    | .generate name params description =>
      generate name params description
      return .normal
    | .optimize body => execBlock fuel (← requestOptimized body).body
    | .ask instruction body => execBlock fuel (← requestInstructed instruction body).body
    | .load library =>
      runProgram fuel (← requestModule library)
      return .normal
    | .search query =>
      search query
      return .normal
    | .inspect target =>
      inspect (← eval fuel target)
      return .normal

def execBlock : Nat → List Stmt → Run Flow
  | 0, _ => outOfFuel
  | _ + 1, [] => return .normal
  | fuel + 1, stmt :: later => do
    match ← exec fuel stmt with
    | .normal => execBlock fuel later
    | .ret value => return .ret value

def execLoop : Nat → Expr → List Stmt → Run Flow
  | 0, _, _ => outOfFuel
  | fuel + 1, test, body => do
    if (← eval fuel test).holds then
      match ← execBlock fuel body with
      | .normal => execLoop fuel test body
      | .ret value => return .ret value
    else
      return .normal

/-- Register the functions of a program; then call its `main` if it declares one, or else run its
other statements in order. -/
def runProgram : Nat → Program → Run Unit
  | 0, _ => outOfFuel
  | fuel + 1, program => do
    modify fun s => program.functions.foldl Session.register s
    if program.functions.any (·.name == "main") then
      let _ ← call fuel "main" []
    else
      let _ ← execBlock fuel (program.body.filter (·.function?.isNone))

def eval : Nat → Expr → Run Value
  | 0, _ => outOfFuel
  | fuel + 1, e => do
    match e with
    | .number value => return .number value
    | .text value => return .text value
    | .name n => lookup n
    | .binary op left right =>
      let left ← eval fuel left
      let right ← eval fuel right
      apply op left right
    | .call callee args => call fuel callee (← evalAll fuel args)
    | .ui widget args children =>
      let args ← evalAll fuel args
      let _ ← callBound widget.name args
      let _ ← evalAll fuel children
      return .undefined

def evalAll : Nat → List Expr → Run (List Value)
  | 0, _ => outOfFuel
  | _ + 1, [] => return []
  | fuel + 1, e :: es => do
    let value ← eval fuel e
    return value :: (← evalAll fuel es)

/-- Call a function of the table or, if it has none of that name, a builtin of the current
frame. -/
def call : Nat → String → List Value → Run Value
  | 0, _, _ => outOfFuel
  | fuel + 1, name, args => do
    let s ← get
    match s.functions.get? name with
    | none => callBound name args
    | some callable =>
      if s.config.maxCallDepth ≤ s.frames.depth then
        fail (.callDepthExceeded s.config.maxCallDepth)
      else
        let decl := callable.decl
        let enter := match callable with
          | .function _ => fun (f : Frames) => f.pushCall decl.params args
          | .inline _ => fun (f : Frames) => f.pushInline decl.params args
        match ← inFrame enter (execBlock fuel decl.body) with
        | .normal => return .undefined
        | .ret value => return value

end

/-- Show a failure and, if the session is set to, the collaborator's idea of a fix. -/
def reportFailure (fault : RunFault) : Run Unit := do
  say ("Runtime Error: " ++ fault.message)
  if (← get).config.suggestFixes then
    say "[AI Debugger] Analyzing error..."
    suggestFix fault
where
  suggestFix (fault : RunFault) : Run Unit := fun s =>
    match s.backend.answer (.process ("Fix this error: " ++ fault.message) "") with
    | (.ok completion, backend) =>
      (.ok (), { s with backend := backend }.say ("[AI Suggestion]:\n" ++ completion.text))
    | (.error reason, backend) =>
      (.ok (), { s with backend := backend }.say
        ("[AI Debugger] No suggestion available: " ++ reason.message))

def evaluate (fuel : Nat) (program : Program) : Run Unit :=
  fun s =>
    match runProgram fuel program s with
    | (.error (.fault fault), s) =>
      match reportFailure fault s with
      | (_, s) => (.error (.fault fault), s)
    | other => other

end Run

/-- Compile and run a source text.  A text that does not compile changes nothing. -/
def Session.runSource (fuel : Nat) (source : String) (s : Session) :
    Option (Except (Halt Fault) Unit) × Session :=
  match compile source with
  | .error halt => (some (.error (halt.map .compile)), s)
  | .ok program =>
    match Run.evaluate fuel program s with
    | (.ok (), s) => (some (.ok ()), s)
    | (.error (.fault fault), s) => (some (.error (.fault (.run fault))), s)
    | (.error .crash, s) => (some (.error .crash), s)
    | (.error .outOfFuel, s) => (none, s)

end Splice
