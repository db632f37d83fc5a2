import Splice.Collaborator.Backend
import Splice.Compile
import Splice.Value.Frames

/-!
# Sessions

A session holds all that a run can change: the function table, the frames, the collaborator's
backend, the remembered facts and what has been shown so far.
-/

namespace Splice

structure Config where
  /-- Ask the collaborator for a fix after a failed run. -/
  suggestFixes : Bool := true
  echo : Bool := false
  maxCallDepth : Nat := 64
  /-- What an `ai` statement without words of its own asks for. -/
  defaultInstruction : String := "Improve this code"
  deriving DecidableEq, Repr

def Config.quiet : Config :=
  { suggestFixes := false }

inductive Callable where
  /-- Runs in a copy of the globals. -/
  | function (decl : Function)
  /-- Runs in a copy of its caller's frame. -/
  | inline (decl : Function)

def Callable.decl : Callable → Function
  | .function decl | .inline decl => decl

inductive Drawing where
  | box
  | text (content : String)
  | button (label : String)
  deriving DecidableEq, Repr

/-- What a run shows, in order: printed lines, drawings, and notes for the curious. -/
inductive Event where
  | printed (line : String)
  | drew (drawing : Drawing)
  | noted (note : String)
  deriving DecidableEq, Repr

structure Session where
  config : Config := {}
  functions : Table Callable := {}
  frames : Frames := Frames.withBuiltins
  backend : Backend := .unavailable
  facts : Array String := #[]
  /-- The printed lines that nobody has taken yet. -/
  output : Array String := #[]
  journal : Array Event := #[]

namespace Session

def say (s : Session) (line : String) : Session :=
  { s with output := s.output.push line, journal := s.journal.push (.printed line) }

def draw (s : Session) (drawing : Drawing) : Session :=
  { s with journal := s.journal.push (.drew drawing) }

def note (s : Session) (text : String) : Session :=
  { s with journal := s.journal.push (.noted text) }

def drawings (s : Session) : List Drawing :=
  s.journal.toList.filterMap fun
    | .drew drawing => some drawing
    | _ => none

def remember (s : Session) (fact : String) : Session :=
  { s with facts := s.facts.push fact }

def define (s : Session) (name : String) (value : Value) : Session :=
  { s with frames := s.frames.define name value }

def register (s : Session) (decl : Function) : Session :=
  { s.note ("registered function '" ++ decl.name ++ "'") with
    functions := s.functions.put decl.name (.function decl) }

def registerInline (s : Session) (decl : Function) : Session :=
  { s.note ("registered macro '" ++ decl.name ++ "'") with
    functions := s.functions.put decl.name (.inline decl) }

/-- Forget printed lines and facts; functions and globals stay. -/
def reset (s : Session) : Session :=
  { s with output := #[], facts := #[] }

def takeOutput (s : Session) : Array String × Session :=
  (s.output, { s with output := #[] })

def respond (s : Session) (response : Completion) : Session :=
  { s with backend := s.backend.queue response }

end Session

inductive RunFault where
  | undefinedVariable (name : String)
  | functionNotFound (name : String)
  | operand (fault : OperandFault)
  | callDepthExceeded (limit : Nat)
  | collaborator (fault : CollaboratorFault)
  | compile (fault : CompileFault)
  deriving DecidableEq, Repr

namespace RunFault

def message : RunFault → String
  | .undefinedVariable name => "Variable " ++ name ++ " not defined"
  | .functionNotFound name => "Function " ++ name ++ " not found"
  | .operand (.types op left right) =>
    "Unsupported operand types for '" ++ op.symbol ++ "': " ++ left.name ++ " and " ++ right.name
  | .operand .divisionByZero => "Division by zero"
  | .callDepthExceeded limit => "Maximum call depth of " ++ toString limit ++ " exceeded"
  | .collaborator fault => "AI collaborator failed: " ++ fault.message
  | .compile fault => fault.message

def label : RunFault → FaultLabel
  | .undefinedVariable _ | .functionNotFound _ => .name
  | .operand (.types ..) => .type
  | .operand .divisionByZero | .callDepthExceeded _ | .collaborator _ => .runtime
  | .compile fault => fault.label

end RunFault

/-- Why a source text cannot be run to its end. -/
inductive Fault where
  | compile (fault : CompileFault)
  | run (fault : RunFault)
  deriving DecidableEq, Repr

namespace Fault

def message : Fault → String
  | .compile fault => fault.message
  | .run fault => fault.message

def label : Fault → FaultLabel
  | .compile fault => fault.label
  | .run fault => fault.label

/-- A fault in code that the collaborator wrote has no place in the source that was run. -/
def place? : Fault → Option Place
  | .compile fault => some fault.place
  | .run _ => none

end Fault

end Splice
