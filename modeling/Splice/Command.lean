import Splice.Arguments
import Splice.Collaborator.Script
import Splice.Repl
import Splice.Token.Listing

/-!
# Commands

A command reads files and standard input and says what to write where.  The one file that a command
may write is written last, so its failure only replaces the outcome.
-/

namespace Splice

/-- Why a file cannot be read or written. -/
inductive FileFault where
  | system (reason : String) (code : Nat)
  | notText
  deriving DecidableEq, Repr

def FileFault.message : FileFault → String
  | .system reason code => reason ++ " (os error " ++ toString code ++ ")"
  | .notText => "stream did not contain valid UTF-8"

/-- What a command leaves behind.  The message of a crash is left out. -/
structure Outcome where
  output : String := ""
  errors : String := ""
  code : Nat := 0
  /-- A file to write, with its new content. -/
  write : Option (String × String) := none
  deriving DecidableEq, Repr

namespace Outcome

def fileFault (fault : FileFault) : Outcome :=
  { errors := "I/O error: " ++ fault.message ++ "\n", code := 1 }

def crashed (output errors : String) : Outcome :=
  { output := output, errors := errors, code := 101 }

def afterWrite (o : Outcome) : Except FileFault Unit → Outcome
  | .ok () => { o with write := none }
  | .error fault => fileFault fault

end Outcome

/-- The part of the world that a command can see. -/
structure Surroundings where
  fetch : String → Except FileFault ByteArray
  input : ByteArray
  fuel : Nat

namespace Surroundings

def readText (world : Surroundings) (path : String) : Except FileFault String :=
  match world.fetch path with
  | .error fault => .error fault
  | .ok bytes =>
    match String.fromUTF8? bytes with
    | some text => .ok text
    | none => .error .notText

def cutBytes (bytes : List UInt8) : List UInt8 × List (List UInt8) :=
  bytes.foldr (fun b (piece, later) => if b = 10 then ([], piece :: later) else (b :: piece, later))
    ([], [])

/-- A line of bytes as text, without a carriage return before its end if the end is a line feed. -/
def inputLine (ended : Bool) (bytes : List UInt8) : Repl.Input :=
  let bytes := if ended && bytes.getLast? = some 13 then bytes.dropLast else bytes
  String.fromUTF8? ⟨bytes.toArray⟩

def linesOfPieces : List (List UInt8) → List Repl.Input
  | [] => []
  | [last] => if last.isEmpty then [] else [inputLine false last]
  | piece :: next :: later => inputLine true piece :: linesOfPieces (next :: later)

def inputLines (world : Surroundings) : List Repl.Input :=
  match cutBytes world.input.toList with
  | (piece, later) => linesOfPieces (piece :: later)

end Surroundings

namespace Invocation

def style (i : Invocation) : Report.Style :=
  { if i.verbose then Report.Style.verbose else {} with colors := i.colors }

def noteLine (text : String) : String :=
  "[azalea] " ++ text ++ "\n"

def noteText (i : Invocation) (text : String) : String :=
  if i.verbose then noteLine text else ""

def notes (i : Invocation) (s : Session) : String :=
  String.join (s.journal.toList.map fun
    | .noted text => i.noteText text
    | _ => "")

def shown (s : Session) : String :=
  String.join (s.journal.toList.map fun
    | .printed line => line ++ "\n"
    | .drew drawing => Repl.drawingText drawing
    | .noted _ => "")

def openSession (i : Invocation) (world : Surroundings) (echo : Bool) :
    Except FileFault Session := do
  let config : Config := { suggestFixes := i.suggestFixes, echo := echo }
  match i.script with
  | none => return { config := config }
  | some path =>
    let responses := splitScript (← world.readText path)
    let s : Session :=
      { config := config, backend := .ofResponses (responses.map Completion.ofText) }
    return s.note ("loaded " ++ toString responses.length ++ " scripted response(s) from " ++ path)

/-- The report on a source file that cannot be read as a program. -/
def reported (i : Invocation) (file source : String) (fault : CompileFault) : Outcome :=
  { errors := Report.render i.style (.compile fault) source (some file), code := 1 }

def withProgram (i : Invocation) (world : Surroundings) (file : String)
    (next : String → Program → Outcome) : Outcome :=
  match world.readText file with
  | .error fault => .fileFault fault
  | .ok source =>
    match compile source with
    | .error (.fault fault) => i.reported file source fault
    | .error .crash => .crashed "" ""
    | .ok program => next source program

def runFile (i : Invocation) (world : Surroundings) (program : Program) : Outcome :=
  match i.openSession world true with
  | .error fault => .fileFault fault
  | .ok s =>
    match Run.evaluate world.fuel program s with
    | (.ok (), s) => { output := shown s, errors := i.notes s }
    | (.error .crash, s) => .crashed (shown s) (i.notes s)
    | (.error _, s) => { output := shown s, errors := i.notes s, code := 1 }

def listTokens (i : Invocation) (world : Surroundings) (file : String) : Outcome :=
  match world.readText file with
  | .error fault => .fileFault fault
  | .ok source =>
    match Token.ofSource source with
    | .error (.fault fault) => i.reported file source (.scan fault)
    | .error .crash => .crashed "" ""
    | .ok tokens => { output := String.join (tokens.map (·.describe ++ "\n")) }

def formatFile (file : String) (write : Bool) (source : String) (program : Program) : Outcome :=
  let text := program.print
  if write then
    if text = source then {} else { write := some (file, text) }
  else
    { output := text }

def emitFile (target : Target) (output : Option String) (program : Program) : Outcome :=
  match target.emit program, output with
  | .error fault, _ => { errors := "Code generation error: " ++ fault.message ++ "\n", code := 1 }
  | .ok code, some path => { write := some (path, code) }
  | .ok code, none => { output := code }

def converse (i : Invocation) (world : Surroundings) : Outcome :=
  match i.openSession world false with
  | .error fault => .fileFault fault
  | .ok s =>
    let settings := { fuel := world.fuel, style := i.style, drawings := true }
    let t := Repl.run settings world.inputLines s
    match t.close with
    | .finished => { output := t.written, errors := i.notes t.session }
    | .unreadable =>
      { output := t.written
        errors := i.notes t.session ++ (Outcome.fileFault .notText).errors
        code := 1 }
    | .crashed => .crashed t.written (i.notes t.session)

def perform (i : Invocation) (world : Surroundings) : Outcome :=
  match i.action with
  | .run file => i.withProgram world file fun _ program => i.runFile world program
  | .check file =>
    i.withProgram world file fun _ program =>
      { errors := i.noteText
          (file ++ ": " ++ toString program.body.length ++ " top-level statement(s)") }
  | .tokens file => i.listTokens world file
  | .format file write => i.withProgram world file (formatFile file write)
  | .emit file target output =>
    i.withProgram world file fun _ program => emitFile target output program
  | .repl => i.converse world

end Invocation

/-- What arguments that are no invocation are answered with.  Wrong usage ends with code two. -/
def refusal : ArgumentFault → Outcome
  | .version => { output := "azalea 0.1.0\n" }
  | .help => { output := Arguments.usageText }
  | .usage => { errors := Arguments.usageText, code := 2 }

def perform (args : List String) (world : Surroundings) : Outcome :=
  match Arguments.read args with
  | .ok invocation => invocation.perform world
  | .error fault => refusal fault

end Splice
