import Splice.Command

/-!
# The program
-/

namespace Splice

def plentyOfFuel : Nat := 1000000000000000000

def FileFault.ofIO : IO.Error → FileFault
  | .noFileOrDirectory .. => .system "No such file or directory" 2
  | .permissionDenied .. => .system "Permission denied" 13
  | .inappropriateType _ 20 _ => .system "Not a directory" 20
  | .inappropriateType .. => .system "Is a directory" 21
  | other => .system other.toString 5

def readBytes (path : String) : IO (Except FileFault ByteArray) := do
  try
    return .ok (← IO.FS.readBinFile path)
  catch fault =>
    return .error (FileFault.ofIO fault)

def writeText (path text : String) : IO (Except FileFault Unit) := do
  try
    return .ok (← IO.FS.writeFile path text)
  catch fault =>
    return .error (FileFault.ofIO fault)

def Invocation.files (i : Invocation) : List String :=
  let own := match i.action with
    | .run file | .check file | .tokens file | .format file _ | .emit file _ _ => [file]
    | .repl => []
  own ++ i.script.toList

/-- The surroundings of an invocation: its files, read beforehand, and no input. -/
def surroundings (files : List String) : IO Surroundings := do
  let contents ← files.mapM fun path => do return (path, ← readBytes path)
  return {
    fetch := fun path =>
      (contents.lookup path).getD (.error (.system "No such file or directory" 2))
    input := .empty
    fuel := plentyOfFuel }

def readLine (input : IO.FS.Stream) : IO (Option Repl.Input) := do
  try
    let line ← input.getLine
    if line.isEmpty then
      return none
    else
      return some ((Text.rows line).head?.getD "")
  catch _ =>
    return some none

partial def readEntry (input output : IO.FS.Stream) (rows : List Repl.Input) :
    IO (List Repl.Input) := do
  output.putStr (if rows.isEmpty then Repl.prompt else Repl.continuation)
  output.flush
  match ← readLine input with
  | none => return rows
  | some row =>
    let rows := rows ++ [row]
    if Repl.awaitsMore rows then readEntry input output rows else return rows

partial def talk (i : Invocation) (settings : Repl.Settings) (s : Session) : IO UInt32 := do
  let input ← IO.getStdin
  let output ← IO.getStdout
  let rows ← readEntry input output []
  let entry := (Repl.entries rows).headD .finished
  let ⟨text, after, crashed⟩ := Repl.answer settings entry s
  output.putStr text
  (← IO.getStderr).putStr (i.notes { after with journal := after.journal.drop s.journal.size })
  if crashed then
    return UInt32.ofNat (Outcome.crashed "" "").code
  match entry with
  | .leave | .finished => return 0
  | .brokenBlock _ | .unreadable =>
    (← IO.getStderr).putStr (Outcome.fileFault .notText).errors
    return 1
  | _ => talk i settings after

def Outcome.deliver (o : Outcome) : IO UInt32 := do
  let o ← match o.write with
    | none => pure o
    | some (path, text) => pure (o.afterWrite (← writeText path text))
  (← IO.getStdout).putStr o.output
  (← IO.getStderr).putStr o.errors
  return UInt32.ofNat o.code

def Invocation.carryOut (i : Invocation) : IO UInt32 := do
  let world ← surroundings i.files
  match i.action with
  | .repl =>
    match i.openSession world false with
    | .error fault => (Outcome.fileFault fault).deliver
    | .ok s =>
      (← IO.getStderr).putStr (i.notes s)
      (← IO.getStdout).putStr Repl.banner
      talk i { fuel := world.fuel, style := i.style, drawings := true } s
  | _ => (i.perform world).deliver

end Splice

def main (args : List String) : IO UInt32 := do
  match Splice.Arguments.read args with
  | .ok invocation => invocation.carryOut
  | .error fault => (Splice.refusal fault).deliver
