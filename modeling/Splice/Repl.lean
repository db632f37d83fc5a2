import Splice.Report
import Splice.Session.Run

/-!
# The dialogue

A dialogue reads lines at a prompt and runs them in one session.  The input is first divided into
entries, each line belonging to exactly one; then the entries are answered in order.
-/

namespace Splice.Repl

abbrev Input := Option String

inductive Entry where
  | blank
  | help
  | environment
  | leave
  | source (head : String) (block : Option (List String))
  | brokenBlock (read : Nat)
  | unreadable
  | finished
  deriving DecidableEq, Repr

def isBlankInput (line : String) : Bool :=
  (Text.dropBlanks line.toList).isEmpty

def continues : Input → Bool
  | some line => !isBlankInput line
  | none => false

def opensBlock (line : String) : Bool :=
  line.toList.getLast? == some ':'

def awaitsMore : List Input → Bool
  | some line :: rows => opensBlock (Text.trim line) && rows.all continues
  | _ => false

/-- The entry of a source line, given the lines after it, and how many of those it takes. -/
def sourceEntry (head : String) (rows : List Input) : Entry × Nat :=
  if opensBlock head then
    let block := rows.takeWhile continues
    match rows[block.length]? with
    | some none => (.brokenBlock block.length, block.length + 1)
    | _ => (.source head (some (block.filterMap id)), block.length + 1)
  else
    (.source head none, 0)

def entries : List Input → List Entry
  | [] => [.finished]
  | none :: _ => [.unreadable]
  | some line :: rows =>
    match Text.trim line with
    | "" => .blank :: entries rows
    | "exit" => [.leave]
    | "quit" => [.leave]
    | "help" => .help :: entries rows
    | "env" => .environment :: entries rows
    | head =>
      match sourceEntry head rows with
      | (entry, taken) => entry :: entries (rows.drop taken)
termination_by rows => rows.length
decreasing_by all_goals simp only [List.length_drop, List.length_cons]; omega

def sourceText (head : String) (block : Option (List String)) : String :=
  head ++ String.join ((block.getD []).map ("\n" ++ ·)) ++ "\n"

def banner : String :=
  "Azalea REPL v0.1.0\nType 'help' for commands, 'exit' or 'quit' to leave\n\n"

def prompt : String := "azalea> "

def continuation : String := "   ...> "

def helpText : String :=
  "Azalea REPL Commands:\n" ++
  "  help  - Show this help message\n" ++
  "  env   - Show global variables and functions\n" ++
  "  exit  - Exit the REPL\n" ++
  "  quit  - Exit the REPL\n" ++
  "\nA line ending in ':' starts a block; finish it with an empty line.\n"

def environmentText (s : Session) : String :=
  String.join (s.frames.globals.entries.filterMap fun
    | (_, .builtin _) => none
    | (name, value) => some (name ++ " = " ++ value.describe ++ "\n")) ++
  String.join (s.functions.entries.map fun (name, callable) =>
    "fn " ++ name ++ "(" ++ ", ".intercalate callable.decl.params ++ ")\n")

def drawingText : Drawing → String
  | .box => "[BOX]\n"
  | .text content => content ++ "\n"
  | .button label => "[BUTTON: " ++ label ++ "]\n"

structure Settings where
  fuel : Nat
  style : Report.Style
  drawings : Bool

structure Answer where
  text : String
  session : Session
  crashed : Bool := false

/-- Run a source text: its drawings, its printed lines and, if it does not compile, a report.  Under
a crash only the drawings are shown, as they are made. -/
def answerSource (settings : Settings) (source : String) (s : Session) : Answer :=
  match s.runSource settings.fuel source with
  | (result, after) =>
    let drawn := if settings.drawings then
        String.join ((after.drawings.drop s.drawings.length).map drawingText)
      else ""
    let lines := String.join (after.output.toList.map (· ++ "\n"))
    match result with
    | some (.error .crash) => ⟨drawn, after, true⟩
    | some (.error (.fault (.compile fault))) =>
      ⟨drawn ++ lines ++ Report.render settings.style (.compile fault) source none,
        after.takeOutput.2, false⟩
    | _ => ⟨drawn ++ lines, after.takeOutput.2, false⟩

def answer (settings : Settings) (entry : Entry) (s : Session) : Answer :=
  match entry with
  | .blank | .brokenBlock _ | .unreadable => ⟨"", s, false⟩
  | .help => ⟨helpText, s, false⟩
  | .environment => ⟨environmentText s, s, false⟩
  | .leave => ⟨"Goodbye!\n", s, false⟩
  | .source head block => answerSource settings (sourceText head block) s
  | .finished => ⟨"\n", s, false⟩

/-- The prompts at which an entry is read: one for each of its lines and for the end of its
block. -/
def Entry.prompts : Entry → String
  | .source _ (some block) => prompt ++ continuations (block.length + 1)
  | .brokenBlock read => prompt ++ continuations (read + 1)
  | _ => prompt
where
  continuations (count : Nat) : String :=
    String.join (List.replicate count continuation)

def Entry.isBroken : Entry → Bool
  | .brokenBlock _ | .unreadable => true
  | _ => false

inductive Close where
  | finished
  | unreadable
  | crashed
  deriving DecidableEq, Repr

structure Transcript where
  written : String
  close : Close
  session : Session

def answerAll (settings : Settings) : List Entry → String → Session → Transcript
  | [], written, s => ⟨written, .finished, s⟩
  | entry :: later, written, s =>
    match answer settings entry s with
    | ⟨text, after, crashed⟩ =>
      let written := written ++ entry.prompts ++ text
      if crashed then ⟨written, .crashed, after⟩
      else if entry.isBroken then ⟨written, .unreadable, after⟩
      else answerAll settings later written after

def run (settings : Settings) (input : List Input) (s : Session) : Transcript :=
  answerAll settings (entries input) banner s

end Splice.Repl
