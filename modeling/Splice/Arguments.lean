import Splice.Emit.Target

/-!
# Command-line arguments

Options may stand before or after the command word and its file.  Options that every command has are
read at both levels; each may be given once at each level.  A file before a command word is
accepted and ignored.
-/

namespace Splice

inductive Action where
  | run (file : String)
  | check (file : String)
  | tokens (file : String)
  | format (file : String) (write : Bool)
  | emit (file : String) (target : Target) (output : Option String)
  | repl
  deriving DecidableEq, Repr

structure Invocation where
  action : Action
  script : Option String := none
  suggestFixes : Bool := true
  verbose : Bool := false
  colors : Bool := true
  deriving DecidableEq, Repr

/-- Why arguments are no invocation: they are wrong, or they ask about the program. -/
inductive ArgumentFault where
  | usage
  | help
  | version
  deriving DecidableEq, Repr

namespace Arguments

inductive Command where
  | run
  | check
  | format
  | emit
  | tokens
  deriving DecidableEq, Repr

def Command.ofName? : String → Option Command
  | "run" => some .run
  | "check" => some .check
  | "fmt" => some .format
  | "emit" => some .emit
  | "tokens" => some .tokens
  | _ => none

inductive Flag where
  | script
  | noFix
  | verbose
  | noColor
  | write
  | target
  | output
  | help
  | version
  deriving DecidableEq, Repr

def Flag.takesValue : Flag → Bool
  | .script | .target | .output => true
  | _ => false

def Flag.accepts (flag : Flag) (value : String) : Bool :=
  match flag with
  | .target => (Target.ofName? value).isSome
  | .script | .output => !value.isEmpty
  | _ => true

abbrev Level := Option Command

def Flag.isKnown (flag : Flag) (level : Level) : Bool :=
  match flag with
  | .script | .noFix | .verbose | .noColor | .help => true
  | .write => level == some .format
  | .target | .output => level == some .emit
  | .version => level == none

def longFlag? : String → Option Flag
  | "ai-script" => some .script
  | "no-ai-fix" => some .noFix
  | "verbose" => some .verbose
  | "no-color" => some .noColor
  | "write" => some .write
  | "target" => some .target
  | "output" => some .output
  | "help" => some .help
  | "version" => some .version
  | _ => none

def shortFlag? : Char → Option Flag
  | 'v' => some .verbose
  | 'w' => some .write
  | 't' => some .target
  | 'o' => some .output
  | 'h' => some .help
  | 'V' => some .version
  | _ => none

structure Given where
  flags : List (Flag × String) := []
  file : Option String := none
  deriving DecidableEq, Repr

namespace Given

def has (g : Given) (flag : Flag) : Bool :=
  g.flags.any (·.1 == flag)

def value? (g : Given) (flag : Flag) : Option String :=
  g.flags.lookup flag

def addFlag (g : Given) (flag : Flag) (value : String) : Except ArgumentFault Given :=
  match flag with
  | .help => .error .help
  | .version => .error .version
  | _ =>
    if g.has flag || !flag.accepts value then .error .usage
    else .ok { g with flags := (flag, value) :: g.flags }

def addFile (g : Given) (file : String) : Except ArgumentFault Given :=
  if g.file.isSome || file.isEmpty then .error .usage else .ok { g with file := some file }

def addFiles (g : Given) (files : List String) : Except ArgumentFault Given :=
  files.foldlM addFile g

end Given

/-- Whether an argument reads as an option rather than a value; a lone dash is a value. -/
def looksLikeOption (arg : String) : Bool :=
  match arg.toList with
  | '-' :: _ :: _ => true
  | _ => false

def splitEquals (cs : List Char) : String × Option String :=
  let name := cs.takeWhile (· ≠ '=')
  let value := cs.drop (name.length + 1)
  (String.ofList name, if name.length < cs.length then some (String.ofList value) else none)

/-- A long option.  The result also says which option still needs its value. -/
def readLong (level : Level) (g : Given) (cs : List Char) :
    Except ArgumentFault (Given × Option Flag) := do
  let (name, value) := splitEquals cs
  match (longFlag? name).filter (·.isKnown level), value with
  | none, _ => throw .usage
  | some flag, none =>
    if flag.takesValue then return (g, some flag) else return (← g.addFlag flag "", none)
  | some flag, some value =>
    if flag.takesValue then return (← g.addFlag flag value, none) else throw .usage

/-- A run of short options.  The first that takes a value takes the rest of the run for it. -/
def readShort (level : Level) (g : Given) : List Char → Except ArgumentFault (Given × Option Flag)
  | [] => .ok (g, none)
  | c :: cs =>
    match (shortFlag? c).filter (·.isKnown level) with
    | none => .error .usage
    | some flag =>
      if flag.takesValue then
        match cs with
        | [] => .ok (g, some flag)
        | '=' :: value => (g.addFlag flag (String.ofList value)).map (·, none)
        | value => (g.addFlag flag (String.ofList value)).map (·, none)
      else
        match g.addFlag flag "" with
        | .error e => .error e
        | .ok g => readShort level g cs

inductive Step where
  | option (given : Given) (needs : Option Flag)
  | command (command : Command)
  | help

def readArgument (level : Level) (g : Given) (arg : String) : Except ArgumentFault Step :=
  match arg.toList with
  | '-' :: '-' :: cs => (readLong level g cs).map fun r => .option r.1 r.2
  | '-' :: c :: cs => (readShort level g (c :: cs)).map fun r => .option r.1 r.2
  | _ =>
    match level, arg, Command.ofName? arg with
    | none, _, some command => .ok (.command command)
    | none, "help", _ => .ok .help
    | _, _, _ => (g.addFile arg).map (.option · none)

/-- What the word `help` asks for.  It may be followed by one command word, or by itself. -/
def readHelp : List String → ArgumentFault
  | [] => .help
  | [word] => if word = "help" ∨ (Command.ofName? word).isSome then .help else .usage
  | _ => .usage

def readLevel (level : Level) (g : Given) :
    List String → Except ArgumentFault (Given × Option (Command × List String))
  | [] => .ok (g, none)
  | "--" :: files => (g.addFiles files).map (·, none)
  | arg :: args =>
    match readArgument level g arg with
    | .error e => .error e
    | .ok (.command command) => .ok (g, some (command, args))
    | .ok .help => .error (readHelp args)
    | .ok (.option g none) => readLevel level g args
    | .ok (.option g (some flag)) =>
      match args with
      | [] => .error .usage
      | value :: args =>
        if looksLikeOption value then .error .usage
        else
          match g.addFlag flag value with
          | .error e => .error e
          | .ok g => readLevel level g args

def actionOf (command : Command) (g : Given) : Except ArgumentFault Action :=
  match g.file with
  | none => .error .usage
  | some file =>
    match command with
    | .run => .ok (.run file)
    | .check => .ok (.check file)
    | .tokens => .ok (.tokens file)
    | .format => .ok (.format file (g.has .write))
    | .emit =>
      match (g.value? .target).bind Target.ofName? with
      | some target => .ok (.emit file target (g.value? .output))
      | none => .error .usage

/-- Put together what both levels give; the command's own script comes first. -/
def invocation (action : Action) (outer inner : Given) : Invocation :=
  let has := fun flag => outer.has flag || inner.has flag
  { action := action
    script := (inner.value? .script).or (outer.value? .script)
    suggestFixes := !has .noFix
    verbose := has .verbose
    colors := !has .noColor }

def read (args : List String) : Except ArgumentFault Invocation := do
  let (outer, command) ← readLevel none {} args
  match command with
  | none =>
    match outer.file with
    | some file => return invocation (.run file) outer {}
    | none => return invocation .repl outer {}
  | some (command, args) =>
    let (inner, _) ← readLevel (some command) {} args
    return invocation (← actionOf command inner) outer inner

def usageText : String :=
  "Usage: azalea [OPTIONS] [FILE] [COMMAND]\n\n" ++
  "Commands:\n" ++
  "  run     Run a file\n" ++
  "  check   Tokenize and parse a file without running it\n" ++
  "  fmt     Print a file in canonical layout\n" ++
  "  emit    Write a file in another language\n" ++
  "  tokens  Print the token stream of a file\n"

end Arguments

end Splice
