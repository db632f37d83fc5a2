import Splice.Collaborator.Completion
import Splice.Collaborator.Prompt

/-!
# Backends

Where answers come from: a queue of prepared responses, which also records every prompt, or a
source that refuses every request.
-/

namespace Splice

inductive CollaboratorFault where
  | unavailable (reason : String)
  | exhausted (operation : String)
  | backend (reason : String)
  deriving DecidableEq, Repr

def CollaboratorFault.message : CollaboratorFault → String
  | .unavailable reason => "collaborator unavailable: " ++ reason
  | .exhausted operation => "no scripted response left for " ++ operation
  | .backend reason => reason

inductive Backend where
  | scripted (responses : List Completion) (prompts : Array Prompt)
  | refusing (fault : CollaboratorFault)
  deriving DecidableEq, Repr

namespace Backend

def unavailable : Backend :=
  .refusing (.unavailable "no text-generation backend configured")

def ofResponses (responses : List Completion) : Backend :=
  .scripted responses #[]

def answer (b : Backend) (r : Request) : Except CollaboratorFault Completion × Backend :=
  match b with
  | .refusing fault => (.error fault, b)
  | .scripted [] prompts => (.error (.exhausted r.operation), .scripted [] (prompts.push r.prompt))
  | .scripted (response :: later) prompts =>
    (.ok response, .scripted later (prompts.push r.prompt))

def queue (b : Backend) (response : Completion) : Backend :=
  match b with
  | .scripted responses prompts => .scripted (responses ++ [response]) prompts
  | .refusing _ => b

def prompts : Backend → Array Prompt
  | .scripted _ prompts => prompts
  | .refusing _ => #[]

def remaining? : Backend → Option Nat
  | .scripted responses _ => some responses.length
  | .refusing _ => none

end Backend

end Splice
