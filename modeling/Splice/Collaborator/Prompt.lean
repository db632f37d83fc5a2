import Splice.Value.Basic

/-!
# Requests and prompts

What a program may ask of its collaborator, and the prompt that puts each request into words.
-/

namespace Splice

inductive Request where
  | generateFunction (name : String) (params : List String) (description : String)
  | optimizeBlock (source : String)
  | process (instruction context : String)
  | generateModule (name : String)
  | search (query : String) (facts : List String)
  | inspect (value : Value)
  deriving DecidableEq

/-- The role that a prompt gives the collaborator. -/
inductive Stance where
  | coding
  | general
  deriving DecidableEq, Repr

structure Prompt where
  operation : String
  stance : Stance
  user : String
  deriving DecidableEq, Repr

def Stance.systemPrompt : Stance → String
  | .coding =>
    "You are an expert AI coding assistant for Azalea.\n" ++
    "Language: Azalea (Indentation-based, Python-like structure, UI primitives: " ++
    "box, text, button).\n" ++
    "Rules:\n" ++
    "1. Output ONLY valid code. No markdown blocks unless explicitly requested.\n" ++
    "2. Be extremely concise.\n" ++
    "3. Use best practices.\n" ++
    "4. If fixing code, return the fixed code directly."
  | .general => "You are a helpful, concise AI assistant."

namespace Request

def factLimit : Nat := 10

def operation : Request → String
  | .generateFunction .. => "generate_function"
  | .optimizeBlock _ => "optimize_block"
  | .process .. => "process"
  | .generateModule _ => "generate_module"
  | .search .. => "rag_search"
  | .inspect _ => "inspect"

def stance : Request → Stance
  | .generateFunction .. | .optimizeBlock _ | .generateModule _ => .coding
  | .process .. | .search .. | .inspect _ => .general

def user : Request → String
  | .generateFunction name params description =>
    "Write a function '" ++ name ++ "' with params (" ++ ", ".intercalate params ++ ") that " ++
      description ++ "."
  | .optimizeBlock source =>
    "Optimize this Azalea code block:\n\n" ++ source ++ "\n\nReturn ONLY the optimized code."
  | .process instruction context =>
    "Instruction: " ++ instruction ++ "\n\nContext Code:\n" ++ context
  | .generateModule name =>
    "Generate a purely functional module named \"" ++ name ++
      "\" in Azalea syntax. Include exported functions."
  | .search query facts =>
    "Context:\n" ++ "\n---\n".intercalate (facts.take factLimit) ++ "\n\nQuery: " ++ query ++
      "\n\nAnswer the query using the context provided. Be concise."
  | .inspect value =>
    "Analyze this data structure:\n" ++ value.describe ++
      "\n\nExplain what it is and how to access its data in Azalea."

def prompt (r : Request) : Prompt :=
  ⟨r.operation, r.stance, r.user⟩

end Request

end Splice
