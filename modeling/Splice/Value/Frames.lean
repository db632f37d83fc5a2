import Splice.Table
import Splice.Value.Basic

/-!
# Frames

Variables live in a stack of frames over the globals.  Frames are not chained: a call starts from a
copy of the globals, so it cannot see the variables of its caller.
-/

namespace Splice

abbrev Scope := Table Value

structure Frames where
  globals : Scope := {}
  /-- The frames of the active calls, innermost first. -/
  calls : List Scope := []
  deriving DecidableEq

namespace Frames

def depth (f : Frames) : Nat :=
  f.calls.length

def current (f : Frames) : Scope :=
  f.calls.headD f.globals

def get? (f : Frames) (name : String) : Option Value :=
  f.current.get? name

def defineGlobal (f : Frames) (name : String) (value : Value) : Frames :=
  { f with globals := f.globals.put name value }

def define (f : Frames) (name : String) (value : Value) : Frames :=
  match f.calls with
  | [] => f.defineGlobal name value
  | scope :: outer => { f with calls := scope.put name value :: outer }

/-- Bind parameters in order; a missing argument is undefined, and one too many is dropped. -/
def bind (scope : Scope) : List String → List Value → Scope
  | [], _ => scope
  | param :: params, [] => bind (scope.put param .undefined) params []
  | param :: params, arg :: args => bind (scope.put param arg) params args

def pushCall (f : Frames) (params : List String) (args : List Value) : Frames :=
  { f with calls := bind f.globals params args :: f.calls }

def pushInline (f : Frames) (params : List String) (args : List Value) : Frames :=
  { f with calls := bind f.current params args :: f.calls }

/-- Leave the innermost call; the globals always stay. -/
def pop (f : Frames) : Frames :=
  { f with calls := f.calls.tail }

def withBuiltins : Frames :=
  Builtin.all.foldl (fun f b => f.defineGlobal b.name (.builtin b)) {}

end Frames

end Splice
