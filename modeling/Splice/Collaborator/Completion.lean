/-!
# Completions

A collaborator may deliver its text in several chunks.  Only their concatenation counts.
-/

namespace Splice

structure Completion where
  chunks : List String := []
  deriving DecidableEq, Repr

namespace Completion

def ofText (text : String) : Completion :=
  ⟨[text]⟩

def push (c : Completion) (chunk : String) : Completion :=
  ⟨c.chunks ++ [chunk]⟩

def text (c : Completion) : String :=
  String.join c.chunks

def isEmpty (c : Completion) : Bool :=
  c.chunks.all String.isEmpty

end Completion

end Splice
