import Splice.Tree.Fault

/-!
# A cursor over tokens

The cursor holds the token it stands on, so it can never leave the sequence.  It does not move past
the end of input.  `nesting` counts the blocks, groups and argument lists that are open.
-/

namespace Splice

structure Cursor where
  /-- The tokens already read, the last one first. -/
  before : List Token
  here : Token
  after : List Token
  nesting : Nat := 0
  deriving DecidableEq, Repr

namespace Cursor

def endAfter (last : Token) : Token :=
  ⟨⟨last.line, 1, ⟨last.span.stop, last.span.stop⟩⟩, .endOfInput, ""⟩

def emptyEnd : Token :=
  ⟨⟨1, 1, ⟨0, 0⟩⟩, .endOfInput, ""⟩

/-- The tokens after `last`, with an end of input unless the sequence has one at its end. -/
def closeAfter (last : Token) : List Token → List Token
  | [] => if last.kind = .endOfInput then [] else [endAfter last]
  | token :: later => token :: closeAfter token later

def ofTokens : List Token → Cursor
  | [] => { before := [], here := emptyEnd, after := [] }
  | token :: later => { before := [], here := token, after := closeAfter token later }

def kind (c : Cursor) : Kind :=
  c.here.kind

def position (c : Cursor) : Nat :=
  c.before.length

def atEnd (c : Cursor) : Bool :=
  c.kind == .endOfInput

def advance (c : Cursor) : Cursor :=
  match c.after with
  | [] => c
  | next :: later =>
    if c.atEnd then c else { c with before := c.here :: c.before, here := next, after := later }

def skipNewlines (c : Cursor) : Cursor :=
  go c.before c.here c.after
where
  go (before : List Token) (here : Token) : List Token → Cursor
    | [] => { c with before := before, here := here, after := [] }
    | next :: later =>
      if here.kind = .newline then go (here :: before) next later
      else { c with before := before, here := here, after := next :: later }

def fault (c : Cursor) (cause : ParseFault.Cause) : ParseFault :=
  ⟨cause, c.here.toPlace, c.kind⟩

end Cursor

end Splice
