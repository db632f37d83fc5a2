/-!
# Layout

The open blocks of a text are a stack of indentation widths.  A line that is indented deeper opens
one block; a line that is indented less closes blocks, and must then stand at a width that is
still open.
-/

namespace Splice

/-- The widths of the open blocks, innermost first.  The text itself is at width zero. -/
structure Layout where
  widths : List Nat := []
  deriving DecidableEq, Repr

namespace Layout

/-- How a line's indentation changes the open blocks. -/
inductive Shift where
  | opens
  | closes (count : Nat)
  | mismatch (expected : Nat)
  deriving DecidableEq, Repr

def depth (layout : Layout) : Nat :=
  layout.widths.length

def top (layout : Layout) : Nat :=
  layout.widths.headD 0

def closeTo (layout : Layout) (width : Nat) : Layout :=
  ⟨layout.widths.dropWhile (width < ·)⟩

/-- Move to a line's width.  On a mismatch the deeper blocks are closed all the same. -/
def moveTo (layout : Layout) (width : Nat) : Shift × Layout :=
  if layout.top < width then
    (.opens, ⟨width :: layout.widths⟩)
  else
    let kept := layout.closeTo width
    if kept.top = width then (.closes (layout.depth - kept.depth), kept)
    else (.mismatch kept.top, kept)

def tabWidth : Nat := 4

def isIndent (c : Char) : Bool :=
  c == ' ' || c == '\t'

def measure (indent : List Char) : Nat :=
  indent.foldr (fun c n => (if c = '\t' then tabWidth else 1) + n) 0

end Layout

end Splice
