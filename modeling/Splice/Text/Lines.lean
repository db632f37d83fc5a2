/-!
# Lines of a text

`cut` keeps everything: the pieces between line breaks, the piece after the last break included.
`rows` is the reader's view of the same text: a final break starts no row, and a carriage return
before a break belongs to the break.
-/

namespace Splice.Text

/-- The pieces between line breaks, the first one apart, so that there is always one. -/
def cut (cs : List Char) : List Char × List (List Char) :=
  cs.foldr (fun c (piece, later) => if c = '\n' then ([], piece :: later) else (c :: piece, later))
    ([], [])

def pieces (cs : List Char) : List (List Char) :=
  (cut cs).1 :: (cut cs).2

/-- A carriage return directly before a line break is part of the break. -/
def dropReturn (cs : List Char) : List Char :=
  if cs.getLast? = some '\r' then cs.dropLast else cs

/-- Rows from pieces: the last piece has no break after it. -/
def rowsOfPieces : List (List Char) → List (List Char)
  | [] => []
  | [last] => if last.isEmpty then [] else [last]
  | piece :: next :: later => dropReturn piece :: rowsOfPieces (next :: later)

def rowsOfList (cs : List Char) : List (List Char) :=
  rowsOfPieces (pieces cs)

def rows (s : String) : List String :=
  (rowsOfList s.toList).map String.ofList

def byteLength (cs : List Char) : Nat :=
  cs.foldr (fun c n => c.utf8Size + n) 0

end Splice.Text
