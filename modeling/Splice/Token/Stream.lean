import Splice.Text.Blank
import Splice.Token.Layout
import Splice.Token.Line

/-!
# From a text to its tokens

A text is read line by line.  A line that holds nothing but blanks, or a comment, gives no layout
and no tokens of its own.  Any other line first moves the layout to its indentation.  Every line
break is a token, and the tokens end with one dedent for each block still open and the end of
input.
-/

namespace Splice

def Layout.Shift.tokens (place : Place) (width : Nat) : Layout.Shift → Except ScanFault (List Token)
  | .opens => .ok [⟨place, .indent, ""⟩]
  | .closes count => .ok (List.replicate count ⟨place, .dedent, ""⟩)
  | .mismatch expected =>
      .error ⟨.indentMismatch expected width, place.line, 1, place.span⟩

/-- Close the open blocks one after the other, the innermost first, each with a dedent. -/
def Layout.closeAll (place : Place) (layout : Layout) : List Token × Layout :=
  closeWidths layout.widths
where
  closeWidths : List Nat → List Token × Layout
    | [] => ([], {})
    | _ :: outer =>
      let (marks, closed) := closeWidths outer
      (⟨place, .dedent, ""⟩ :: marks, closed)

namespace Token

def isBlankLine (cs : List Char) : Bool :=
  match Text.dropBlanks cs with
  | [] => true
  | c :: _ => c == '#'

/-- The tokens of one line, its break not included, and the layout after it. -/
def ofLine (layout : Layout) (line offset : Nat) (cs : List Char) :
    Except (Halt ScanFault) (List Token × Layout) :=
  if isBlankLine cs then
    .ok ([], layout)
  else do
    let indent := cs.takeWhile Layout.isIndent
    let width := Layout.measure indent
    let moved := layout.moveTo width
    let place : Place := ⟨line, indent.length + 1, Span.point (offset + indent.length)⟩
    let marks ← (moved.1.tokens place width).mapError .fault
    let tokens ← Line.tokens offset line cs
    return (marks ++ tokens, moved.2)

/-- The tokens that close a text: a dedent for each open block and the end of input. -/
def closing (layout : Layout) (place : Place) : List Token :=
  (layout.closeAll place).1 ++ [⟨place, .endOfInput, ""⟩]

def ofLines (layout : Layout) (line offset : Nat) (cs : List Char) :
    List (List Char) → Except (Halt ScanFault) (List Token)
  | [] => do
    let (tokens, layout) ← ofLine layout line offset cs
    let stop := offset + Text.byteLength cs
    return tokens ++ closing layout ⟨line, cs.length + 1, Span.point stop⟩
  | next :: later => do
    let (tokens, layout) ← ofLine layout line offset cs
    let stop := offset + Text.byteLength cs
    let lineBreak := ⟨⟨line, cs.length + 1, ← Span.between stop (stop + 1)⟩, .newline, "\n"⟩
    let rest ← ofLines layout (line + 1) (stop + 1) next later
    return tokens ++ lineBreak :: rest

def ofList (cs : List Char) : Except (Halt ScanFault) (List Token) :=
  ofLines {} 1 0 (Text.cut cs).1 (Text.cut cs).2

def ofSource (source : String) : Except (Halt ScanFault) (List Token) :=
  ofList source.toList

end Token

end Splice
