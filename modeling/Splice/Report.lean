import Splice.Session.Basic
import Splice.Text.Lines
import Splice.Text.Slice
import Splice.Text.Spaces

/-!
# Fault reports

A report names the fault and its place, and can show the lines around it with the faulty part
marked.
-/

namespace Splice.Report

structure Style where
  colors : Bool := true
  context : Bool := true
  lines : Nat := 2
  deriving DecidableEq, Repr

namespace Style

def minimal : Style :=
  { colors := false, context := false, lines := 0 }

def verbose : Style :=
  { lines := 5 }

end Style

inductive Paint where
  | fault
  | label
  | rule
  | heading
  | location
  | dim
  | mark
  deriving DecidableEq, Repr

def Paint.codes : Paint → String
  | .fault => "31;1"
  | .label => "1"
  | .rule => "34"
  | .heading => "37;1"
  | .location => "36;1"
  | .dim => "2"
  | .mark => "93;1"

def Style.paint (style : Style) (paint : Paint) (text : String) : String :=
  if style.colors then "\x1b[" ++ paint.codes ++ "m" ++ text ++ "\x1b[0m" else text

inductive Row where
  | near (number : Nat) (text : String)
  /-- The line of the fault, with the column and width of the mark and the marked text. -/
  | marked (number : Nat) (text : String) (column width : Nat) (subject : String)
  /-- The line after the last one, where a fault at the end of the input may be. -/
  | beyond (number : Nat)
  deriving DecidableEq, Repr

/-- The part of the source that a span covers; a span that cuts through a character covers
nothing. -/
def covered (span : Span) (source : String) : List Char :=
  (Text.slice? span.start span.stop source.toList).getD []

def markedRow (place : Place) (source : String) (number : Nat) (text : String) : Row :=
  let part := covered place.span source
  .marked number text place.column (max part.length 1) (Text.trim (String.ofList part))

/-- Line numbers are added in sixty-four bits, and a sum past them starts over. -/
def addressLimit : Nat := 18446744073709551616

def excerpt (place : Place) (source : String) (context : Nat) : List Row :=
  let rows := Text.rows source
  let first := max (place.line - context) 1
  let last := min ((place.line + context) % addressLimit) rows.length
  let shown := (List.range' first (last + 1 - first)).map fun number =>
    let text := rows.getD (number - 1) ""
    if number = place.line then markedRow place source number text else .near number text
  shown ++ (if rows.length < place.line then [.beyond place.line] else [])

def numberColumn (n : Nat) : String :=
  let digits := toString n
  Text.spaces (5 - digits.length) ++ digits

def numbered (number : Nat) (text : String) : String :=
  "  |" ++ numberColumn number ++ " | " ++ text ++ "\n"

def Row.render (style : Style) : Row → String
  | .near number text => numbered number (style.paint .dim text)
  | .marked number text column width subject =>
    numbered number text ++
      "  |      | " ++ Text.spaces (column - 1) ++
      style.paint .mark (String.ofList (List.replicate width '^')) ++ "\n" ++
      "  |      +-- " ++ style.paint .mark "Here" ++ ": " ++
      (if subject.isEmpty then "Error at this location" else "Error at '" ++ subject ++ "'") ++ "\n"
  | .beyond number => numbered number ""

def ruleLine (style : Style) : String :=
  "  " ++ style.paint .rule "|" ++ "\n"

def locationText (file : Option String) (place : Place) : String :=
  (match file with
    | some name => name ++ ":"
    | none => "line ") ++ toString place.line ++ ":" ++ toString place.column

def located (style : Style) (place : Place) (source : String) (file : Option String) : String :=
  let context :=
    if style.context then
      ruleLine style ++
        String.join ((excerpt place source style.lines).map (Row.render style)) ++ ruleLine style
    else ""
  ruleLine style ++ "  +--> " ++ style.paint .location "Location" ++ ": " ++
    locationText file place ++ "\n" ++ context

def render (style : Style) (fault : Fault) (source : String) (file : Option String) : String :=
  style.paint .fault "Error" ++ ": " ++ style.paint .label fault.label.text ++ "\n" ++
    ruleLine style ++
    "  " ++ style.paint .rule "|" ++ " " ++ style.paint .heading "Message" ++ ": " ++
    fault.message ++ "\n" ++
    (match fault.place? with
      | some place => located style place source file
      | none => "")

end Splice.Report
