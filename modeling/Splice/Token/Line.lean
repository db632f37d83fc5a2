import Splice.Text.Lines
import Splice.Token.Basic

/-!
# Scanning one line

At each position the longest stretch that some rule matches is taken.  The rules never compete for
one first character, except that `==` goes before `=`.  Gaps and comments are dropped.
-/

namespace Splice.Line

def isGap (c : Char) : Bool :=
  c == ' ' || c == '\t' || c == '\r' || c == '\x0c'

def isWordStart (c : Char) : Bool :=
  c.isAlpha || c == '_'

def isWordPart (c : Char) : Bool :=
  c.isAlphanum || c == '_' || c == '.'

def isQuote (c : Char) : Bool :=
  c == '"' || c == '\''

/-- What a stretch of a line stands for. -/
inductive Stretch where
  | gap
  | comment
  | token (kind : Kind) (text : List Char)
  deriving DecidableEq, Repr

/-- The tokens of a stretch between two offsets.  The span of a comment is taken as well, and only
then is the comment dropped. -/
def Stretch.tokens (line column start stop : Nat) :
    Stretch → Except (Halt ScanFault) (List Token)
  | .gap => .ok []
  | .comment => (Span.between start stop).map fun _ => []
  | .token kind text =>
    (Span.between start stop).map fun span => [⟨⟨line, column, span⟩, kind, String.ofList text⟩]

def symbol? : Char → Option Kind
  | '+' => some (.operator .add)
  | '-' => some (.operator .sub)
  | '*' => some (.operator .mul)
  | '/' => some (.operator .div)
  | '<' => some (.operator .less)
  | '>' => some (.operator .greater)
  | '=' => some .assign
  | '(' => some .leftParen
  | ')' => some .rightParen
  | ',' => some .comma
  | ':' => some .colon
  | _ => none

/-- The longest stretch at a position whose first character is `c`, with the number of characters
it takes after `c`. -/
def munch (c : Char) (cs : List Char) : Option (Stretch × Nat) :=
  if isGap c then
    some (.gap, (cs.takeWhile isGap).length)
  else if c = '#' then
    some (.comment, (cs.takeWhile (· ≠ '\n')).length)
  else if isWordStart c then
    let word := c :: cs.takeWhile isWordPart
    some (.token (Kind.ofWord (String.ofList word)) word, word.length - 1)
  else if c.isDigit then
    let digits := c :: cs.takeWhile Char.isDigit
    some (.token .number digits, digits.length - 1)
  else if isQuote c then
    let body := cs.takeWhile fun d => d ≠ c && d ≠ '\n'
    if cs[body.length]? = some c then some (.token .string body, body.length + 1) else none
  else if c = '=' && cs.head? = some '=' then
    some (.token (.operator .equal) ['=', '='], 1)
  else if c = '!' && cs.head? = some '=' then
    some (.token (.operator .notEqual) ['!', '='], 1)
  else
    (symbol? c).map fun kind => (.token kind [c], 0)

/-- How a position where nothing matches ends the scan: an open string runs to the end of the
line. -/
def fault (line column offset : Nat) (c : Char) (cs : List Char) : Halt ScanFault :=
  let cause := if isQuote c then .unterminatedString else .unexpectedCharacter c
  let stop := offset + if isQuote c then Text.byteLength (c :: cs) else c.utf8Size
  match Span.between offset stop with
  | .ok span => .fault ⟨cause, line, column, span⟩
  | .error halt => halt

def scan (line column offset : Nat) : List Char → Except (Halt ScanFault) (List Token)
  | [] => .ok []
  | c :: cs =>
    match munch c cs with
    | none => .error (fault line column offset c cs)
    | some (stretch, more) =>
      let stop := offset + Text.byteLength (c :: cs.take more)
      match stretch.tokens line column offset stop with
      | .error halt => .error halt
      | .ok own =>
        match scan line (column + more + 1) stop (cs.drop more) with
        | .error halt => .error halt
        | .ok later => .ok (own ++ later)
termination_by cs => cs.length
decreasing_by simp only [List.length_drop, List.length_cons]; omega

/-- The tokens of a line that starts at a byte offset of its source. -/
def tokens (offset line : Nat) (cs : List Char) : Except (Halt ScanFault) (List Token) :=
  scan line 1 offset cs

end Splice.Line
