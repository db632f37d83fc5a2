import Splice.Emit.Cpp
import Splice.Proofs.Decimal.Whole
import Splice.Proofs.Token.Words

/-! Lexemes of C++ text.  Only what can stand in an expression has a lexeme: a run of symbols that
is not one operator by itself, such as the start of a comment, has none, and neither has a literal
that is open at the end of its line.  A name is taken together with its dots. -/
namespace Splice.Cpp

open Splice.Line (isWordStart isWordPart Closed)

inductive Bracket where
  | round
  | square
  | curly
  deriving DecidableEq

inductive Lexeme where
  | name (text : String)
  | number (value : Float)
  | literal (text : String)
  | operator (op : Operator)
  | ampersand
  | comma
  | semicolon
  | opening (bracket : Bracket)
  | closing (bracket : Bracket)
  deriving DecidableEq

/-- Whether digits are a number in base ten: after a zero they would be in base eight. -/
def isDecimal (digits : List Char) : Bool :=
  digits.all Char.isDigit && (digits == ['0'] || digits.head? != some '0')

def unescape? : Char → Option Char
  | '\\' => some '\\'
  | '"' => some '"'
  | 'n' => some '\n'
  | 't' => some '\t'
  | 'r' => some '\r'
  | _ => none

/-- The text of a literal after its opening quote, with the number of characters up to and including
the closing one. -/
def quoted? : List Char → Option (List Char × Nat)
  | [] => none
  | '"' :: _ => some ([], 1)
  | '\n' :: _ => none
  | '\\' :: [] => none
  | '\\' :: c :: cs => do
    let d ← unescape? c
    let (text, more) ← quoted? cs
    return (d :: text, more + 2)
  | c :: cs => do
    let (text, more) ← quoted? cs
    return (c :: text, more + 1)

def isSymbol (c : Char) : Bool :=
  c ∈ ['+', '-', '*', '/', '%', '<', '>', '=', '!', '&', '|', '^', '~', '?', ':']

def symbol? : List Char → Option Lexeme
  | ['+'] => some (.operator .add)
  | ['-'] => some (.operator .sub)
  | ['*'] => some (.operator .mul)
  | ['/'] => some (.operator .div)
  | ['<'] => some (.operator .less)
  | ['>'] => some (.operator .greater)
  | ['=', '='] => some (.operator .equal)
  | ['!', '='] => some (.operator .notEqual)
  | ['&'] => some .ampersand
  | _ => none

def mark? : Char → Option Lexeme
  | '(' => some (.opening .round)
  | ')' => some (.closing .round)
  | '[' => some (.opening .square)
  | ']' => some (.closing .square)
  | '\x7b' => some (.opening .curly)
  | '\x7d' => some (.closing .curly)
  | ',' => some .comma
  | ';' => some .semicolon
  | _ => none

/-- The lexeme at a position whose first character is `c`, with the number of characters that it
takes after `c`; a blank has no lexeme. -/
def munch (c : Char) (cs : List Char) : Option (Option Lexeme × Nat) :=
  if c.isWhitespace then some (none, 0)
  else if isWordStart c then
    let word := c :: cs.takeWhile isWordPart
    some (some (.name (String.ofList word)), word.length - 1)
  else if c.isDigit then
    let word := c :: cs.takeWhile isWordPart
    if isDecimal word then
      (Decimal.read? (String.ofList word)).map fun value => (some (.number value), word.length - 1)
    else none
  else if c = '"' then
    (quoted? cs).map fun (text, more) => (some (.literal (String.ofList text)), more)
  else if isSymbol c then
    let run := c :: cs.takeWhile isSymbol
    (symbol? run).map fun lexeme => (some lexeme, run.length - 1)
  else (mark? c).map fun lexeme => (some lexeme, 0)

def lexemes : List Char → Option (List Lexeme)
  | [] => some []
  | c :: cs =>
    match munch c cs with
    | none => none
    | some (lexeme, more) => (lexemes (cs.drop more)).map (lexeme.toList ++ ·)
termination_by cs => cs.length
decreasing_by simp only [List.length_drop, List.length_cons]; omega

/-- Whether brackets are closed in the order in which they were opened, when some are open
already. -/
def balanced : List Bracket → List Lexeme → Bool
  | outer, [] => outer.isEmpty
  | outer, .opening bracket :: ls => balanced (bracket :: outer) ls
  | [], .closing _ :: _ => false
  | inner :: outer, .closing bracket :: ls => inner == bracket && balanced outer ls
  | outer, _ :: ls => balanced outer ls

theorem isWhitespace_of_isWordPart {c : Char} (h : isWordPart c = true) :
    c.isWhitespace = false := by
  cases hblank : c.isWhitespace with
  | false => rfl
  | true =>
    simp only [Char.isWhitespace, Bool.or_eq_true, decide_eq_true_eq] at hblank
    rcases hblank with ((rfl | rfl) | rfl) | rfl <;> cases h

theorem head?_numeral {n : Nat} (hn : 0 < n) : (Decimal.numeral n).head? ≠ some '0' := by
  induction n using Nat.strongRecOn with
  | ind n ih =>
    unfold Decimal.numeral at ih ⊢
    by_cases hsmall : n < 10
    · rw [Nat.toDigits_of_lt_base hsmall]
      simp [hn.ne']
    · rw [Nat.toDigits_of_base_le (by decide) (by omega),
        List.head?_append_of_ne_nil _ Nat.toDigits_ne_nil]
      exact ih (n / 10) (by omega) (by omega)

theorem isDecimal_numeral (n : Nat) : isDecimal (Decimal.numeral n) = true := by
  rw [isDecimal, Bool.and_eq_true, Bool.or_eq_true]
  refine ⟨List.all_eq_true.mpr (Decimal.isDigit_of_mem_numeral n), ?_⟩
  rcases Nat.eq_zero_or_pos n with rfl | hn
  · exact .inl rfl
  · exact .inr (by simpa using head?_numeral hn)

theorem quoted?_escaped (text cs : List Char) :
    quoted? (text.flatMap escapeChar ++ '"' :: cs) =
      some (text, (text.flatMap escapeChar).length + 1) := by
  induction text with
  | nil => rfl
  | cons c text ih =>
    rw [List.flatMap_cons, List.append_assoc]
    by_cases hspecial : c = '\\' ∨ c = '"' ∨ c = '\n' ∨ c = '\t' ∨ c = '\r'
    · rcases hspecial with rfl | rfl | rfl | rfl | rfl <;>
        simp [escapeChar, quoted?, unescape?, ih]
    · simp only [not_or] at hspecial
      simp [escapeChar, quoted?, hspecial, ih]

def Lexed (cs : List Char) (ls : List Lexeme) : Prop :=
  lexemes cs = some ls

namespace Lexed

variable {c : Char} {cs : List Char} {ls : List Lexeme}

theorem nil : Lexed [] [] := by
  rw [Lexed, lexemes]

theorem munched {lexeme : Option Lexeme} {more : Nat} (hmunch : munch c cs = some (lexeme, more))
    (h : Lexed (cs.drop more) ls) : Lexed (c :: cs) (lexeme.toList ++ ls) := by
  rw [Lexed, lexemes, hmunch]
  simp only [show lexemes (cs.drop more) = some ls from h, Option.map_some]

theorem blank (hc : c.isWhitespace = true) (h : Lexed cs ls) : Lexed (c :: cs) ls :=
  @munched c cs ls none 0 (if_pos hc) h

theorem spaces (h : Lexed cs ls) (count : Nat) : Lexed (List.replicate count ' ' ++ cs) ls := by
  induction count with
  | zero => exact h
  | succ count ih => exact blank rfl ih

theorem mark {lexeme : Lexeme} (hc : mark? c = some lexeme) (h : Lexed cs ls) :
    Lexed (c :: cs) (lexeme :: ls) := by
  have hmunch : munch c cs = some (some lexeme, 0) := by
    unfold mark? at hc
    split at hc <;> cases hc <;> rfl
  exact munched hmunch h

theorem word {word : String} (hword : Line.isWordText word = true) (hclosed : Closed cs)
    (h : Lexed cs ls) : Lexed (word.toList ++ cs) (.name word :: ls) := by
  obtain ⟨c, rest, rfl, hc, hrest⟩ := Line.exists_of_isWordText hword
  have hmunch : munch c (rest ++ cs) =
      some (some (.name (String.ofList (c :: rest))), rest.length) := by
    unfold munch
    rw [if_neg (by simp [isWhitespace_of_isWordPart (Line.isWordPart_of_isWordStart hc)]),
      if_pos hc, Line.takeWhile_stretch hrest hclosed]
    rfl
  rw [String.toList_ofList]
  refine munched hmunch ?_
  rw [List.drop_left]
  exact h

theorem number {x : Float} (hx : Decimal.isNatural x = true) (hclosed : Closed cs)
    (h : Lexed cs ls) : Lexed ((Decimal.text x).toList ++ cs) (.number x :: ls) := by
  obtain ⟨n, htext, -⟩ := Decimal.text_of_isNatural hx
  have hread := Decimal.read?_text hx
  rw [htext] at hread ⊢
  rw [String.toList_ofList]
  have hdecimal := isDecimal_numeral n
  have hdigits := Decimal.isDigit_of_mem_numeral n
  cases hnumeral : Decimal.numeral n with
  | nil => exact absurd hnumeral (Decimal.numeral_ne_nil n)
  | cons c rest =>
    rw [hnumeral] at hread hdecimal hdigits
    obtain ⟨-, -, hstart, hpart⟩ := Line.isDigit_class (hdigits c List.mem_cons_self)
    have hmunch : munch c (rest ++ cs) = some (some (.number x), rest.length) := by
      unfold munch
      rw [if_neg (by simp [isWhitespace_of_isWordPart hpart]), if_neg (by simp [hstart]),
        if_pos (hdigits c List.mem_cons_self), Line.takeWhile_stretch (fun d hd =>
          (Line.isDigit_class (hdigits d (List.mem_cons_of_mem c hd))).2.2.2) hclosed,
        if_pos hdecimal, hread]
      rfl
    refine munched hmunch ?_
    rw [List.drop_left]
    exact h

theorem literal (text : String) (h : Lexed cs ls) :
    Lexed ('"' :: ((escape text).toList ++ '"' :: cs)) (.literal text :: ls) := by
  have hmunch : munch '"' ((escape text).toList ++ '"' :: cs) =
      some (some (.literal text), (escape text).toList.length + 1) := by
    rw [escape, String.toList_ofList]
    change Option.map _ _ = _
    rw [quoted?_escaped, Option.map_some]
    simp only [String.ofList_toList]
  refine munched hmunch ?_
  rw [← List.drop_drop, List.drop_left]
  exact h

theorem operator (op : Operator) (h : Lexed cs ls) :
    Lexed (op.symbol.toList ++ ' ' :: cs) (.operator op :: ls) := by
  have hblank : Lexed (' ' :: cs) ls := blank rfl h
  cases op
  case equal | notEqual => exact @munched _ _ ls (some (.operator _)) 1 rfl hblank
  all_goals exact @munched _ _ ls (some (.operator _)) 0 rfl hblank

end Lexed

end Splice.Cpp
