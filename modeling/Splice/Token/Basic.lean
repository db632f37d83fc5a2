import Splice.Text.Place
import Splice.Token.Kind

/-!
# Tokens and scanning faults
-/

namespace Splice

/-- A token at its place.  The text of a string token is what stands between its quotes. -/
structure Token extends Place where
  kind : Kind
  text : String
  deriving DecidableEq, Repr

inductive ScanFault.Cause where
  | unexpectedCharacter (c : Char)
  | unterminatedString
  | indentMismatch (expected found : Nat)
  deriving DecidableEq, Repr

/-- Why a text has no token sequence, and where. -/
structure ScanFault where
  cause : ScanFault.Cause
  place : Place
  deriving DecidableEq, Repr

def ScanFault.message (fault : ScanFault) : String :=
  match fault.cause with
  | .unexpectedCharacter c =>
      "Unexpected character '" ++ c.toString ++ "' at line " ++ toString fault.place.line
  | .unterminatedString => "Unterminated string literal at line " ++ toString fault.place.line
  | .indentMismatch expected found =>
      "Indentation error at line " ++ toString fault.place.line ++ ". Expected " ++
        toString expected ++ " but got " ++ toString found ++ "."

end Splice
