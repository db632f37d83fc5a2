import Splice.Token.Basic

/-!
# Parsing faults
-/

namespace Splice.ParseFault

/-- What the grammar calls for at a position. -/
inductive Expected where
  | optimizeColon
  | searchQuery
  | functionName
  | paramsOpen
  | paramName
  | paramsClose
  | bodyColon
  | variableName
  | branchColon
  | otherwiseColon
  | loopColon
  | generatedFunction
  | signatureColon
  | descriptionWord
  | descriptionText
  | libraryName
  | blockNewline
  | blockIndent
  | blockDedent
  | childrenDedent
  | groupClose
  | argsOpen
  | argsClose
  deriving DecidableEq, Repr

def Expected.phrase : Expected → String
  | .optimizeColon => "':' after ai.optimize"
  | .searchQuery => "search query string"
  | .functionName => "function name"
  | .paramsOpen => "'(' after function name"
  | .paramName => "parameter name"
  | .paramsClose => "')' after parameters"
  | .bodyColon => "':' before function body"
  | .variableName => "variable name"
  | .branchColon => "':' after if condition"
  | .otherwiseColon => "':' after else"
  | .loopColon => "':' after while condition"
  | .generatedFunction => "'fn' after generate"
  | .signatureColon => "':' after generated function signature"
  | .descriptionWord => "'description'"
  | .descriptionText => "description string"
  | .libraryName => "module name after ai.import"
  | .blockNewline => "newline before block"
  | .blockIndent => "indentation"
  | .blockDedent => "dedent after block"
  | .childrenDedent => "dedent after children"
  | .groupClose => "')' after expression"
  | .argsOpen => "'('"
  | .argsClose => "')' after arguments"

inductive Cause where
  | expected (what : Expected)
  | unfinishedStatement (found : Kind)
  | unexpectedToken (found : Kind)
  | invalidNumber (text : String)
  | nestingTooDeep (limit : Nat)
  /-- The recursion bound was reached; a parse bounded by the number of its tokens never does. -/
  | boundReached
  | remark (text : String)
  deriving DecidableEq, Repr

def Cause.message : Cause → String
  | .expected what => "Expected " ++ what.phrase
  | .unfinishedStatement found => "Expected newline after statement, found " ++ found.phrase
  | .unexpectedToken found => "Unexpected token " ++ found.phrase
  | .invalidNumber text => "Invalid number '" ++ text ++ "'"
  | .nestingTooDeep limit => "Nesting too deep: more than " ++ toString limit ++ " levels"
  | .boundReached => "Recursion bound reached"
  | .remark text => text

end Splice.ParseFault

namespace Splice

/-- Why a token sequence is no program, with the place and kind of the token where it shows. -/
structure ParseFault where
  cause : ParseFault.Cause
  place : Place
  found : Kind
  deriving DecidableEq, Repr

def ParseFault.message (fault : ParseFault) : String :=
  fault.cause.message ++ " at line " ++ toString fault.place.line

end Splice
