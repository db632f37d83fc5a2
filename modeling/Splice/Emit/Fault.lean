import Splice.Decimal.Text

/-!
# Emission faults
-/

namespace Splice

/-- Constructs that the stack machine has no code for. -/
inductive Construct where
  | nestedFunction (name : String)
  | textLiteral (text : String)
  | variableRead (name : String)
  | undeclaredCall (name : String)
  | arity (name : String) (given expected : Nat)
  deriving DecidableEq, Repr

def Construct.phrase : Construct → String
  | .nestedFunction name => "nested function '" ++ name ++ "'"
  | .textLiteral text => "string literal \"" ++ text ++ "\""
  | .variableRead name => "read of variable '" ++ name ++ "'"
  | .undeclaredCall name => "call to undeclared function '" ++ name ++ "'"
  | .arity name given expected =>
    "call to '" ++ name ++ "' with " ++ toString given ++ " argument(s), expected " ++
      toString expected

inductive EmitFault where
  | unsupported (construct : Construct)
  | numberOutOfRange (value : Float)
  deriving DecidableEq

def EmitFault.message : EmitFault → String
  | .unsupported construct => "Unsupported by the wat backend: " ++ construct.phrase
  | .numberOutOfRange value =>
    "Number " ++ Decimal.text value ++ " does not fit the target's integer type"

end Splice
