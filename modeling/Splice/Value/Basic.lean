import Splice.Decimal.Text
import Splice.Text.Quoted
import Splice.Token.Kind

/-!
# Values
-/

namespace Splice

inductive Builtin where
  | print
  | draw (widget : Widget)
  | ask
  | remember
  deriving DecidableEq, Repr

namespace Builtin

def name : Builtin → String
  | .print => "print"
  | .draw widget => widget.name
  | .ask => "ai_ask"
  | .remember => "ai_remember"

def all : List Builtin :=
  [.print, .draw .box, .draw .text, .draw .button, .ask, .remember]

end Builtin

inductive Value where
  | number (value : Float)
  | text (value : String)
  | bool (value : Bool)
  /-- The value of a binding without an initialiser and of a bare return. -/
  | null
  /-- The value of a missing argument, of a call that returns nothing, and of a widget. -/
  | undefined
  | builtin (builtin : Builtin)
  deriving DecidableEq

/-- The sort of a value, as messages name it. -/
inductive ValueType where
  | number
  | text
  | bool
  | null
  | undefined
  | builtin
  deriving DecidableEq, Repr

def ValueType.name : ValueType → String
  | .number => "number"
  | .text => "text"
  | .bool => "bool"
  | .null => "null"
  | .undefined => "undefined"
  | .builtin => "builtin"

namespace Value

def type : Value → ValueType
  | .number _ => .number
  | .text _ => .text
  | .bool _ => .bool
  | .null => .null
  | .undefined => .undefined
  | .builtin _ => .builtin

def display : Value → String
  | .number x => Decimal.text x
  | .text s => s
  | .bool true => "true"
  | .bool false => "false"
  | .null => "null"
  | .undefined => "undefined"
  | .builtin b => "<builtin " ++ b.name ++ ">"

/-- The text that describes a value: like its display, with texts quoted. -/
def describe : Value → String
  | .text s => Text.quoted s
  | v => v.display

def holds : Value → Bool
  | .bool b => b
  | .number x => !(x == 0) && !x.isNaN
  | .text s => !s.isEmpty
  | .null | .undefined => false
  | .builtin _ => true

/-- Strict equality: no value equals one of another sort, and not-a-number equals nothing. -/
def same : Value → Value → Bool
  | .number x, .number y => x == y
  | .text s, .text t => s == t
  | .bool a, .bool b => a == b
  | .null, .null => true
  | .undefined, .undefined => true
  | .builtin a, .builtin b => a == b
  | _, _ => false

end Value

inductive OperandFault where
  | types (op : Operator) (left right : ValueType)
  | divisionByZero
  deriving DecidableEq, Repr

namespace Value

/-- Apply an operator.  A sum with a text joins the displays of both sides, other arithmetic
needs two numbers, and order needs two numbers or two texts. -/
def binary (op : Operator) (left right : Value) : Except OperandFault Value :=
  match op, left, right with
  | .add, .number x, .number y => .ok (.number (x + y))
  | .add, .text _, _ | .add, _, .text _ => .ok (.text (left.display ++ right.display))
  | .sub, .number x, .number y => .ok (.number (x - y))
  | .mul, .number x, .number y => .ok (.number (x * y))
  | .div, .number x, .number y =>
    if y == 0 then .error .divisionByZero else .ok (.number (x / y))
  | .less, .number x, .number y => .ok (.bool (x < y))
  | .less, .text s, .text t => .ok (.bool (s < t))
  | .greater, .number x, .number y => .ok (.bool (y < x))
  | .greater, .text s, .text t => .ok (.bool (t < s))
  | .equal, _, _ => .ok (.bool (left.same right))
  | .notEqual, _, _ => .ok (.bool (!left.same right))
  | _, _, _ => .error (.types op left.type right.type)

end Value

end Splice
