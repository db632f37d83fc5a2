import Splice.Emit.Cpp
import Splice.Emit.Wat

/-!
# Targets
-/

namespace Splice

inductive Target where
  | wat
  | cpp
  deriving DecidableEq, Repr

namespace Target

def extension : Target → String
  | .wat => "wat"
  | .cpp => "cpp"

def ofName? : String → Option Target
  | "wat" => some .wat
  | "cpp" => some .cpp
  | _ => none

def emit (target : Target) (program : Program) : Except EmitFault String :=
  match target with
  | .wat => (Wat.Module.ofProgram program).map Wat.Module.render
  | .cpp => .ok (Cpp.unit program)

end Target

end Splice
