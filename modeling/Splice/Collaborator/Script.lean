import Splice.Text.Blank
import Splice.Text.Lines

/-!
# Response scripts

A script holds responses separated by lines of three dashes.
-/

namespace Splice

def isSeparator (row : String) : Bool :=
  Text.trim row == "---"

/-- The responses in the rows of a script, the rows of the first one so far given. -/
def responsesFrom (current : List String) : List String → List String
  | [] => if current.isEmpty then [] else ["\n".intercalate current]
  | row :: rows =>
    if isSeparator row then "\n".intercalate current :: responsesFrom [] rows
    else responsesFrom (current ++ [row]) rows

def splitScript (script : String) : List String :=
  responsesFrom [] (Text.rows script)

end Splice
