import Splice.Text.Quoted
import Splice.Token.Basic

/-!
# Token listings
-/

namespace Splice

/-- One line of a token listing: place, kind and quoted text. -/
def Token.describe (token : Token) : String :=
  toString token.line ++ ":" ++ toString token.column ++ " " ++ token.kind.name ++ " " ++
    Text.quoted token.text

end Splice
