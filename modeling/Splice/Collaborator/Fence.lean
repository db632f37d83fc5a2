import Splice.Text.Blank

/-!
# Code fences

Generated code often comes inside a Markdown fence.
-/

namespace Splice

def fenceMark : List Char := "```".toList

def afterFirstLine (cs : List Char) : List Char :=
  (cs.dropWhile (· ≠ '\n')).drop 1

def dropClosingFence (cs : List Char) : List Char :=
  let body := (Text.dropBlanksEnd cs).reverse
  let body := if fenceMark.isPrefixOf body then body.drop fenceMark.length else body
  (body.dropWhile fun c => c = ' ' || c = '\t').reverse

/-- The code inside a fence, or the text itself if there is none. -/
def unfence (text : String) : String :=
  let trimmed := Text.dropBlanksEnd (Text.dropBlanks text.toList)
  if fenceMark.isPrefixOf trimmed then
    String.ofList (dropClosingFence (afterFirstLine (trimmed.drop fenceMark.length)))
  else
    text

end Splice
