/-!
# Runs of spaces
-/

namespace Splice.Text

def spaces (count : Nat) : String :=
  String.ofList (List.replicate count ' ')

@[simp] theorem toList_spaces (count : Nat) : (spaces count).toList = List.replicate count ' ' :=
  String.toList_ofList

end Splice.Text
