import Splice.Collaborator.Fence
import Splice.Compile
import Splice.Proofs.Token.Shape

/-! A fence around code is dropped, and a text that compiles has no fence. -/
namespace Splice

namespace Text

theorem dropBlanks_append {front cs : List Char} (hfront : ∀ c ∈ front, isBlank c = true)
    (hcs : ∀ c ∈ cs.head?, isBlank c = false) : dropBlanks (front ++ cs) = cs := by
  unfold dropBlanks
  rw [List.dropWhile_append_of_pos hfront]
  cases cs with
  | nil => rfl
  | cons c cs => rw [List.dropWhile_cons_of_neg (by simp [hcs c rfl])]

theorem dropBlanksEnd_append {cs back : List Char} (hcs : ∀ c ∈ cs.getLast?, isBlank c = false)
    (hback : ∀ c ∈ back, isBlank c = true) : dropBlanksEnd (cs ++ back) = cs := by
  have hdrop : (back.reverse ++ cs.reverse).dropWhile isBlank = cs.reverse :=
    dropBlanks_append (by simpa using hback) (by simpa using hcs)
  unfold dropBlanksEnd
  rw [List.reverse_append, hdrop, List.reverse_reverse]

theorem dropBlanksEnd_prefix (cs : List Char) : dropBlanksEnd cs <+: cs := by
  unfold dropBlanksEnd
  rw [← List.reverse_suffix, List.reverse_reverse]
  exact List.dropWhile_suffix _

end Text

/-- A fence to put around code, with the blanks outside of it. -/
structure Fence where
  before : String := ""
  tag : String := ""
  after : String := ""
  before_blank : before.toList.all Text.isBlank = true := by decide
  tag_line : '\n' ∉ tag.toList := by decide
  after_blank : after.toList.all Text.isBlank = true := by decide

def Fence.around (fence : Fence) (code : String) : String :=
  fence.before ++ "```" ++ fence.tag ++ "\n" ++ code ++ "\n```" ++ fence.after

theorem afterFirstLine_append {line : List Char} (hline : '\n' ∉ line) (cs : List Char) :
    afterFirstLine (line ++ '\n' :: cs) = cs := by
  have hother : ∀ c ∈ line, decide (c ≠ '\n') = true := by
    intro c hc
    rw [decide_eq_true_iff]
    rintro rfl
    exact hline hc
  unfold afterFirstLine
  rw [List.dropWhile_append_of_pos hother, List.dropWhile_cons_of_neg (by simp)]
  rfl

theorem visible_of_mem_getLast? {cs : List Char} :
    ∀ c ∈ (cs ++ fenceMark).getLast?, Text.isBlank c = false := by
  intro c hc
  rw [List.getLast?_append_of_ne_nil _ (by decide)] at hc
  cases hc
  rfl

theorem dropClosingFence_append (cs : List Char) :
    dropClosingFence (cs ++ '\n' :: fenceMark) = cs ++ ['\n'] := by
  have htrim : Text.dropBlanksEnd (cs ++ ['\n'] ++ fenceMark ++ []) = cs ++ ['\n'] ++ fenceMark :=
    Text.dropBlanksEnd_append visible_of_mem_getLast? (List.forall_mem_nil _)
  have hreverse : (cs ++ ['\n'] ++ fenceMark).reverse = fenceMark ++ '\n' :: cs.reverse := by
    simp [fenceMark]
  rw [List.append_nil, List.append_assoc, List.singleton_append] at htrim
  rw [List.append_assoc, List.singleton_append] at hreverse
  unfold dropClosingFence
  dsimp only
  rw [htrim, hreverse, if_pos (by simp), List.drop_left,
    List.dropWhile_cons_of_neg (by decide), List.reverse_cons, List.reverse_reverse]

theorem unfence_around (fence : Fence) (code : String) :
    unfence (fence.around code) = code ++ "\n" := by
  have hlist : (fence.around code).toList = fence.before.toList ++ (fenceMark ++
      (fence.tag.toList ++ '\n' :: (code.toList ++ ['\n'])) ++ fenceMark ++
        fence.after.toList) := by
    simp [Fence.around, fenceMark]
  have htrim : Text.dropBlanksEnd (Text.dropBlanks (fence.around code).toList) =
      fenceMark ++ (fence.tag.toList ++ '\n' :: (code.toList ++ '\n' :: fenceMark)) := by
    rw [hlist,
      Text.dropBlanks_append (List.all_eq_true.mp fence.before_blank) (by rintro c ⟨⟩; rfl),
      Text.dropBlanksEnd_append visible_of_mem_getLast? (List.all_eq_true.mp fence.after_blank)]
    simp
  unfold unfence
  dsimp only
  rw [htrim, if_pos (by simp), List.drop_left, afterFirstLine_append fence.tag_line,
    dropClosingFence_append]
  simp

theorem Text.byteLength_le_of_sublist {cs ds : List Char} (h : cs.Sublist ds) :
    byteLength cs ≤ byteLength ds := by
  induction h with
  | slnil => exact Nat.le_refl _
  | cons c _ ih =>
    rw [byteLength_cons]
    exact Nat.le_trans ih (Nat.le_add_left _ _)
  | cons_cons c _ ih =>
    rw [byteLength_cons, byteLength_cons]
    exact Nat.add_le_add_left ih _

theorem utf8ByteSize_unfence_le (text : String) :
    (unfence text).utf8ByteSize ≤ text.utf8ByteSize := by
  have hends (p : Char → Bool) (cs : List Char) : (cs.reverse.dropWhile p).reverse.Sublist cs := by
    rw [← List.reverse_sublist, List.reverse_reverse]
    exact List.dropWhile_sublist p
  have hclosing (cs : List Char) : (dropClosingFence cs).Sublist cs := by
    unfold dropClosingFence
    dsimp only
    rw [← List.reverse_sublist, List.reverse_reverse]
    refine (List.dropWhile_sublist _).trans (List.Sublist.trans ?_ (hends Text.isBlank cs).reverse)
    split
    · exact List.drop_sublist _ _
    · exact List.Sublist.refl _
  unfold unfence
  dsimp only
  split
  · rw [← Text.byteLength_ofList, ← Text.byteLength_toList]
    apply Text.byteLength_le_of_sublist
    refine (hclosing _).trans ((List.drop_sublist _ _).trans ((List.dropWhile_sublist _).trans ?_))
    exact (List.drop_sublist _ _).trans ((hends Text.isBlank _).trans (List.dropWhile_sublist _))
  · exact Nat.le_refl _

theorem compile_ne_crash {source : String} (hsize : source.utf8ByteSize < Span.limit) :
    compile source ≠ .error .crash := by
  unfold compile
  cases hscan : Token.ofSource source with
  | error halt =>
    cases halt with
    | crash => exact absurd hscan (Token.ofSource_ne_crash hsize)
    | fault fault => exact nofun
  | ok tokens =>
    dsimp only
    cases Program.ofTokens tokens <;> exact nofun

theorem unfence_eq_self {text : String} (h : ¬ fenceMark <+: (Text.trim text).toList) :
    unfence text = text := by
  rw [Text.trim, String.toList_ofList, ← List.isPrefixOf_iff_prefix] at h
  exact if_neg h

theorem not_fence_of_head {text : String} {c : Char} {cs : List Char} (h : text.toList = c :: cs)
    (hblank : Text.isBlank c = false) (hc : c ≠ '`') : ¬ fenceMark <+: (Text.trim text).toList := by
  intro hmark
  rw [Text.trim, String.toList_ofList, h, Text.dropBlanks,
    List.dropWhile_cons_of_neg (by simp [hblank])] at hmark
  have hprefix := hmark.trans (Text.dropBlanksEnd_prefix _)
  exact hc (List.cons_prefix_cons.mp hprefix).1.symm

/-- No word starts as a fence does, so a text that compiles is left as it is. -/
theorem unfence_of_compile {source : String} {program : Program}
    (h : compile source = .ok program) : unfence source = source := by
  obtain ⟨tokens, htokens, -⟩ := compile_eq_ok.mp h
  refine unfence_eq_self fun hmark => ?_
  rw [Text.trim, String.toList_ofList] at hmark
  obtain ⟨rest, hfirst⟩ := hmark.trans (Text.dropBlanksEnd_prefix _)
  obtain ⟨more, hmunch⟩ := Token.ofSource_first htokens hfirst.symm
  cases hmunch

end Splice
