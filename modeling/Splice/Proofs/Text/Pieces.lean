import Mathlib.Data.List.TakeWhile
import Splice.Text.Lines

/-! The pieces of a text between its breaks, and the lengths of texts in bytes. -/
namespace Splice.Text

theorem cut_cons {c : Char} (hc : c ≠ '\n') (cs : List Char) :
    cut (c :: cs) = (c :: (cut cs).1, (cut cs).2) := by
  change (if c = '\n' then _ else _) = _
  exact if_neg hc

theorem cut_append {piece : List Char} (hpiece : '\n' ∉ piece) (cs : List Char) :
    cut (piece ++ cs) = (piece ++ (cut cs).1, (cut cs).2) := by
  induction piece with
  | nil => rfl
  | cons c piece ih =>
    have hc : c ≠ '\n' := fun heq => hpiece (heq ▸ List.mem_cons_self)
    have htail : '\n' ∉ piece := fun hmem => hpiece (List.mem_cons_of_mem _ hmem)
    rw [List.cons_append, cut_cons hc, ih htail]
    rfl

theorem cut_break (cs ds : List Char) :
    cut (cs ++ '\n' :: ds) = ((cut cs).1, (cut cs).2 ++ (cut ds).1 :: (cut ds).2) := by
  induction cs with
  | nil => rfl
  | cons c cs ih =>
    by_cases hc : c = '\n'
    · subst hc
      change ([], (cut (cs ++ '\n' :: ds)).1 :: (cut (cs ++ '\n' :: ds)).2) =
        ([], ((cut cs).1 :: (cut cs).2) ++ (cut ds).1 :: (cut ds).2)
      rw [ih]
      rfl
    · rw [List.cons_append, cut_cons hc, cut_cons hc, ih]

theorem cut_line {line : List Char} (hline : '\n' ∉ line) : cut line = (line, []) := by
  have hcut := cut_append hline []
  rwa [List.append_nil, show cut [] = ([], []) from rfl, List.append_nil] at hcut

theorem cut_line_break {line : List Char} (hline : '\n' ∉ line) (cs : List Char) :
    cut (line ++ '\n' :: cs) = (line, (cut cs).1 :: (cut cs).2) := by
  rw [cut_break, cut_line hline]
  rfl

theorem cut_first {line : String} (hline : '\n' ∉ line.toList) (rest : String) :
    cut (line ++ "\n" ++ rest).toList =
      (line.toList, (cut rest.toList).1 :: (cut rest.toList).2) := by
  rw [String.toList_append, String.toList_append, List.append_assoc]
  exact cut_line_break hline rest.toList

theorem head?_cut {cs : List Char} {c : Char} (h : (cut cs).1.head? = some c) :
    cs.head? = some c := by
  cases cs with
  | nil => exact h
  | cons d cs =>
    by_cases hd : d = '\n'
    · subst hd
      cases h
    · rw [cut_cons hd] at h
      exact h

theorem cut_flatMap (cs : List Char) : (cut cs).1 ++ (cut cs).2.flatMap ('\n' :: ·) = cs := by
  induction cs with
  | nil => rfl
  | cons c cs ih =>
    by_cases hc : c = '\n'
    · subst hc
      change [] ++ ('\n' :: (cut cs).1 ++ (cut cs).2.flatMap ('\n' :: ·)) = _
      rw [List.nil_append, List.cons_append, ih]
    · rw [cut_cons hc, List.cons_append, ih]

theorem newline_notMem_cut (cs : List Char) : ∀ piece ∈ pieces cs, '\n' ∉ piece := by
  induction cs with
  | nil => simp [pieces, cut]
  | cons c cs ih =>
    unfold pieces at ih ⊢
    by_cases hc : c = '\n'
    · subst hc
      change ∀ piece ∈ [] :: (cut cs).1 :: (cut cs).2, '\n' ∉ piece
      simpa using ih
    · rw [cut_cons hc]
      simp only [List.forall_mem_cons] at ih ⊢
      exact ⟨by simpa [Ne.symm hc] using ih.1, ih.2⟩

@[simp] theorem byteLength_nil : byteLength [] = 0 := rfl

theorem byteLength_cons (c : Char) (cs : List Char) :
    byteLength (c :: cs) = c.utf8Size + byteLength cs := rfl

theorem byteLength_append (cs ds : List Char) :
    byteLength (cs ++ ds) = byteLength cs + byteLength ds := by
  induction cs with
  | nil => exact (Nat.zero_add _).symm
  | cons c cs ih => rw [List.cons_append, byteLength_cons, ih, byteLength_cons, Nat.add_assoc]

theorem byteLength_lt_of_append {cs ds : List Char} {bound : Nat}
    (h : byteLength (cs ++ ds) < bound) : byteLength cs < bound := by
  rw [byteLength_append] at h
  exact Nat.lt_of_le_of_lt (Nat.le_add_right _ _) h

theorem byteLength_ofList (cs : List Char) : byteLength cs = (String.ofList cs).utf8ByteSize := by
  induction cs with
  | nil => simp [byteLength]
  | cons c cs ih =>
    have hsplit : String.ofList (c :: cs) = String.singleton c ++ String.ofList cs := by
      rw [String.singleton_eq_ofList, ← String.ofList_append]
      rfl
    rw [byteLength_cons, ih, hsplit, String.utf8ByteSize_append, String.utf8ByteSize_singleton]

theorem byteLength_toList (text : String) : byteLength text.toList = text.utf8ByteSize := by
  rw [byteLength_ofList, String.ofList_toList]

end Splice.Text

namespace Splice.Line

theorem take_takeWhile (p : Char → Bool) (cs : List Char) :
    cs.take (cs.takeWhile p).length = cs.takeWhile p :=
  (List.prefix_iff_eq_take.mp (List.takeWhile_prefix p)).symm

theorem drop_takeWhile (p : Char → Bool) (cs : List Char) :
    cs.drop (cs.takeWhile p).length = cs.dropWhile p := by
  have hdrop : (cs.takeWhile p ++ cs.dropWhile p).drop (cs.takeWhile p).length = cs.dropWhile p :=
    List.drop_left
  rwa [List.takeWhile_append_dropWhile] at hdrop

theorem head?_dropWhile {p : Char → Bool} {cs : List Char} {c : Char}
    (h : c ∈ (cs.dropWhile p).head?) : p c = false := by
  have hnot := List.head?_dropWhile_not p cs
  rw [h] at hnot
  simpa using hnot

end Splice.Line
