import Splice.Proofs.Collaborator.Script
import Splice.Text.Spaces

/-! Texts whose lines are moved to the right.  Spaces in front of every line are spaces at the start
of the text and behind each of its breaks; the indentation that lines have in common is what can be
taken away from all of them. -/
namespace Splice.Text

def indentBreaks (count : Nat) (cs : List Char) : List Char :=
  cs.flatMap fun c => if c = '\n' then '\n' :: List.replicate count ' ' else [c]

/-- A text with so many spaces in front of each of its lines. -/
def indent (count : Nat) (text : String) : String :=
  spaces count ++ String.ofList (indentBreaks count text.toList)

section

variable {count : Nat} {c : Char}

@[simp] theorem indentBreaks_append (cs ds : List Char) :
    indentBreaks count (cs ++ ds) = indentBreaks count cs ++ indentBreaks count ds :=
  List.flatMap_append

@[simp] theorem indentBreaks_break (cs : List Char) :
    indentBreaks count ('\n' :: cs) = '\n' :: (List.replicate count ' ' ++ indentBreaks count cs) :=
  rfl

theorem indentBreaks_cons (hc : c ≠ '\n') (cs : List Char) :
    indentBreaks count (c :: cs) = c :: indentBreaks count cs := by
  rw [indentBreaks, List.flatMap_cons, if_neg hc]
  rfl

theorem indentBreaks_line {cs : List Char} (h : '\n' ∉ cs) : indentBreaks count cs = cs := by
  induction cs with
  | nil => rfl
  | cons c cs ih =>
    rw [List.mem_cons, not_or] at h
    rw [indentBreaks_cons (Ne.symm h.1), ih h.2]

theorem indentBreaks_zero (cs : List Char) : indentBreaks 0 cs = cs := by
  induction cs with
  | nil => rfl
  | cons c cs ih =>
    by_cases hc : c = '\n'
    · subst hc
      rw [indentBreaks_break, List.replicate_zero, List.nil_append, ih]
    · rw [indentBreaks_cons hc, ih]

theorem newline_notMem_spaces (count : Nat) : '\n' ∉ List.replicate count ' ' :=
  fun h => absurd (List.eq_of_mem_replicate h) (by decide)

theorem cut_indentBreaks (cs : List Char) :
    cut (indentBreaks count cs) = ((cut cs).1, (cut cs).2.map (List.replicate count ' ' ++ ·)) := by
  induction cs with
  | nil => rfl
  | cons c cs ih =>
    by_cases hc : c = '\n'
    · subst hc
      have hline := cut_append (newline_notMem_spaces count) (indentBreaks count cs)
      rw [ih] at hline
      change ([], (cut (List.replicate count ' ' ++ indentBreaks count cs)).1 ::
        (cut (List.replicate count ' ' ++ indentBreaks count cs)).2) = _
      rw [hline]
      rfl
    · rw [indentBreaks_cons hc, cut_cons hc, cut_cons hc, ih]

theorem lines_indent (count : Nat) (text : String) :
    lines (indent count text) = (lines text).map (spaces count ++ ·) := by
  have hcut := cut_append (newline_notMem_spaces count) (indentBreaks count text.toList)
  rw [cut_indentBreaks] at hcut
  have hpieces : pieces (indent count text).toList =
      (pieces text.toList).map (List.replicate count ' ' ++ ·) := by
    rw [indent, String.toList_append, toList_spaces, String.toList_ofList, pieces, hcut]
    rfl
  have hline : String.ofList ∘ (List.replicate count ' ' ++ ·) =
      (spaces count ++ ·) ∘ String.ofList := by
    funext piece
    exact String.ofList_append
  rw [lines, hpieces, List.map_map, hline, lines, List.map_map]

end

theorem lines_break (s t : String) : lines (s ++ "\n" ++ t) = lines s ++ lines t := by
  have htext : (s ++ "\n" ++ t).toList = s.toList ++ '\n' :: t.toList := by
    simp [String.toList_append]
  rw [lines, htext, pieces_break, List.map_append]
  rfl

def margin (line : String) : Nat :=
  (line.toList.takeWhile (· == ' ')).length

def commonMargin (lines : List String) : Nat :=
  (lines.map margin).min?.getD 0

def dedent (lines : List String) : List String :=
  lines.map fun line => String.ofList (line.toList.drop (commonMargin lines))

theorem margin_spaces (count : Nat) (line : String) :
    margin (spaces count ++ line) = count + margin line := by
  have hspaces : ∀ c ∈ List.replicate count ' ', (c == ' ') = true := by
    intro c hc
    rw [List.eq_of_mem_replicate hc]
    rfl
  rw [margin, String.toList_append, toList_spaces, List.takeWhile_append_of_pos hspaces,
    List.length_append, List.length_replicate]
  rfl

/-- Spaces in front of lines that are not all indented are what the lines have in common. -/
theorem dedent_spaces {lines : List String} (h : ∀ line ∈ lines.head?, margin line = 0)
    (count : Nat) : dedent (lines.map (spaces count ++ ·)) = lines := by
  cases lines with
  | nil => rfl
  | cons first more =>
    have hfirst : margin first = 0 := h first rfl
    have hcommon : commonMargin ((first :: more).map (spaces count ++ ·)) = count := by
      have hmin : (((first :: more).map (spaces count ++ ·)).map margin).min? = some count := by
        rw [List.min?_eq_some_iff, List.map_map]
        refine ⟨List.mem_map.mpr ⟨first, List.mem_cons_self, ?_⟩, ?_⟩
        · rw [Function.comp_apply, margin_spaces, hfirst, Nat.add_zero]
        · rintro width hwidth
          obtain ⟨line, -, rfl⟩ := List.mem_map.mp hwidth
          rw [Function.comp_apply, margin_spaces]
          exact Nat.le_add_right count _
      rw [commonMargin, hmin, Option.getD_some]
    have hdrop (line : String) :
        String.ofList ((spaces count ++ line).toList.drop count) = line := by
      rw [String.toList_append, toList_spaces, List.drop_left' List.length_replicate,
        String.ofList_toList]
    rw [dedent, hcommon, List.map_map]
    exact List.map_id'' hdrop _

end Splice.Text
