import Splice.Proofs.Text.Rows
import Splice.Collaborator.Script

/-! Scripts read back.  Responses that are joined by separators come back one by one, and no
response that comes out of a script has a separator in it. -/
namespace Splice

namespace Text

theorem pieces_eq_splitOn (cs : List Char) : pieces cs = cs.splitOn '\n' := by
  induction cs with
  | nil => rfl
  | cons c cs ih =>
    rw [List.splitOn_eq_splitOnP, List.splitOnP_cons_eq_if_modifyHead, ← List.splitOn_eq_splitOnP,
      ← ih]
    by_cases hc : c = '\n'
    · subst hc
      rfl
    · rw [if_neg (by simpa using hc), pieces, cut_cons hc]
      rfl

def lines (s : String) : List String :=
  (pieces s.toList).map String.ofList

theorem intercalate_lines (s : String) : "\n".intercalate (lines s) = s := by
  rw [← String.toList_inj, String.toList_intercalate, lines, List.map_map]
  have hid : String.toList ∘ String.ofList = id := by
    funext cs
    exact String.toList_ofList
  rw [hid, List.map_id, pieces_eq_splitOn]
  exact List.intercalate_splitOn '\n'

theorem mem_of_mem_pieces {cs piece : List Char} (hpiece : piece ∈ pieces cs) {c : Char}
    (hc : c ∈ piece) : c ∈ cs := by
  rw [← cut_flatMap cs]
  rcases List.mem_cons.mp hpiece with rfl | hlater
  · exact List.mem_append_left _ hc
  · exact List.mem_append_right _ (List.mem_flatMap.mpr ⟨piece, hlater, List.mem_cons_of_mem _ hc⟩)

theorem getLast?_pieces (cs : List Char) : (pieces cs).getLast? = some (lastLine cs) := by
  have hlast := getElem?_pieces cs []
  rw [List.append_nil] at hlast
  rw [List.getLast?_eq_getElem?, length_pieces, Nat.add_sub_cancel, hlast, lineAround,
    List.takeWhile_nil, List.append_nil]

/-- Only an empty text, or one that ends in a break, has an empty last line. -/
theorem lastLine_ne_nil {cs : List Char} {c : Char} (hlast : cs.getLast? = some c)
    (hc : c ≠ '\n') : lastLine cs ≠ [] := by
  intro hempty
  rcases eq_lastLine_or cs with heq | ⟨front, heq⟩
  · rw [heq, hempty] at hlast
    cases hlast
  · rw [heq, hempty, List.getLast?_concat] at hlast
    exact hc (Option.some.inj hlast).symm

theorem rowsOfPieces_eq_self {ps : List (List Char)} (hreturn : ∀ piece ∈ ps, '\r' ∉ piece)
    (hlast : ps.getLast? ≠ some []) : rowsOfPieces ps = ps := by
  fun_induction rowsOfPieces ps with
  | case1 => rfl
  | case2 last hempty => simp_all
  | case3 last hne => rfl
  | case4 piece next later ih =>
    rw [List.forall_mem_cons] at hreturn
    rw [List.getLast?_cons_cons] at hlast
    have hkept : dropReturn piece = piece := if_neg fun h => hreturn.1 (List.mem_of_getLast? h)
    rw [hkept, ih hreturn.2 hlast]

theorem rows_eq_lines {s : String} {c : Char} (hreturn : '\r' ∉ s.toList)
    (hlast : s.toList.getLast? = some c) (hc : c ≠ '\n') :
    rows s = lines s := by
  rw [lines, rows, rowsOfList, rowsOfPieces_eq_self]
  · exact fun piece hpiece h => hreturn (mem_of_mem_pieces hpiece h)
  · rw [getLast?_pieces]
    exact fun h => lastLine_ne_nil hlast hc (Option.some.inj h)

theorem exists_piece_of_mem {ps : List (List Char)} {row : List Char} (h : row ∈ rowsOfPieces ps) :
    ∃ piece ∈ ps, ShownAs piece row := by
  obtain ⟨i, hi, hrow⟩ := List.getElem_of_mem h
  have hle := (length_rowsOfPieces ps).1
  have hrow? : (rowsOfPieces ps)[i]? = some row := by rw [List.getElem?_eq_getElem hi, hrow]
  have hline : ps[i]? = some ps[i] := List.getElem?_eq_getElem (Nat.lt_of_lt_of_le hi hle)
  exact ⟨ps[i], List.getElem_mem _, shownAs_rowsOfPieces hline hrow?⟩

theorem newline_notMem_rows {s row : String} (h : row ∈ rows s) : '\n' ∉ row.toList := by
  obtain ⟨cs, hcs, rfl⟩ := List.mem_map.mp h
  obtain ⟨piece, hpiece, rfl | rfl⟩ := exists_piece_of_mem hcs
  · rw [String.toList_ofList]
    exact newline_notMem_cut _ _ hpiece
  · rw [String.toList_ofList]
    exact fun hc => newline_notMem_cut _ _ hpiece (List.mem_append_left _ hc)

/-- A return at the end of a line does not count where the line is trimmed. -/
theorem trim_return (cs : List Char) :
    trim (String.ofList (cs ++ ['\r'])) = trim (String.ofList cs) := by
  have hend (ds : List Char) : dropBlanksEnd (ds ++ ['\r']) = dropBlanksEnd ds := by
    unfold dropBlanksEnd
    rw [List.reverse_append]
    rfl
  unfold trim
  rw [String.toList_ofList, String.toList_ofList]
  congr 1
  unfold dropBlanks
  rw [List.dropWhile_append]
  split
  · rename_i hempty
    rw [List.isEmpty_iff.mp hempty]
    rfl
  · exact hend _

end Text

open Text

theorem isSeparator_dropReturn (piece : List Char) :
    isSeparator (String.ofList (dropReturn piece)) = isSeparator (String.ofList piece) := by
  rcases shownAs_dropReturn piece with heq | heq
  · rw [heq]
  · conv => rhs; rw [heq]
    rw [isSeparator, isSeparator, trim_return]

/-- A text has separators among its rows just if it has them among its pieces. -/
theorem separator_rows_iff (s : String) : (∀ row ∈ rows s, isSeparator row = false) ↔
    ∀ piece ∈ pieces s.toList, isSeparator (String.ofList piece) = false := by
  rw [rows, List.forall_mem_map, rowsOfList]
  generalize pieces s.toList = ps
  fun_induction rowsOfPieces ps with
  | case1 => rfl
  | case2 last hempty =>
    rw [List.isEmpty_iff.mp hempty]
    simp [show isSeparator (String.ofList []) = false by decide]
  | case3 last hne => rfl
  | case4 piece next later ih =>
    rw [List.forall_mem_cons, List.forall_mem_cons, ih, isSeparator_dropReturn]

section

variable {current rows : List String}

theorem responsesFrom_block {block : List String} (hblock : ∀ row ∈ block, isSeparator row = false)
    (current rows : List String) :
    responsesFrom current (block ++ rows) = responsesFrom (current ++ block) rows := by
  induction block generalizing current with
  | nil => rw [List.nil_append, List.append_nil]
  | cons row block ih =>
    rw [List.forall_mem_cons] at hblock
    rw [List.cons_append, responsesFrom, hblock.1, if_neg Bool.false_ne_true, ih hblock.2,
      List.append_assoc]
    rfl

theorem exists_block_of_mem (hcurrent : ∀ row ∈ current, isSeparator row = false)
    {response : String} (h : response ∈ responsesFrom current rows) :
    ∃ block, response = "\n".intercalate block ∧ block ⊆ current ++ rows ∧
      ∀ row ∈ block, isSeparator row = false := by
  fun_induction responsesFrom current rows with
  | case1 current hempty => cases h
  | case2 current hne =>
    cases List.mem_singleton.mp h
    exact ⟨current, rfl, List.subset_append_left _ _, hcurrent⟩
  | case3 current row rows hsep ih =>
    rcases List.mem_cons.mp h with rfl | hlater
    · exact ⟨current, rfl, List.subset_append_left _ _, hcurrent⟩
    · obtain ⟨block, heq, hsub, hplain⟩ := ih (List.forall_mem_nil _) hlater
      refine ⟨block, heq, fun other hother => ?_, hplain⟩
      exact List.mem_append_right _ (List.mem_cons_of_mem _ (hsub hother))
  | case4 current row rows hplain ih =>
    have hextended : ∀ other ∈ current ++ [row], isSeparator other = false := by
      rw [List.forall_mem_append, List.forall_mem_singleton]
      exact ⟨hcurrent, Bool.eq_false_of_not_eq_true hplain⟩
    obtain ⟨block, heq, hsub, hblock⟩ := ih hextended h
    refine ⟨block, heq, ?_, hblock⟩
    rwa [List.append_assoc] at hsub

def unclosed (rows : List String) : List String :=
  rows.rtakeWhile fun row => !isSeparator row

theorem unclosed_eq_self (hcurrent : ∀ row ∈ current, isSeparator row = false) :
    unclosed current = current := by
  rw [unclosed, List.rtakeWhile_eq_self_iff]
  intro row hrow
  rw [hcurrent row hrow, Bool.not_false]

theorem unclosed_of_separator {row : String} (hrow : isSeparator row = true)
    (before after : List String) : unclosed (before ++ row :: after) = unclosed after := by
  have hstop : (row :: before.reverse).takeWhile (fun row => !isSeparator row) = [] :=
    List.takeWhile_cons_of_neg (by simp [hrow])
  unfold unclosed List.rtakeWhile
  rw [List.reverse_append, List.reverse_cons, List.append_assoc, List.singleton_append,
    List.takeWhile_append, hstop, List.append_nil]
  split
  · rename_i hlength
    rw [(List.takeWhile_prefix _).eq_of_length hlength]
  · rfl

/-- There is a response for each separator, and one for the rows behind the last of them. -/
theorem length_responsesFrom (hcurrent : ∀ row ∈ current, isSeparator row = false) :
    (responsesFrom current rows).length = rows.countP isSeparator +
      if (unclosed (current ++ rows)).isEmpty then 0 else 1 := by
  fun_induction responsesFrom current rows with
  | case1 current hempty =>
    rw [List.isEmpty_iff.mp hempty]
    rfl
  | case2 current hne =>
    rw [List.append_nil, unclosed_eq_self hcurrent, if_neg hne]
    rfl
  | case3 current row rows hsep ih =>
    rw [List.length_cons, ih (List.forall_mem_nil _), unclosed_of_separator hsep,
      List.countP_cons_of_pos hsep, List.nil_append]
    omega
  | case4 current row rows hplain ih =>
    have hextended : ∀ other ∈ current ++ [row], isSeparator other = false := by
      rw [List.forall_mem_append, List.forall_mem_singleton]
      exact ⟨hcurrent, Bool.eq_false_of_not_eq_true hplain⟩
    rw [ih hextended, List.countP_cons_of_neg hplain, List.append_assoc]
    rfl

end

theorem plain_of_mem_splitScript {script response : String} (h : response ∈ splitScript script) :
    ∀ row ∈ rows response, isSeparator row = false := by
  obtain ⟨block, rfl, hsub, hblock⟩ := exists_block_of_mem (List.forall_mem_nil _) h
  by_cases hne : block = []
  · subst hne
    exact List.forall_mem_nil _
  have hlines : pieces ("\n".intercalate block).toList = block.map String.toList := by
    rw [pieces_eq_splitOn, String.toList_intercalate]
    refine List.splitOn_intercalate '\n' ?_ (by simpa using hne)
    rw [List.forall_mem_map]
    exact fun row hrow => newline_notMem_rows (hsub hrow)
  rw [separator_rows_iff, hlines, List.forall_mem_map]
  intro row hrow
  rw [String.ofList_toList]
  exact hblock row hrow

/-- Responses that a script can hold.  The lines of a response are told apart by breaks alone, and
the end of the last one is where the script ends. -/
structure Scriptable (responses : List String) : Prop where
  no_return : ∀ response ∈ responses, '\r' ∉ response.toList
  no_separator : ∀ response ∈ responses, ∀ row ∈ rows response, isSeparator row = false
  last : ∃ response c, responses.getLast? = some response ∧ response.toList.getLast? = some c ∧
    c ≠ '\n'

theorem lines_joined (response other : String) :
    lines (response ++ "\n---\n" ++ other) = lines response ++ "---" :: lines other := by
  have hlist : (response ++ "\n---\n" ++ other).toList =
      response.toList ++ '\n' :: ("---".toList ++ '\n' :: other.toList) := by simp
  have hrule : pieces "---".toList = ["---".toList] := by decide
  unfold lines
  rw [hlist, pieces_break, pieces_break, hrule, List.map_append, List.map_append]
  simp

theorem responsesFrom_joined {responses : List String} (hne : responses ≠ [])
    (h : ∀ response ∈ responses, ∀ row ∈ rows response, isSeparator row = false) :
    responsesFrom [] (lines ("\n---\n".intercalate responses)) = responses := by
  have hplain {response : String} (h : ∀ row ∈ rows response, isSeparator row = false) :
      ∀ row ∈ lines response, isSeparator row = false := by
    rw [lines, List.forall_mem_map]
    exact (separator_rows_iff response).mp h
  induction responses with
  | nil => exact absurd rfl hne
  | cons response later ih =>
    rw [List.forall_mem_cons] at h
    cases later with
    | nil =>
      have hblock := responsesFrom_block (hplain h.1) [] []
      rw [List.append_nil, List.nil_append] at hblock
      rw [String.intercalate_singleton, hblock, responsesFrom, if_neg (by simp [lines, pieces]),
        intercalate_lines]
    | cons next later =>
      have hsep : isSeparator "---" = true := by decide
      rw [String.intercalate_cons_cons, lines_joined, responsesFrom_block (hplain h.1),
        List.nil_append, responsesFrom, if_pos hsep, intercalate_lines,
        ih (List.cons_ne_nil _ _) h.2]

theorem notMem_joined {c : Char} {responses : List String} (hc : c ∉ "\n---\n".toList)
    (h : ∀ response ∈ responses, c ∉ response.toList) :
    c ∉ ("\n---\n".intercalate responses).toList := by
  induction responses with
  | nil => simp
  | cons response later ih =>
    rw [List.forall_mem_cons] at h
    cases later with
    | nil => simpa using h.1
    | cons next later =>
      rw [String.intercalate_cons_cons, String.toList_append, String.toList_append]
      simp only [List.mem_append, not_or]
      exact ⟨⟨h.1, hc⟩, ih h.2⟩

theorem getLast?_joined {responses : List String} {response : String} {c : Char}
    (hresponse : responses.getLast? = some response) (hlast : response.toList.getLast? = some c) :
    ("\n---\n".intercalate responses).toList.getLast? = some c := by
  obtain ⟨front, rfl⟩ := List.getLast?_eq_some_iff.mp hresponse
  by_cases hfront : front = []
  · subst hfront
    rwa [List.nil_append, String.intercalate_singleton]
  · rw [String.intercalate_append_of_ne_nil hfront (List.cons_ne_nil _ _),
      String.intercalate_singleton, String.toList_append, List.getLast?_append, hlast,
      Option.some_or]

theorem splitScript_joined {responses : List String} (h : Scriptable responses) :
    splitScript ("\n---\n".intercalate responses) = responses := by
  obtain ⟨response, c, hresponse, hlast, hc⟩ := h.last
  have hrows : rows ("\n---\n".intercalate responses) = lines ("\n---\n".intercalate responses) :=
    rows_eq_lines (notMem_joined (by decide) h.no_return) (getLast?_joined hresponse hlast) hc
  rw [splitScript, hrows]
  refine responsesFrom_joined ?_ h.no_separator
  rintro rfl
  cases hresponse

/-- Responses that a script can hold are read back from the script that joins them.  In any script
no response has a separator in it, and there are as many responses as separators, and one more if
rows follow the last separator. -/
theorem splitScript_inverse :
    (∀ responses, Scriptable responses →
      splitScript ("\n---\n".intercalate responses) = responses) ∧
    ∀ script, (∀ response ∈ splitScript script, ∀ row ∈ rows response, isSeparator row = false) ∧
      (splitScript script).length = (rows script).countP isSeparator +
        if (unclosed (rows script)).isEmpty then 0 else 1 := by
  refine ⟨fun responses => splitScript_joined, fun script => ?_⟩
  exact ⟨fun response => plain_of_mem_splitScript, length_responsesFrom (List.forall_mem_nil _)⟩

/-- An empty response, one that ends in a break, and one with dashes that are no separator. -/
theorem splitScript_inverse_breaks :
    Scriptable ["", "a\n", "----\n\n- --"] ∧
      splitScript "\n---\na\n\n---\n----\n\n- --" = ["", "a\n", "----\n\n- --"] := by
  have hscriptable : Scriptable ["", "a\n", "----\n\n- --"] :=
    ⟨by decide, by decide +kernel, ⟨"----\n\n- --", '-', rfl, by decide, by decide⟩⟩
  refine ⟨hscriptable, ?_⟩
  have hsplit := splitScript_inverse.1 _ hscriptable
  exact hsplit

end Splice
