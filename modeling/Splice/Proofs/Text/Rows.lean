import Splice.Proofs.Token.Blocks
import Splice.Proofs.Token.Joined
import Splice.Proofs.Token.Places
import Splice.Text.Slice

/-! The lines of a text as they are counted and as they are shown.  Counting keeps every piece
between two breaks.  The rows that are shown leave out a last piece that is empty, and drop a return
before a break; all other pieces are rows, in their order. -/
namespace Splice.Text

theorem length_pieces (cs : List Char) : (pieces cs).length = cs.count '\n' + 1 := by
  rw [pieces, List.length_cons, length_cut]

theorem pieces_break (cs ds : List Char) : pieces (cs ++ '\n' :: ds) = pieces cs ++ pieces ds := by
  rw [pieces, cut_break, pieces, pieces, List.cons_append]

theorem pieces_line {piece : List Char} (hpiece : '\n' ∉ piece) (cs : List Char) :
    (pieces (piece ++ cs)).head? = some (piece ++ cs.takeWhile (· ≠ '\n')) := by
  have hcut : (cut cs).1 = cs.takeWhile (· ≠ '\n') := by
    induction cs with
    | nil => rfl
    | cons c cs ih =>
      by_cases hc : c = '\n'
      · subst hc
        rfl
      · rw [cut_cons hc, List.takeWhile_cons_of_pos (by simpa using hc), ih]
  rw [pieces, cut_append hpiece, List.head?_cons, hcut]

theorem newline_notMem_lastLine (cs : List Char) : '\n' ∉ lastLine cs := by
  intro h
  have hne := List.mem_takeWhile_imp (List.mem_reverse.mp h)
  simp at hne

theorem eq_lastLine_or (cs : List Char) :
    cs = lastLine cs ∨ ∃ front, cs = front ++ '\n' :: lastLine cs := by
  have hsplit : cs = (cs.reverse.dropWhile (· ≠ '\n')).reverse ++ lastLine cs := by
    rw [lastLine, ← List.reverse_append, List.takeWhile_append_dropWhile, List.reverse_reverse]
  cases hdrop : cs.reverse.dropWhile (· ≠ '\n') with
  | nil =>
    left
    rw [hdrop] at hsplit
    exact hsplit
  | cons c rest =>
    right
    have hc : c = '\n' := by
      simpa using Line.head?_dropWhile (p := (· ≠ '\n')) (by rw [hdrop]; rfl)
    rw [hdrop, hc, List.reverse_cons, List.append_assoc] at hsplit
    exact ⟨rest.reverse, hsplit⟩

/-- The line around a position: what stands before it and after it up to the breaks. -/
def lineAround (before after : List Char) : List Char :=
  lastLine before ++ after.takeWhile (· ≠ '\n')

/-- The line around a position comes after as many lines as there are breaks before it. -/
theorem getElem?_pieces (before after : List Char) :
    (pieces (before ++ after))[before.count '\n']? = some (lineAround before after) := by
  have hlast := newline_notMem_lastLine before
  have hhead := pieces_line hlast after
  rw [List.head?_eq_getElem?] at hhead
  rcases eq_lastLine_or before with heq | ⟨front, heq⟩
  · rw [← heq] at hlast hhead
    rw [List.count_eq_zero.mpr hlast, hhead, lineAround, ← heq]
  · have hcount : before.count '\n' = (pieces front).length := by
      rw [heq, List.count_append, List.count_cons_self, List.count_eq_zero.mpr hlast,
        length_pieces]
    have hpieces :
        pieces (before ++ after) = pieces front ++ pieces (lastLine before ++ after) := by
      conv => lhs; rw [heq]
      rw [List.append_assoc, List.cons_append, pieces_break]
    rw [hpieces, hcount, List.getElem?_append_right (Nat.le_refl _), Nat.sub_self, hhead]
    rfl

/-- A row is a line as it stands, or without the return at its end. -/
def ShownAs (line row : List Char) : Prop :=
  row = line ∨ line = row ++ ['\r']

theorem shownAs_dropReturn (line : List Char) : ShownAs line (dropReturn line) := by
  unfold dropReturn
  split
  · rename_i hlast
    right
    exact (List.dropLast_append_getLast? '\r' hlast).symm
  · exact .inl rfl

theorem length_rowsOfPieces (ps : List (List Char)) :
    (rowsOfPieces ps).length ≤ ps.length ∧ ps.length ≤ (rowsOfPieces ps).length + 1 := by
  fun_induction rowsOfPieces ps with
  | case1 => simp
  | case2 last h => simp
  | case3 last h => simp
  | case4 piece next later ih =>
    simp only [List.length_cons] at ih ⊢
    omega

theorem shownAs_rowsOfPieces {ps : List (List Char)} {i : Nat} {line row : List Char}
    (hline : ps[i]? = some line) (hrow : (rowsOfPieces ps)[i]? = some row) : ShownAs line row := by
  fun_induction rowsOfPieces ps generalizing i with
  | case1 => cases hline
  | case2 last h => cases hrow
  | case3 last h =>
    rw [hline] at hrow
    exact .inl (Option.some.inj hrow).symm
  | case4 piece next later ih =>
    cases i with
    | zero =>
      cases hline
      cases hrow
      exact shownAs_dropReturn line
    | succ i => exact ih hline hrow

section

variable {source : String} {i : Nat} {text : String}

theorem length_rows (source : String) :
    (rows source).length ≤ source.toList.count '\n' + 1 ∧
      source.toList.count '\n' ≤ (rows source).length := by
  have hlength := length_rowsOfPieces (pieces source.toList)
  rw [length_pieces] at hlength
  rw [rows, List.length_map, rowsOfList]
  omega

theorem shownAs_rows {before after : List Char} (hsource : source.toList = before ++ after)
    (htext : (rows source)[before.count '\n']? = some text) :
    ShownAs (lineAround before after) text.toList := by
  rw [rows, List.getElem?_map, Option.map_eq_some_iff] at htext
  obtain ⟨row, hrow, rfl⟩ := htext
  rw [String.toList_ofList]
  refine shownAs_rowsOfPieces (getElem?_pieces before after) ?_
  rw [← hsource]
  exact hrow

end

theorem dropBytes?_append (cs ds : List Char) :
    dropBytes? (byteLength cs) (cs ++ ds) = some ds := by
  induction cs with
  | nil => rw [byteLength, List.foldr_nil, dropBytes?, List.nil_append]
  | cons c cs ih =>
    obtain ⟨n, hn⟩ := Nat.exists_eq_add_one.mpr c.utf8Size_pos
    rw [byteLength_cons, hn, Nat.add_right_comm, List.cons_append, dropBytes?, hn,
      if_pos (by omega), ← ih]
    congr 1
    omega

theorem takeBytes?_append (cs ds : List Char) :
    takeBytes? (byteLength cs) (cs ++ ds) = some cs := by
  induction cs with
  | nil => rw [byteLength, List.foldr_nil, takeBytes?]
  | cons c cs ih =>
    obtain ⟨n, hn⟩ := Nat.exists_eq_add_one.mpr c.utf8Size_pos
    have hrest : n + byteLength cs + 1 - (n + 1) = byteLength cs := by omega
    rw [byteLength_cons, hn, Nat.add_right_comm, List.cons_append, takeBytes?, hn,
      if_pos (by omega), hrest, ih, Option.map_some]

theorem slice?_append (before written after : List Char) :
    slice? (byteLength before) (byteLength (before ++ written)) (before ++ (written ++ after)) =
      some written := by
  have hlength : byteLength (before ++ written) - byteLength before = byteLength written := by
    rw [byteLength_append]
    omega
  rw [slice?, if_pos (by rw [byteLength_append]; omega), dropBytes?_append, Option.bind_some,
    hlength, takeBytes?_append]

end Splice.Text
