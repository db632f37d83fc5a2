import Splice.Proofs.Token.Shape

/-! The words of two texts, one after the other.  The words of a text depend neither on places nor,
but for the blocks that its first written line closes, on what comes before it.  So behind a line
break the words of a text follow those of another, and the dedents that close the first text stand
before the first written line of the second. -/
namespace Splice

open Spelling (dedents)

namespace Layout

def Indented (layout : Layout) : Prop :=
  ∀ width ∈ layout.widths, 0 < width

variable {layout : Layout}

theorem Indented.moveTo (h : layout.Indented) (width : Nat) : (layout.moveTo width).2.Indented := by
  have hkept : (layout.closeTo width).Indented :=
    fun w hw => h w ((List.dropWhile_sublist _).mem hw)
  unfold Layout.moveTo
  split
  · rename_i hdeeper
    rintro w (_ | ⟨_, hw⟩)
    · exact Nat.lt_of_le_of_lt (Nat.zero_le _) hdeeper
    · exact h w hw
  · dsimp only
    split <;> exact hkept

theorem Indented.moveTo_zero (h : layout.Indented) :
    layout.moveTo 0 = (.closes layout.depth, {}) := by
  have hkept : layout.closeTo 0 = {} := by
    unfold closeTo
    congr 1
    rw [List.dropWhile_eq_nil_iff]
    exact fun w hw => decide_eq_true (h w hw)
  unfold Layout.moveTo
  rw [if_neg (Nat.not_lt_zero _), hkept]
  rfl

end Layout

namespace Token

variable {layout moved : Layout} {line : Nat} {cs next : List Char}
  {later more : List (List Char)} {us vs ws : List Word}

theorem lineWords_blank (h : isBlankLine cs = true) (layout : Layout) :
    lineWords layout cs = .ok ([], layout) :=
  if_pos h

theorem indented_of_lineWords (h : lineWords layout cs = .ok (us, moved))
    (hlayout : layout.Indented) : moved.Indented := by
  obtain ⟨-, -, rfl⟩ | ⟨-, shift, vs, hmove, -⟩ := lineWords_cases h
  · exact hlayout
  · have hmoved := hlayout.moveTo (Layout.measure (cs.takeWhile Layout.isIndent))
    rw [hmove] at hmoved
    exact hmoved

theorem LinesRead.last (h : lineWords layout cs = .ok (us, moved)) :
    LinesRead layout cs [] (us ++ (dedents moved.depth ++ [Kind.endOfInput.word])) :=
  fun _ => linesWords_nil_eq_ok.mpr ⟨us, moved, h, rfl⟩

theorem LinesRead.cons (h : lineWords layout cs = .ok (us, moved))
    (hlater : LinesRead moved next more ws) :
    LinesRead layout cs (next :: more) (us ++ Kind.newline.word :: ws) :=
  fun line => linesWords_cons_eq_ok.mpr ⟨us, moved, ws, h, hlater (line + 1), rfl⟩

theorem linesRead_of_linesWords (h : linesWords layout line cs later = .ok ws) :
    LinesRead layout cs later ws := by
  induction later generalizing layout line cs ws with
  | nil =>
    obtain ⟨us, moved, hline, rfl⟩ := linesWords_nil_eq_ok.mp h
    exact .last hline
  | cons next more ih =>
    obtain ⟨us, moved, vs, hline, hrest, rfl⟩ := linesWords_cons_eq_ok.mp h
    exact .cons hline (ih hrest)

/-- The words of lines that end with a line break, and what they are with other lines after it. -/
theorem linesWords_broken (h : linesWords layout line cs (later ++ [[]]) = .ok us)
    (hlayout : layout.Indented) :
    ∃ first moved, moved.Indented ∧
      us = first ++ Kind.newline.word :: (dedents moved.depth ++ [Kind.endOfInput.word]) ∧
      ∀ {next more ws}, LinesRead moved next more ws →
        LinesRead layout cs (later ++ next :: more) (first ++ Kind.newline.word :: ws) := by
  induction later generalizing layout line cs us with
  | nil =>
    obtain ⟨first, moved, vs, hline, hrest, rfl⟩ := linesWords_cons_eq_ok.mp h
    obtain ⟨none, final, hnone, rfl⟩ := linesWords_nil_eq_ok.mp hrest
    cases hnone
    exact ⟨first, moved, indented_of_lineWords hline hlayout, rfl, fun hmore => .cons hline hmore⟩
  | cons following later ih =>
    obtain ⟨own, mid, vs, hline, hrest, rfl⟩ := linesWords_cons_eq_ok.mp h
    obtain ⟨first, moved, hmoved, rfl, hjoin⟩ := ih hrest (indented_of_lineWords hline hlayout)
    refine ⟨own ++ Kind.newline.word :: first, moved, hmoved, by simp, fun hmore => ?_⟩
    rw [List.append_assoc, List.cons_append]
    exact .cons hline (hjoin hmore)

theorem lineWords_moved (h : lineWords {} cs = .ok (us, moved))
    (hwritten : isBlankLine cs = false) :
    ∃ w more, us = w :: more ∧ w.1 ≠ .newline ∧ (w.1 ≠ .indent → moved = {} ∧
      ∀ layout : Layout, layout.Indented →
        lineWords layout cs = .ok (dedents layout.depth ++ us, {})) := by
  obtain ⟨hblank, -⟩ | ⟨-, shift, vs, hmove, hshift, hline, rfl⟩ := lineWords_cases h
  · rw [hwritten] at hblank
    cases hblank
  by_cases hwidth : Layout.measure (cs.takeWhile Layout.isIndent) = 0
  · have hempty : Layout.Indented {} := by simp [Layout.Indented]
    rw [hwidth, hempty.moveTo_zero] at hmove
    cases hmove
    obtain ⟨w, more, rfl⟩ := List.exists_cons_of_ne_nil (Line.words_ne_nil hline hwritten)
    refine ⟨w, more, rfl, ?_, fun _ => ⟨rfl, fun layout hlayout => ?_⟩⟩
    · intro heq
      have hword := (Line.words_isSpelled hline w List.mem_cons_self).2
      rw [heq] at hword
      cases hword
    · have hall := hlayout.moveTo_zero
      rw [← hwidth] at hall
      rw [lineWords_eq hwritten hall (by simp), hline]
      rfl
  · have hdeeper : Layout.top {} < Layout.measure (cs.takeWhile Layout.isIndent) :=
      Nat.pos_of_ne_zero hwidth
    unfold Layout.moveTo at hmove
    rw [if_pos hdeeper] at hmove
    cases hmove
    exact ⟨Kind.indent.word, vs, rfl, by simp [Kind.word], fun hno => absurd rfl hno⟩

/-- Lines on their own start with their blank ones.  Inside open blocks they are read as the same
words, with the blocks closed before the first written line, unless that line is indented. -/
theorem linesWords_moved (h : linesWords {} line cs later = .ok ws) :
    ∃ gap rest, ws = gap ++ rest ∧ (∀ w ∈ gap, w = Kind.newline.word) ∧
      ∃ w more, rest = w :: more ∧ w.1 ≠ .newline ∧ (w.1 ≠ .indent → ∀ layout : Layout,
        layout.Indented → LinesRead layout cs later (gap ++ (dedents layout.depth ++ rest))) := by
  induction later generalizing line cs ws with
  | nil =>
    obtain ⟨us, moved, hline, rfl⟩ := linesWords_nil_eq_ok.mp h
    cases hblank : isBlankLine cs with
    | true =>
      rw [lineWords_blank hblank] at hline
      cases hline
      refine ⟨[], [Kind.endOfInput.word], rfl, by simp, _, [], rfl, by simp [Kind.word], ?_⟩
      exact fun _ layout _ => .last (lineWords_blank hblank layout)
    | false =>
      obtain ⟨w, more, rfl, hw, hmoved⟩ := lineWords_moved hline hblank
      refine ⟨[], _, rfl, by simp, w, _, rfl, hw, fun hindent layout hlayout => ?_⟩
      obtain ⟨rfl, hreads⟩ := hmoved hindent
      have hlast := LinesRead.last (hreads layout hlayout)
      simpa using hlast
  | cons next more ih =>
    obtain ⟨us, moved, vs, hline, hrest, rfl⟩ := linesWords_cons_eq_ok.mp h
    cases hblank : isBlankLine cs with
    | true =>
      rw [lineWords_blank hblank] at hline
      cases hline
      obtain ⟨gap, rest, rfl, hgap, w, others, hws, hw, hmoved⟩ := ih hrest
      refine ⟨Kind.newline.word :: gap, rest, rfl, by simpa using hgap, w, others, hws, hw, ?_⟩
      intro hindent layout hlayout
      exact .cons (lineWords_blank hblank layout) (hmoved hindent layout hlayout)
    | false =>
      obtain ⟨w, others, rfl, hw, hmoved⟩ := lineWords_moved hline hblank
      refine ⟨[], _, rfl, by simp, w, _, rfl, hw, fun hindent layout hlayout => ?_⟩
      obtain ⟨rfl, hreads⟩ := hmoved hindent
      have hnext := LinesRead.cons (hreads layout hlayout) (linesRead_of_linesWords hrest)
      simpa using hnext

/-- The words of a text that ends with a line break, and of another one that does not start with
an indented line, follow each other; only the dedents that close the first text move behind the
blank lines of the second. -/
theorem textWords_append {cs ds : List Char} (hfirst : textWords (cs ++ ['\n']) = .ok us)
    (hsecond : textWords ds = .ok vs) :
    ∃ before blocks gap rest,
      us = before ++ Kind.newline.word :: (dedents blocks ++ [Kind.endOfInput.word]) ∧
      vs = gap ++ rest ∧ (∀ w ∈ gap, w = Kind.newline.word) ∧
      ∃ w more, rest = w :: more ∧ w.1 ≠ .newline ∧
        (w.1 ≠ .indent → textWords (cs ++ '\n' :: ds) =
          .ok (before ++ Kind.newline.word :: (gap ++ (dedents blocks ++ rest)))) := by
  unfold textWords at hfirst hsecond
  rw [Text.cut_break] at hfirst
  obtain ⟨before, moved, hmoved, hwords, hjoin⟩ :=
    linesWords_broken hfirst (by simp [Layout.Indented])
  obtain ⟨gap, rest, hsplit, hgap, w, more, hrest, hw, hreads⟩ := linesWords_moved hsecond
  refine ⟨before, moved.depth, gap, rest, hwords, hsplit, hgap, w, more, hrest, hw, ?_⟩
  intro hindent
  unfold textWords
  rw [Text.cut_break]
  exact hjoin (hreads hindent moved hmoved) 1

end Token

end Splice
