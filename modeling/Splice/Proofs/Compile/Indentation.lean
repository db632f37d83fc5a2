import Mathlib.Data.List.Forall2
import Mathlib.Order.Monotone.Basic
import Splice.Proofs.Compile.LineBreaks
import Splice.Proofs.Token.Limit

/-! Widths of indentations.  The blocks of a text follow from which of its lines are indented deeper
than which.  A text whose indentations are measured in other units, in the same order, has the same
words and is the same program, and where it has a fault of indentation the fault is the same one in
the other units. -/
namespace Splice

namespace Layout

def scale (g : Nat → Nat) (layout : Layout) : Layout :=
  ⟨layout.widths.map g⟩

def Shift.scale (g : Nat → Nat) : Shift → Shift
  | .opens => .opens
  | .closes count => .closes count
  | .mismatch expected => .mismatch (g expected)

/-- The same line at another indentation: a width is replaced by the one it is in the other
units. -/
def Reindents (g : Nat → Nat) (cs ds : List Char) : Prop :=
  cs.dropWhile isIndent = ds.dropWhile isIndent ∧
    measure (ds.takeWhile isIndent) = g (measure (cs.takeWhile isIndent))

instance (g : Nat → Nat) (cs ds : List Char) : Decidable (Reindents g cs ds) :=
  inferInstanceAs (Decidable (_ ∧ _))

variable {g : Nat → Nat}

@[simp] theorem depth_scale (layout : Layout) : (layout.scale g).depth = layout.depth :=
  List.length_map g

theorem top_scale (hzero : g 0 = 0) (layout : Layout) : (layout.scale g).top = g layout.top := by
  unfold top scale
  cases layout.widths with
  | nil => exact hzero.symm
  | cons width outer => rfl

theorem closeTo_scale (hg : StrictMono g) (layout : Layout) (width : Nat) :
    (layout.scale g).closeTo (g width) = (layout.closeTo width).scale g := by
  unfold closeTo scale
  have hdeeper : (fun w => decide (g width < w)) ∘ g = fun w => decide (width < w) := by
    funext w
    simp only [Function.comp_apply, hg.lt_iff_lt]
  rw [List.dropWhile_map, hdeeper]

theorem moveTo_scale (hg : StrictMono g) (hzero : g 0 = 0) (layout : Layout) (width : Nat) :
    (layout.scale g).moveTo (g width) =
      ((layout.moveTo width).1.scale g, (layout.moveTo width).2.scale g) := by
  unfold moveTo
  simp only [top_scale hzero, hg.lt_iff_lt, closeTo_scale hg, hg.injective.eq_iff, depth_scale]
  split
  · rfl
  split <;> rfl

end Layout

def ScanFault.Cause.scale (g : Nat → Nat) : ScanFault.Cause → ScanFault.Cause
  | .indentMismatch expected found => .indentMismatch (g expected) (g found)
  | .unterminatedString => .unterminatedString
  | .unexpectedCharacter c => .unexpectedCharacter c

theorem Line.mapError_words (g : Nat → Nat) (cs : List Char) :
    (words cs).mapError (·.scale g) = words cs := by
  fun_induction words cs with
  | case1 => rfl
  | case2 c cs =>
    unfold cause
    split <;> rfl
  | case3 c cs stretch more hmunch ih =>
    conv => rhs; rw [← ih]
    cases words (cs.drop more) <;> rfl

namespace Token

variable {g : Nat → Nat} {cs ds : List Char} {later others : List (List Char)}

theorem isBlankLine_indent (cs : List Char) :
    isBlankLine (cs.dropWhile Layout.isIndent) = isBlankLine cs := by
  unfold isBlankLine
  rw [Line.dropBlanks_indent]

theorem words_dropIndent (cs : List Char) :
    Line.words (cs.dropWhile Layout.isIndent) = Line.words cs := by
  conv => rhs; rw [← List.takeWhile_append_dropWhile (p := Layout.isIndent) (l := cs)]
  exact (Line.words_indent (fun _ hc => List.mem_takeWhile_imp hc) _).symm

theorem lineWords_scale (hg : StrictMono g) (hzero : g 0 = 0) (layout : Layout)
    (h : Layout.Reindents g cs ds) : lineWords (layout.scale g) ds =
      ((lineWords layout cs).map fun read => (read.1, read.2.scale g)).mapError (·.scale g) := by
  have hblank : isBlankLine ds = isBlankLine cs := by
    rw [← isBlankLine_indent ds, ← isBlankLine_indent cs, h.1]
  have hwords : Line.words ds = Line.words cs := by
    rw [← words_dropIndent ds, ← words_dropIndent cs, h.1]
  unfold lineWords
  rw [hblank, hwords, h.2]
  split
  · rfl
  simp only [Layout.moveTo_scale hg hzero]
  cases layout.moveTo (Layout.measure (cs.takeWhile Layout.isIndent)) with
  | mk shift moved =>
    have hline (us : List Word) : (Line.words cs).map (fun vs => (us ++ vs, moved.scale g)) =
        (((Line.words cs).map fun vs => (us ++ vs, moved)).map fun read =>
          (read.1, read.2.scale g)).mapError (·.scale g) := by
      conv => lhs; rw [← Line.mapError_words g cs]
      cases Line.words cs <;> rfl
    cases shift with
    | mismatch expected => rfl
    | opens => exact hline (Layout.Shift.words .opens)
    | closes count => exact hline (Layout.Shift.words (.closes count))

theorem linesWords_scale (hg : StrictMono g) (hzero : g 0 = 0)
    (h : Layout.Reindents g cs ds) (hlater : List.Forall₂ (Layout.Reindents g) later others)
    (layout : Layout) (line : Nat) : linesWords (layout.scale g) line ds others =
      (linesWords layout line cs later).mapError fun reason => (reason.1, reason.2.scale g) := by
  induction hlater generalizing layout line cs ds with
  | nil =>
    rw [linesWords, linesWords, lineWords_scale hg hzero layout h]
    cases lineWords layout cs with
    | error cause => rfl
    | ok read =>
      change Except.ok (read.1 ++ (_ ++ _)) = _
      rw [Layout.depth_scale]
      rfl
  | @cons next other later others hnext _ ih =>
    rw [linesWords, linesWords, lineWords_scale hg hzero layout h]
    cases lineWords layout cs with
    | error cause => rfl
    | ok read =>
      change (linesWords (read.2.scale g) (line + 1) other others).map _ =
        ((linesWords read.2 (line + 1) next later).map _).mapError _
      rw [ih hnext]
      cases linesWords read.2 (line + 1) next later <;> rfl

/-- The words of a text and the line of its fault do not depend on the units. -/
theorem textWords_scale (hg : StrictMono g) (hzero : g 0 = 0) {source other : String}
    (h : List.Forall₂ (Layout.Reindents g) (Text.pieces source.toList)
      (Text.pieces other.toList)) :
    textWords other.toList =
      (textWords source.toList).mapError fun reason => (reason.1, reason.2.scale g) := by
  obtain ⟨hfirst, hlater⟩ := List.forall₂_cons.mp h
  exact linesWords_scale hg hzero hfirst hlater {} 1

end Token

def blockAt (width : Nat) : String :=
  String.ofList ("if a:".toList ++ '\n' :: (List.replicate width ' ' ++ ['b', 'b']))

theorem pieces_blockAt (width : Nat) : Text.pieces (blockAt width).toList =
    ["if a:".toList, List.replicate width ' ' ++ ['b', 'b']] := by
  have hline : '\n' ∉ List.replicate width ' ' ++ ['b', 'b'] := by
    intro hmem
    rcases List.mem_append.mp hmem with hspace | hname
    · exact absurd (List.eq_of_mem_replicate hspace) (by decide)
    · exact absurd hname (by decide)
  have htext : (blockAt width).toList =
      "if a:".toList ++ '\n' :: (List.replicate width ' ' ++ ['b', 'b']) := String.toList_ofList
  rw [htext, Text.pieces, Text.cut_line_break (by decide), Text.cut_line hline]

theorem takeWhile_spaces (width : Nat) :
    (List.replicate width ' ' ++ ['b', 'b']).takeWhile Layout.isIndent =
      List.replicate width ' ' ∧
    (List.replicate width ' ' ++ ['b', 'b']).dropWhile Layout.isIndent = ['b', 'b'] := by
  have hspaces : ∀ c ∈ List.replicate width ' ', Layout.isIndent c = true := by
    intro c hc
    rw [List.eq_of_mem_replicate hc]
    rfl
  rw [List.takeWhile_append_of_pos hspaces, List.dropWhile_append_of_pos hspaces]
  exact ⟨List.append_nil _, rfl⟩

theorem reindents_blockAt {g : Nat → Nat} (hzero : g 0 = 0) (width : Nat) :
    List.Forall₂ (Layout.Reindents g) (Text.pieces (blockAt width).toList)
      (Text.pieces (blockAt (g width)).toList) := by
  rw [pieces_blockAt, pieces_blockAt]
  obtain ⟨htake, hdrop⟩ := takeWhile_spaces width
  obtain ⟨htakeOther, hdropOther⟩ := takeWhile_spaces (g width)
  refine .cons ⟨rfl, hzero.symm⟩ (.cons ⟨hdrop.trans hdropOther.symm, ?_⟩ .nil)
  rw [htake, htakeOther, Layout.measure_spaces, Layout.measure_spaces]

theorem compile_blockAt_crash {width : Nat} (hwidth : 0 < width)
    (hcut : (6 + width + 2) % Span.limit < (6 + width) % Span.limit) :
    compile (blockAt width) = .error .crash := by
  have hfirst : Token.ofLine {} 1 0 "if a:".toList = .ok ([⟨⟨1, 1, ⟨0, 2⟩⟩, .keyword .branch, "if"⟩,
      ⟨⟨1, 4, ⟨3, 4⟩⟩, .ident, "a"⟩, ⟨⟨1, 5, ⟨4, 5⟩⟩, .colon, ":"⟩], {}) := by
    decide +kernel
  obtain ⟨htake, hdrop⟩ := takeWhile_spaces width
  have hgaps : ∀ c ∈ List.replicate width ' ', Line.isGap c = true := by
    intro c hc
    rw [List.eq_of_mem_replicate hc]
    rfl
  have hline : Token.ofLine {} 2 6 (List.replicate width ' ' ++ ['b', 'b']) = .error .crash := by
    refine @Token.ofLine_crash {} ⟨[width]⟩ _ _ _ .opens ?_ ?_ nofun ?_
    · rw [← Token.isBlankLine_indent, hdrop]
      rfl
    · rw [htake, Layout.measure_spaces, Layout.moveTo,
        if_pos (show Layout.top {} < width from hwidth)]
    · rw [Line.scan_gapRun hgaps, byteLength_replicate rfl]
      exact @Line.scan_longName _ _ _ 2 (by decide) hcut
  have hcuts : Text.cut (blockAt width).toList =
      ("if a:".toList, [List.replicate width ' ' ++ ['b', 'b']]) := by
    obtain ⟨hhead, htail⟩ := List.cons.inj (pieces_blockAt width)
    exact Prod.ext hhead htail
  have hcrash : Token.ofSource (blockAt width) = .error .crash := by
    unfold Token.ofSource Token.ofList
    rw [hcuts]
    exact Token.ofLines_later_crash hfirst (Token.ofLines_crash hline)
  exact compile_of_crash hcrash

end Splice
