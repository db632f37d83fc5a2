import Splice.Proofs.Collaborator.Fence
import Splice.Proofs.Token.LongestMatch

/-! Two notions of blank.  A line counts for nothing if only blanks stand before its end or its
comment, and every character with the property `White_Space` is a blank there.  The scanner drops
fewer of them.  A line without tokens always counts for nothing, but a blank that the scanner does
not drop makes the converse fail: the line is passed over, and the character with it. -/
namespace Splice

theorem Text.head?_dropBlanksEnd {c : Char} (hc : isBlank c = false) (cs : List Char) :
    (dropBlanksEnd (c :: cs)).head? = some c := by
  have hne : dropBlanksEnd (c :: cs) ≠ [] := by
    intro hempty
    rw [dropBlanksEnd, List.reverse_eq_nil_iff, List.dropWhile_eq_nil_iff] at hempty
    have hblank := hempty c (by simp)
    rw [hc] at hblank
    cases hblank
  obtain ⟨d, ds, hds⟩ := List.exists_cons_of_ne_nil hne
  have hprefix := dropBlanksEnd_prefix (c :: cs)
  rw [hds, List.cons_prefix_cons] at hprefix
  rw [hds, hprefix.1, List.head?_cons]

namespace Line

variable {front cs : List Char} {c : Char}

def isStray (c : Char) : Bool :=
  Text.isBlank c && !isGap c

theorem isStray_iff : isStray c = true ↔ Text.isBlank c = true ∧ isGap c = false := by
  simp [isStray]

theorem tokens_stray (hfront : ∀ d ∈ front, isGap d = true) (hc : isStray c = true)
    {offset : Nat} (hsize : offset + Text.byteLength (front ++ c :: cs) < Span.limit) (line : Nat) :
    tokens offset line (front ++ c :: cs) =
      .error (.fault ⟨.unexpectedCharacter c, placeAfter offset line front [c]⟩) := by
  obtain ⟨hblank, hgap⟩ := isStray_iff.mp hc
  have hquote : ¬ (c = '"' ∨ c = '\'') := by
    rintro (rfl | rfl) <;> cases hblank
  rw [tokens, scan_gapRun hfront, scan, munch_blank hblank hgap, Nat.add_comm 1]
  dsimp only
  rw [fault_eq_stuck hsize, stuck, if_neg hquote]

theorem scan_comment (hcs : '\n' ∉ cs) {offset : Nat}
    (hsize : offset + Text.byteLength ('#' :: cs) < Span.limit) (line column : Nat) :
    scan line column offset ('#' :: cs) = .ok [] := by
  have htake : cs.takeWhile (· ≠ '\n') = cs := by
    rw [List.takeWhile_eq_self_iff]
    intro d hd
    exact decide_eq_true fun heq => hcs (heq ▸ hd)
  have hmunch : munch '#' cs = some (.comment, cs.length) := by
    conv => rhs; rw [← htake]
    rfl
  rw [scan, hmunch]
  dsimp only [Stretch.tokens]
  rw [List.take_length, Span.between_eq (Nat.le_add_right _ _) hsize, List.drop_length, scan]
  rfl

end Line

namespace Token

variable {cs : List Char}

/-- What is left of a line without its indentation and the blanks on both sides. -/
def content (cs : List Char) : List Char :=
  Text.dropBlanksEnd (Text.dropBlanks (cs.dropWhile Layout.isIndent))

theorem isBlankLine_iff_content :
    isBlankLine cs = true ↔ content cs = [] ∨ (content cs).head? = some '#' := by
  unfold content isBlankLine
  rw [Line.dropBlanks_indent]
  cases hcs : Text.dropBlanks cs with
  | nil => simp [Text.dropBlanksEnd]
  | cons c rest =>
    have hc : Text.isBlank c = false := Line.head?_dropWhile (by rw [← Text.dropBlanks, hcs]; rfl)
    have hhead := Text.head?_dropBlanksEnd hc rest
    have hne : Text.dropBlanksEnd (c :: rest) ≠ [] := by
      rintro hempty
      rw [hempty] at hhead
      cases hhead
    simp [hhead, hne]

/-- A line that counts for nothing holds no tokens, unless a stray stands in front. -/
theorem tokens_of_isBlankLine (h : isBlankLine cs = true) (hbreak : '\n' ∉ cs)
    (hfront : ∀ c ∈ cs.takeWhile Text.isBlank, Line.isGap c = true) {offset : Nat}
    (hsize : offset + Text.byteLength cs < Span.limit) (line : Nat) :
    Line.tokens offset line cs = .ok [] := by
  have hsplit := List.takeWhile_append_dropWhile (p := Text.isBlank) (l := cs)
  unfold isBlankLine Text.dropBlanks at h
  rw [Line.tokens, ← hsplit, Line.scan_gapRun hfront]
  rw [← hsplit] at hbreak hsize
  rw [Text.byteLength_append, ← Nat.add_assoc] at hsize
  split at h
  · rename_i hempty
    rw [hempty, Line.scan]
  · rename_i c rest hrest
    rw [hrest] at hbreak hsize ⊢
    obtain rfl := beq_iff_eq.mp h
    exact Line.scan_comment (fun hmem => hbreak (by simp [hmem])) hsize _ _

theorem exists_first_stray {c : Char} (hc : c ∈ cs.takeWhile Text.isBlank)
    (hgap : Line.isGap c = false) : ∃ front d later, cs = front ++ d :: later ∧
      (∀ e ∈ front, Line.isGap e = true) ∧ Line.isStray d = true := by
  have hsplit := List.takeWhile_append_dropWhile (p := Line.isGap) (l := cs.takeWhile Text.isBlank)
  obtain ⟨d, later, hlater⟩ : ∃ d later,
      (cs.takeWhile Text.isBlank).dropWhile Line.isGap = d :: later := by
    refine List.exists_cons_of_ne_nil fun hempty => ?_
    rw [List.dropWhile_eq_nil_iff.mp hempty c hc] at hgap
    cases hgap
  have hd : Line.isGap d = false := Line.head?_dropWhile (by rw [hlater]; rfl)
  rw [hlater] at hsplit
  have hmem : d ∈ cs.takeWhile Text.isBlank := by
    rw [← hsplit]
    exact List.mem_append_right _ List.mem_cons_self
  refine ⟨(cs.takeWhile Text.isBlank).takeWhile Line.isGap, d,
    later ++ cs.dropWhile Text.isBlank, ?_, fun e he => List.mem_takeWhile_imp he,
    Line.isStray_iff.mpr ⟨List.mem_takeWhile_imp hmem, hd⟩⟩
  rw [← List.cons_append, ← List.append_assoc, hsplit, List.takeWhile_append_dropWhile]

theorem ofLine_fails (layout : Layout) {line offset : Nat} {halt : Halt ScanFault}
    (h : isBlankLine cs = false) (hfault : Line.tokens offset line cs = .error halt) :
    ∃ first, ofLine layout line offset cs = .error first := by
  cases hmove : layout.moveTo (Layout.measure (cs.takeWhile Layout.isIndent)) with
  | mk shift moved =>
    rw [ofLine_eq line offset h hmove]
    split
    · exact ⟨_, rfl⟩
    · rw [← Line.tokens, hfault]
      exact ⟨halt, rfl⟩

/-- The line is blank and one of the blanks in front is stray. -/
def HidesStray (cs : List Char) : Prop :=
  isBlankLine cs = true ∧ ∃ c ∈ cs.takeWhile Text.isBlank, Line.isGap c = false

instance : DecidablePred HidesStray := fun cs =>
  decidable_of_iff
    ((isBlankLine cs && (cs.takeWhile Text.isBlank).any fun c => !Line.isGap c) = true)
    (by simp only [HidesStray, Bool.and_eq_true, List.any_eq_true, Bool.not_eq_true'])

/-- A line counts for nothing if what is left of it, trimmed, is empty or a comment.  Below four
gigabytes scanning finds no tokens in just these lines, those apart that hide a stray blank.  They
are the lines that are passed over although scanning refuses them, for their first stray. -/
theorem isBlankLine_agrees (cs : List Char) (hbreak : '\n' ∉ cs) :
    (isBlankLine cs = true ↔ content cs = [] ∨ (content cs).head? = some '#') ∧
    ∀ offset line, offset + Text.byteLength cs < Span.limit →
      (Line.tokens offset line cs = .ok [] ↔ isBlankLine cs = true ∧ ¬ HidesStray cs) ∧
      (∀ layout, HidesStray cs ↔ (∃ fault, Line.tokens offset line cs = .error (.fault fault)) ∧
        ∃ read, ofLine layout line offset cs = .ok read) ∧
      (HidesStray cs → ∃ front c later, cs = front ++ c :: later ∧
        (∀ d ∈ front, Line.isGap d = true) ∧ Line.isStray c = true ∧
        Line.tokens offset line cs =
          .error (.fault ⟨.unexpectedCharacter c, Line.placeAfter offset line front [c]⟩)) := by
  refine ⟨isBlankLine_iff_content, fun offset line hsize => ?_⟩
  have hstray : HidesStray cs → ∃ front c later, cs = front ++ c :: later ∧
      (∀ d ∈ front, Line.isGap d = true) ∧ Line.isStray c = true ∧
      Line.tokens offset line cs =
        .error (.fault ⟨.unexpectedCharacter c, Line.placeAfter offset line front [c]⟩) := by
    rintro ⟨-, c, hc, hgap⟩
    obtain ⟨front, d, later, rfl, hfront, hd⟩ := exists_first_stray hc hgap
    exact ⟨front, d, later, rfl, hfront, hd, Line.tokens_stray hfront hd hsize line⟩
  have hplain (hblank : isBlankLine cs = true) (h : ¬ HidesStray cs) :
      Line.tokens offset line cs = .ok [] := by
    refine tokens_of_isBlankLine hblank hbreak (fun c hc => ?_) hsize line
    by_contra hgap
    exact h ⟨hblank, c, hc, Bool.not_eq_true _ ▸ hgap⟩
  refine ⟨⟨fun h => ⟨?_, fun hhides => ?_⟩, fun h => hplain h.1 h.2⟩, fun layout => ?_, hstray⟩
  · by_contra hblank
    exact Line.scan_ne_nil h (Bool.not_eq_true _ ▸ hblank) rfl
  · obtain ⟨_, _, _, -, -, -, hfault⟩ := hstray hhides
    rw [h] at hfault
    cases hfault
  constructor
  · intro hhides
    obtain ⟨_, _, _, -, -, -, hfault⟩ := hstray hhides
    refine ⟨⟨_, hfault⟩, ([], layout), ?_⟩
    unfold ofLine
    rw [hhides.1]
    rfl
  · rintro ⟨⟨fault, hfault⟩, read, hread⟩
    cases hblank : isBlankLine cs with
    | false =>
      obtain ⟨first, hfirst⟩ := ofLine_fails layout hblank hfault
      rw [hread] at hfirst
      cases hfirst
    | true =>
      by_contra hhides
      rw [hplain hblank hhides] at hfault
      cases hfault

theorem isBlankLine_agrees_comment :
    Line.tokens 0 1 ['\t', '#'] = .ok [] ∧ HidesStray ['\u00a0', '#'] ∧
      ∃ fault, Line.tokens 0 1 ['\u00a0', '#'] = .error (.fault fault) := by
  have htab := ((isBlankLine_agrees ['\t', '#'] (by decide)).2 0 1 (by decide)).1
  have hspace := ((isBlankLine_agrees ['\u00a0', '#'] (by decide)).2 0 1 (by decide)).2.1 {}
  have hhides : HidesStray ['\u00a0', '#'] := by decide
  exact ⟨htab.mpr ⟨by decide, by decide⟩, hhides, (hspace.mp hhides).1⟩

/-- A no-break space is passed over where it stands alone, and is a fault where anything follows. -/
theorem ofSource_noBreakSpace :
    isBlankLine ['\u00a0'] = true ∧ Line.tokens 0 1 ['\u00a0'] ≠ .ok [] ∧
      Line.tokens 0 1 ['\u00a0'] = .error (.fault ⟨.unexpectedCharacter '\u00a0', 1, 1, ⟨0, 2⟩⟩) ∧
      ofSource "\u00a0" = .ok [⟨⟨1, 2, ⟨2, 2⟩⟩, .endOfInput, ""⟩] ∧
      ofSource "\u00a0x" = .error (.fault ⟨.unexpectedCharacter '\u00a0', 1, 1, ⟨0, 2⟩⟩) := by
  have hscan : Line.tokens 0 1 ['\u00a0'] =
      .error (.fault ⟨.unexpectedCharacter '\u00a0', 1, 1, ⟨0, 2⟩⟩) := by decide +kernel
  refine ⟨by decide, ?_, hscan, by decide +kernel, by decide +kernel⟩
  rw [hscan]
  rintro ⟨⟩

end Token

end Splice
