import Splice.Proofs.Token.Places

/-! Texts that go on past the limit of offsets.  A name that the limit cuts has no span, and neither
has a line break there, so such a text crashes the program although its words are in order. -/
namespace Splice

open Spelling (dedents)

def longName (length : Nat) : String :=
  String.ofList (List.replicate length 'b')

def longComment (length : Nat) : String :=
  String.ofList ('#' :: List.replicate length '-')

section

variable {length : Nat}

theorem byteLength_replicate {c : Char} (hc : c.utf8Size = 1) (count : Nat) :
    Text.byteLength (List.replicate count c) = count := by
  induction count with
  | zero => rfl
  | succ count ih => rw [List.replicate_succ, Text.byteLength_cons, ih, hc, Nat.add_comm]

theorem utf8ByteSize_longComment (length : Nat) :
    (longComment length).utf8ByteSize = length + 1 := by
  rw [longComment, ← Text.byteLength_ofList, Text.byteLength_cons,
    byteLength_replicate (by decide), Nat.add_comm]
  rfl

theorem newline_notMem_longComment (length : Nat) : '\n' ∉ (longComment length).toList := by
  rw [longComment, String.toList_ofList]
  intro hmem
  rcases List.mem_cons.mp hmem with hmark | hmore
  · exact absurd hmark (by decide)
  · exact absurd (List.eq_of_mem_replicate hmore) (by decide)

theorem utf8ByteSize_longName (length : Nat) : (longName length).utf8ByteSize = length := by
  rw [longName, ← Text.byteLength_ofList, byteLength_replicate (by decide)]

theorem newline_notMem_longName (length : Nat) : '\n' ∉ (longName length).toList := by
  rw [longName, String.toList_ofList]
  intro hmem
  exact absurd (List.eq_of_mem_replicate hmem) (by decide)

theorem ofWord?_longName (length : Nat) : Kind.ofWord? (longName length) = none := by
  have hother {word : String} {kind : Kind} (h : Kind.ofWord? word = some kind) :
      word.toList.any (· != 'b') = true := by
    unfold Kind.ofWord? at h
    split at h <;> cases h <;> decide
  cases h : Kind.ofWord? (longName length) with
  | none => rfl
  | some kind =>
    obtain ⟨c, hc, hne⟩ := List.any_eq_true.mp (hother h)
    rw [longName, String.toList_ofList] at hc
    exact absurd (List.eq_of_mem_replicate hc) (bne_iff_ne.mp hne)

theorem isPlainName_longName (hlength : 0 < length) : isPlainName (longName length) = true := by
  obtain ⟨more, rfl⟩ := Nat.exists_eq_add_of_lt hlength
  have hplain := ofWord?_longName (0 + more + 1)
  unfold isPlainName
  rw [hplain, longName, String.toList_ofList, List.replicate_succ]
  simp only [Option.isNone_none, Bool.and_true, Bool.and_eq_true, List.all_eq_true]
  refine ⟨by decide, fun c hc => ?_⟩
  rw [List.eq_of_mem_replicate hc]
  decide

end

namespace Line

variable {line column offset start stop : Nat}

theorem between_crash {ε : Type} (h : stop % Span.limit < start % Span.limit) :
    (Span.between start stop : Except (Halt ε) Span) = .error .crash := by
  unfold Span.between
  rw [if_neg (Nat.not_le_of_lt h)]

theorem words_longName {length : Nat} (hlength : 0 < length) :
    words (longName length).toList = .ok [(.ident, longName length)] := by
  obtain ⟨more, rfl⟩ := Nat.exists_eq_add_of_lt hlength
  have hall : ∀ d ∈ List.replicate (0 + more) 'b', isWordPart d = true := by
    intro d hd
    rw [List.eq_of_mem_replicate hd]
    decide
  have hread := @Reads.word 'b' _ [] [] (by decide) hall nofun Reads.nil
  rw [List.append_nil, ← List.replicate_succ, ← longName] at hread
  have hkind : Kind.ofWord (longName (0 + more + 1)) = .ident := by
    rw [Kind.ofWord, ofWord?_longName]
    rfl
  rw [longName, String.toList_ofList, ← longName, ← hkind]
  exact hread

theorem scan_longName {length : Nat} (hlength : 0 < length)
    (hcut : (offset + length) % Span.limit < offset % Span.limit) :
    scan line column offset (List.replicate length 'b') = .error .crash := by
  obtain ⟨more, rfl⟩ := Nat.exists_eq_add_of_lt hlength
  have hbytes : Text.byteLength (List.replicate (0 + more + 1) 'b') = 0 + more + 1 :=
    byteLength_replicate rfl _
  rw [List.replicate_succ] at hbytes ⊢
  have hall : ∀ d ∈ List.replicate (0 + more) 'b', isWordPart d = true := by
    intro d hd
    rw [List.eq_of_mem_replicate hd]
    decide
  have htake : (List.replicate (0 + more) 'b').takeWhile isWordPart =
      List.replicate (0 + more) 'b' := List.takeWhile_eq_self_iff.mpr hall
  have hmunch : munch 'b' (List.replicate (0 + more) 'b') = some (.token
      (Kind.ofWord (String.ofList ('b' :: List.replicate (0 + more) 'b')))
      ('b' :: List.replicate (0 + more) 'b'), (List.replicate (0 + more) 'b').length) := by
    conv => rhs; rw [← htake]
    rfl
  rw [scan, hmunch]
  dsimp only [Stretch.tokens]
  rw [List.take_length, hbytes, between_crash hcut]
  rfl

end Line

namespace Token

variable {layout moved : Layout} {line offset : Nat} {cs next : List Char}
  {later : List (List Char)} {own : List Token}

theorem ofLine_crash {shift : Layout.Shift} (hblank : isBlankLine cs = false)
    (hmove : layout.moveTo (Layout.measure (cs.takeWhile Layout.isIndent)) = (shift, moved))
    (hshift : ∀ expected, shift ≠ .mismatch expected)
    (hscan : Line.scan line 1 offset cs = .error .crash) :
    ofLine layout line offset cs = .error .crash := by
  rw [ofLine_eq line offset hblank hmove, hscan]
  cases shift with
  | opens | closes count => rfl
  | mismatch expected => exact absurd rfl (hshift expected)

theorem ofLines_crash (h : ofLine layout line offset cs = .error .crash) :
    ofLines layout line offset cs later = .error .crash := by
  cases later with
  | nil =>
    rw [ofLines, h]
    rfl
  | cons next later =>
    rw [ofLines, h]
    rfl

theorem ofLines_break_crash (h : ofLine layout line offset cs = .ok (own, moved))
    (hcut : (offset + Text.byteLength cs + 1) % Span.limit <
      (offset + Text.byteLength cs) % Span.limit) :
    ofLines layout line offset cs (next :: later) = .error .crash := by
  rw [ofLines, h]
  simp only [bind, Except.bind]
  rw [Line.between_crash hcut]

/-- A crash behind a line is a crash of the line and what comes after it. -/
theorem ofLines_later_crash (h : ofLine layout line offset cs = .ok (own, moved))
    (hlater : ofLines moved (line + 1) (offset + Text.byteLength cs + 1) next later =
      .error .crash) : ofLines layout line offset cs (next :: later) = .error .crash := by
  rw [ofLines, h]
  simp only [bind, Except.bind, hlater]
  rcases @Span.between_cases ScanFault (offset + Text.byteLength cs)
    (offset + Text.byteLength cs + 1) with hcrash | ⟨span, hspan⟩
  · rw [hcrash]
  · rw [hspan]

theorem ofLine_longName {length : Nat} (hlength : 0 < length)
    (hcut : (offset + length) % Span.limit < offset % Span.limit) :
    ofLine {} line offset (List.replicate length 'b') = .error .crash := by
  obtain ⟨more, rfl⟩ := Nat.exists_eq_add_of_lt hlength
  refine @ofLine_crash {} {} _ _ _ (.closes 0) ?_ ?_ nofun (Line.scan_longName hlength hcut)
  · rw [List.replicate_succ, isBlankLine, Text.dropBlanks, List.dropWhile_cons_of_neg (by decide)]
    rfl
  · rw [List.replicate_succ, List.takeWhile_cons_of_neg (by decide)]
    rfl

/-- The words of a last line with such a name, indented like the line before. -/
theorem linesWords_longName {length width : Nat} (hlength : 0 < length)
    (hmove : layout.moveTo width = (.closes 0, layout)) (line : Nat) :
    linesWords layout line (List.replicate width ' ' ++ (longName length).toList) [] =
      .ok ((.ident, longName length) :: (dedents layout.depth ++ [Kind.endOfInput.word])) := by
  obtain ⟨more, rfl⟩ := Nat.exists_eq_add_of_lt hlength
  have hspaces : ∀ c ∈ List.replicate width ' ', Layout.isIndent c = true := by
    intro c hc
    rw [List.eq_of_mem_replicate hc]
    rfl
  have hname : (longName (0 + more + 1)).toList = 'b' :: List.replicate (0 + more) 'b' := by
    rw [longName, String.toList_ofList, List.replicate_succ]
  have htake : (List.replicate width ' ' ++ (longName (0 + more + 1)).toList).takeWhile
      Layout.isIndent = List.replicate width ' ' := by
    rw [List.takeWhile_append_of_pos hspaces, hname, List.takeWhile_cons_of_neg (by decide),
      List.append_nil]
  have hblank : isBlankLine (List.replicate width ' ' ++ (longName (0 + more + 1)).toList) =
      false := by
    rw [isBlankLine, Text.dropBlanks, List.dropWhile_append_of_pos, hname,
      List.dropWhile_cons_of_neg (by decide)]
    · rfl
    · intro c hc
      rw [List.eq_of_mem_replicate hc]
      rfl
  have hmoved : layout.moveTo (Layout.measure ((List.replicate width ' ' ++
      (longName (0 + more + 1)).toList).takeWhile Layout.isIndent)) = (.closes 0, layout) := by
    rw [htake, Layout.measure_spaces, hmove]
  rw [linesWords, lineWords_eq hblank hmoved (by rintro _ ⟨⟩), Line.words_indent hspaces,
    Line.words_longName hlength]
  rfl

theorem ofLine_longComment (layout : Layout) (line offset length : Nat) :
    ofLine layout line offset (longComment length).toList = .ok ([], layout) := by
  rw [longComment, String.toList_ofList]
  rfl

theorem ofSource_longComment (length : Nat) (text : String) :
    ofSource (longComment length ++ "\n" ++ text) =
      ofLines {} 1 0 (longComment length).toList (Text.pieces text.toList) := by
  unfold ofSource ofList
  rw [Text.cut_first (newline_notMem_longComment length)]
  rfl

theorem ofSource_behind_longComment :
    ofSource (longComment 4294967293 ++ "\n" ++ "ab") = .error .crash := by
  rw [ofSource_longComment]
  refine ofLines_later_crash (ofLine_longComment _ _ _ _) ?_
  rw [Text.byteLength_toList, utf8ByteSize_longComment]
  decide +kernel

theorem ofSource_longName {source first : String} {length : Nat} (hlength : 0 < length)
    (hsource : Text.cut source.toList = (first.toList, (longName length).toList :: later))
    (hfirst : ofLine {} 1 0 first.toList = .ok (own, {}))
    (hcut : (first.utf8ByteSize + 1 + length) % Span.limit <
      (first.utf8ByteSize + 1) % Span.limit) : ofSource source = .error .crash := by
  unfold ofSource ofList
  rw [hsource]
  refine ofLines_later_crash hfirst (ofLines_crash ?_)
  rw [longName, String.toList_ofList]
  apply ofLine_longName hlength
  rwa [Nat.zero_add, Text.byteLength_toList]

end Token

end Splice
