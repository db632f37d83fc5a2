import Splice.Proofs.Compile.LineBreaks

/-! Lines that say nothing.  Lines of spaces and tabs, with or without a comment, may be put before,
between and after the lines of a text, and its line breaks may be written with a carriage return:
the text stays the same program, or stays none. -/
namespace Splice

open Spelling (dedents)
open Word (squeeze push)

namespace Line

theorem takeWhile_return {p : Char → Bool} (hp : p '\r' = false) (cs : List Char) :
    (cs ++ ['\r']).takeWhile p = cs.takeWhile p := by
  rw [List.takeWhile_append]
  split
  · rename_i hall
    rw [List.takeWhile_cons_of_neg (by simp [hp]), List.append_nil]
    exact ((List.takeWhile_prefix p).eq_of_length hall).symm
  · rfl

/-- A run of characters ends where it ended, or it takes the whole line and the return. -/
theorem takeWhile_return_cases {p : Char → Bool} (hp : p '\r' = true) (cs : List Char) :
    (cs ++ ['\r']).takeWhile p = cs.takeWhile p ∨
      cs.takeWhile p = cs ∧ (cs ++ ['\r']).takeWhile p = cs ++ ['\r'] := by
  rw [List.takeWhile_append]
  split
  · rename_i hall
    rw [List.takeWhile_cons_of_pos hp]
    exact .inr ⟨(List.takeWhile_prefix p).eq_of_length hall, rfl⟩
  · exact .inl rfl

theorem closingQuote_return {q : Char} (hq : isQuote q = true) (cs : List Char) :
    ∃ body, (cs ++ ['\r']).takeWhile (fun d => d ≠ q && d ≠ '\n') = body ∧
      ((cs ++ ['\r'])[body.length]? = some q ↔
        cs[(cs.takeWhile fun d => d ≠ q && d ≠ '\n').length]? = some q) ∧
      ((cs ++ ['\r'])[body.length]? = some q →
        body = cs.takeWhile fun d => d ≠ q && d ≠ '\n') := by
  have hreturn : '\r' ≠ q := by
    rintro rfl
    cases hq
  refine ⟨_, rfl, ?_⟩
  rcases takeWhile_return_cases (p := fun d => d ≠ q && d ≠ '\n') (by simp [hreturn]) cs with
    hsame | ⟨hall, hmore⟩
  · rw [hsame]
    refine ⟨?_, fun _ => rfl⟩
    rw [List.getElem?_append]
    split
    · rfl
    · rename_i hlong
      rw [List.getElem?_eq_none (Nat.le_of_not_lt hlong), List.getElem?_singleton]
      split <;> simp [hreturn]
  · rw [hall, hmore]
    simp

/-- A carriage return at the end of a line is dropped with a gap or a comment, or left over. -/
theorem munch_return (c : Char) (cs : List Char) :
    munch c (cs ++ ['\r']) = munch c cs ∨
      ∃ stretch, stretch.words = [] ∧ munch c cs = some (stretch, cs.length) ∧
        munch c (cs ++ ['\r']) = some (stretch, cs.length + 1) := by
  have hhead : (cs ++ ['\r']).head? = some '=' ↔ cs.head? = some '=' := by
    cases cs <;> simp
  unfold munch
  split
  · rcases takeWhile_return_cases (p := isGap) rfl cs with hsame | ⟨hall, hmore⟩
    · exact .inl (by rw [hsame])
    · exact .inr ⟨.gap, rfl, by rw [hall],
        by rw [hmore, List.length_append, List.length_singleton]⟩
  split
  · rcases takeWhile_return_cases (p := (· ≠ '\n')) rfl cs with hsame | ⟨hall, hmore⟩
    · exact .inl (by rw [hsame])
    · exact .inr ⟨.comment, rfl, by rw [hall],
        by rw [hmore, List.length_append, List.length_singleton]⟩
  left
  simp only [takeWhile_return (p := isWordPart) rfl, takeWhile_return (p := Char.isDigit) rfl,
    hhead]
  split
  · rfl
  split
  · rfl
  split
  · rename_i hquote
    obtain ⟨body, hbody, hcloses, hsame⟩ := closingQuote_return hquote cs
    rw [hbody]
    by_cases hclose : (cs ++ ['\r'])[body.length]? = some c
    · rw [if_pos hclose, if_pos (hcloses.mp hclose), hsame hclose]
    · rw [if_neg hclose, if_neg fun h => hclose (hcloses.mpr h)]
  · rfl

theorem words_return (cs : List Char) : words (cs ++ ['\r']) = words cs := by
  fun_induction words cs with
  | case1 => rw [List.nil_append, words_gap rfl, words]
  | case2 c cs hmunch =>
    rcases munch_return c cs with hsame | ⟨stretch, -, hall, -⟩
    · exact words_none (hsame.trans hmunch)
    · rw [hmunch] at hall
      cases hall
  | case3 c cs stretch more hmunch ih =>
    rcases munch_return c cs with hsame | ⟨_, hnone, hall, hmore⟩
    · rw [List.cons_append, words_stretch (hsame.trans hmunch),
        List.drop_append_of_le_length (munch_takes hmunch).1, ih]
    · cases hmunch.symm.trans hall
      rw [List.cons_append, words_stretch hmore, List.drop_length,
        List.drop_eq_nil_of_le (by simp)]

end Line

namespace Token

theorem isBlankLine_return (cs : List Char) : isBlankLine (cs ++ ['\r']) = isBlankLine cs := by
  unfold isBlankLine Text.dropBlanks
  rw [List.dropWhile_append]
  cases hdrop : cs.dropWhile Text.isBlank with
  | nil => rfl
  | cons c rest => rfl

theorem lineWords_return (layout : Layout) (cs : List Char) :
    lineWords layout (cs ++ ['\r']) = lineWords layout cs := by
  unfold lineWords
  rw [isBlankLine_return, Line.takeWhile_return rfl, Line.words_return]

end Token

namespace Text

def IsFiller (line : List Char) : Prop :=
  ∃ pad comment, line = pad ++ comment ∧ (∀ c ∈ pad, c = ' ' ∨ c = '\t') ∧
    (comment = [] ∨ ∃ body, comment = '#' :: body ∧ '\n' ∉ body)

def IsBreak (lineBreak : List Char) : Prop :=
  lineBreak = ['\n'] ∨ lineBreak = ['\r', '\n']

/-- A text, from the start of a line on, and the same text with fillers put between its lines and
carriage returns put before line breaks. -/
inductive Respaced : List Char → List Char → Prop where
  | last {line : List Char} (hline : '\n' ∉ line) : Respaced line line
  | line {line lineBreak cs ds : List Char} (hline : '\n' ∉ line) (hbreak : IsBreak lineBreak)
      (h : Respaced cs ds) : Respaced (line ++ '\n' :: cs) (line ++ lineBreak ++ ds)
  | filler {line lineBreak cs ds : List Char} (hline : IsFiller line) (hbreak : IsBreak lineBreak)
      (h : Respaced cs ds) : Respaced cs (line ++ lineBreak ++ ds)
  | after {line lineBreak ds : List Char} (hline : '\n' ∉ line) (hbreak : IsBreak lineBreak)
      (h : Respaced [] ds) : Respaced line (line ++ lineBreak ++ ds)
  /-- A filler after the last line break. -/
  | lastFiller {line : List Char} (hline : IsFiller line) : Respaced [] line

theorem IsFiller.no_newline {line : List Char} (h : IsFiller line) : '\n' ∉ line := by
  obtain ⟨pad, comment, rfl, hpad, hcomment⟩ := h
  rw [List.mem_append]
  rintro (hmem | hmem)
  · rcases hpad _ hmem with h | h <;> cases h
  · rcases hcomment with rfl | ⟨body, rfl, hbody⟩
    · cases hmem
    · simp [hbody] at hmem

theorem IsFiller.isBlankLine {line : List Char} (h : IsFiller line) :
    Token.isBlankLine line = true := by
  obtain ⟨pad, comment, rfl, hpad, hcomment⟩ := h
  have hblank : ∀ c ∈ pad, isBlank c = true := by
    intro c hc
    rcases hpad c hc with rfl | rfl <;> rfl
  unfold Token.isBlankLine dropBlanks
  rw [List.dropWhile_append_of_pos hblank]
  rcases hcomment with rfl | ⟨body, rfl, -⟩ <;> rfl

end Text

namespace Token

variable {layout : Layout} {line lineBreak cs ds : List Char}

def gistFrom (layout : Layout) (cs : List Char) : Option (List Word) :=
  (linesWords layout 1 (Text.cut cs).1 (Text.cut cs).2).toOption.map fun ws =>
    squeeze (Kind.newline.word :: ws)

/-- The number of its first line does not matter for the words of a text. -/
theorem toOption_linesWords (layout : Layout) (first second : Nat) (cs : List Char)
    (later : List (List Char)) : (linesWords layout first cs later).toOption =
      (linesWords layout second cs later).toOption := by
  induction later generalizing layout first second cs with
  | nil =>
    rw [linesWords, linesWords]
    split <;> rfl
  | cons next more ih =>
    rw [linesWords, linesWords]
    split
    · rfl
    · rename_i us moved _
      have hrest := ih moved (first + 1) (second + 1) next
      cases hfirst : linesWords moved (first + 1) next more <;>
        cases hsecond : linesWords moved (second + 1) next more <;>
        rw [hfirst, hsecond] at hrest <;> cases hrest <;> rfl

theorem gistFrom_last (hline : '\n' ∉ line) : gistFrom layout line =
    (lineWords layout line).toOption.map fun read =>
      squeeze (Kind.newline.word ::
        (read.1 ++ (dedents read.2.depth ++ [Kind.endOfInput.word]))) := by
  unfold gistFrom
  rw [Text.cut_line hline, linesWords]
  cases lineWords layout line <;> rfl

theorem gistFrom_break (hline : '\n' ∉ line) (hbreak : Text.IsBreak lineBreak) (cs : List Char) :
    gistFrom layout (line ++ lineBreak ++ cs) =
      (lineWords layout line).toOption.bind fun read =>
        (gistFrom read.2 cs).map fun ws => (Kind.newline.word :: read.1).foldr push ws := by
  have hplain {line : List Char} (hline : '\n' ∉ line) : gistFrom layout (line ++ '\n' :: cs) =
      (lineWords layout line).toOption.bind fun read =>
        (gistFrom read.2 cs).map fun ws => (Kind.newline.word :: read.1).foldr push ws := by
    unfold gistFrom
    rw [Text.cut_line_break hline, linesWords]
    cases lineWords layout line with
    | error cause => rfl
    | ok read =>
      simp only [Except.toOption, Option.bind_some]
      have hrest := toOption_linesWords read.2 1 (1 + 1) (Text.cut cs).1 (Text.cut cs).2
      simp only [Except.toOption] at hrest
      rw [hrest]
      cases linesWords read.2 (1 + 1) (Text.cut cs).1 (Text.cut cs).2 with
      | error cause => rfl
      | ok ws => exact congrArg some (Word.squeeze_append (_ :: read.1) (_ :: ws))
  rcases hbreak with rfl | rfl
  · rw [List.append_assoc]
    exact hplain hline
  · rw [show line ++ ['\r', '\n'] ++ cs = (line ++ ['\r']) ++ '\n' :: cs by simp,
      hplain (by simpa using hline), lineWords_return]

theorem gistFrom_filler (hline : Text.IsFiller line) (hbreak : Text.IsBreak lineBreak)
    (cs : List Char) : gistFrom layout (line ++ lineBreak ++ cs) = gistFrom layout cs := by
  have hwords : lineWords layout line = .ok ([], layout) := if_pos hline.isBlankLine
  rw [gistFrom_break hline.no_newline hbreak, hwords]
  change (gistFrom layout cs).map (push Kind.newline.word) = gistFrom layout cs
  unfold gistFrom
  rw [Option.map_map]
  congr 1
  funext ws
  exact Word.squeeze_newlines ws

theorem gistFrom_respaced (h : Text.Respaced cs ds) (layout : Layout) :
    gistFrom layout ds = gistFrom layout cs := by
  induction h generalizing layout with
  | last hline => rfl
  | @line line lineBreak cs ds hline hbreak _ ih =>
    have hsource := @gistFrom_break layout line ['\n'] hline (.inl rfl) cs
    rw [List.append_assoc] at hsource
    rw [gistFrom_break hline hbreak]
    simp only [ih]
    exact hsource.symm
  | filler hline hbreak _ ih => rw [gistFrom_filler hline hbreak, ih]
  | @after line lineBreak ds hline hbreak _ ih =>
    -- The closing dedents count as much behind the added lines as directly behind the last one.
    rw [gistFrom_break hline hbreak, gistFrom_last hline]
    simp only [ih]
    cases lineWords layout line with
    | error cause => rfl
    | ok read =>
      have hnone : gistFrom read.2 [] =
          some (squeeze (dedents read.2.depth ++ [Kind.endOfInput.word])) :=
        congrArg some (Word.squeeze_closing read.2.depth)
      simp only [Except.toOption, Option.bind_some, hnone]
      exact congrArg some (Word.squeeze_append (_ :: read.1) _).symm
  | lastFiller hline =>
    have hwords : lineWords layout _ = .ok ([], layout) := if_pos hline.isBlankLine
    rw [gistFrom_last hline.no_newline, hwords]
    rfl

end Token

theorem Text.Respaced.byteLength_le {cs ds : List Char} (h : Respaced cs ds) :
    byteLength cs ≤ byteLength ds := by
  have hone {lineBreak : List Char} (hbreak : IsBreak lineBreak) :
      byteLength ['\n'] ≤ byteLength lineBreak := by
    rcases hbreak with rfl | rfl <;> decide
  induction h with
  | last hline => exact Nat.le_refl _
  | line hline hbreak _ ih =>
    have hbreak := hone hbreak
    rw [← List.singleton_append]
    simp only [byteLength_append]
    omega
  | filler hline hbreak _ ih =>
    simp only [byteLength_append]
    omega
  | after hline hbreak _ ih =>
    simp only [byteLength_append]
    omega
  | lastFiller hline => exact Nat.zero_le _

theorem Text.isFiller_longComment (length : Nat) : IsFiller (longComment length).toList := by
  refine ⟨[], _, rfl, List.forall_mem_nil _, .inr ⟨_, String.toList_ofList, ?_⟩⟩
  intro hmem
  exact absurd (List.eq_of_mem_replicate hmem) (by decide)

end Splice
