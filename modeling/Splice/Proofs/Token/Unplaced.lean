import Splice.Proofs.Text.Pieces
import Splice.Proofs.Tree.Spelling
import Splice.Token.Stream

/-! Scanning without places.  The words of a text, or the line and the cause of its fault, follow
from its lines and their widths alone.  They are computed here without columns and offsets, and
scanning gives the same unless it crashes, which it does not in a text of less than four
gigabytes. -/
namespace Splice

open Spelling (dedents)

theorem exists_of_map_eq_ok {ε α β : Type} {x : Except ε α} {f : α → β} {b : β}
    (h : x.map f = .ok b) : ∃ a, x = .ok a ∧ f a = b := by
  cases x with
  | error e => cases h
  | ok a => exact ⟨a, rfl, Except.ok.inj h⟩

theorem eq_error_of_map {ε α β : Type} {x : Except ε α} {f : α → β} {e : ε}
    (h : x.map f = .error e) : x = .error e := by
  cases x with
  | error e' => exact congrArg Except.error (Except.error.inj h)
  | ok a => cases h

def ScanFault.reason (fault : ScanFault) : Nat × ScanFault.Cause :=
  (fault.place.line, fault.cause)

theorem eq_ok_of_mapError {ε δ α : Type} {x : Except ε α} {f : ε → δ} {a : α}
    (h : x.mapError f = .ok a) : x = .ok a := by
  cases x with
  | error e => cases h
  | ok b => exact congrArg Except.ok (Except.ok.inj h)

theorem exists_of_mapError_eq_error {ε δ α : Type} {x : Except ε α} {f : ε → δ} {d : δ}
    (h : x.mapError f = .error d) : ∃ e, x = .error e ∧ f e = d := by
  cases x with
  | error e => exact ⟨e, rfl, Except.error.inj h⟩
  | ok b => cases h

/-- An outcome of scanning is a crash, or what it should be but for places. -/
def Token.Follows (outcome : Except (Halt ScanFault) (List Token))
    (words : Except (Nat × ScanFault.Cause) (List Word)) : Prop :=
  outcome = .error .crash ∨
    (∃ tokens, outcome = .ok tokens ∧ words = .ok (tokens.map Token.word)) ∨
    ∃ fault, outcome = .error (.fault fault) ∧ words = .error fault.reason

namespace Line

def Stretch.words : Stretch → List Word
  | .gap | .comment => []
  | .token kind text => [(kind, String.ofList text)]

theorem Stretch.tokens_cases (stretch : Stretch) (line column start stop : Nat) :
    stretch.tokens line column start stop = .error .crash ∨
      ∃ own, stretch.tokens line column start stop = .ok own ∧
        own.map Token.word = stretch.words := by
  cases stretch with
  | gap => exact .inr ⟨[], rfl, rfl⟩
  | comment =>
    unfold Stretch.tokens
    rcases @Span.between_cases ScanFault start stop with hcrash | ⟨span, hspan⟩
    · exact .inl (by rw [hcrash]; rfl)
    · exact .inr ⟨[], by rw [hspan]; rfl, rfl⟩
  | token kind text =>
    unfold Stretch.tokens
    rcases @Span.between_cases ScanFault start stop with hcrash | ⟨span, hspan⟩
    · exact .inl (by rw [hcrash]; rfl)
    · exact .inr ⟨[⟨⟨line, column, span⟩, kind, String.ofList text⟩], by rw [hspan]; rfl, rfl⟩

theorem Stretch.tokens_words {stretch : Stretch} {line column start stop : Nat} {own : List Token}
    (h : stretch.tokens line column start stop = .ok own) :
    own.map Token.word = stretch.words := by
  rcases stretch.tokens_cases line column start stop with hcrash | ⟨_, hown, hwords⟩
  · cases h.symm.trans hcrash
  · cases h.symm.trans hown
    exact hwords

theorem Stretch.tokens_token {kind : Kind} {text : List Char} {line column start stop : Nat}
    {own : List Token} (h : (Stretch.token kind text).tokens line column start stop = .ok own) :
    ∃ span, (Span.between start stop : Except (Halt ScanFault) Span) = .ok span ∧
      own = [⟨⟨line, column, span⟩, kind, String.ofList text⟩] := by
  rw [Stretch.tokens] at h
  obtain ⟨span, hspan, rfl⟩ := exists_of_map_eq_ok h
  exact ⟨span, hspan, rfl⟩

theorem Stretch.tokens_crash {stretch : Stretch} {line column start stop : Nat}
    {halt : Halt ScanFault} (h : stretch.tokens line column start stop = .error halt) :
    halt = .crash := by
  rcases stretch.tokens_cases line column start stop with hcrash | ⟨_, hown, -⟩
  · cases h.symm.trans hcrash
    rfl
  · cases h.symm.trans hown

theorem Stretch.tokens_ne_crash {stretch : Stretch} {line column start stop : Nat}
    (h : start % Span.limit ≤ stop % Span.limit) :
    stretch.tokens line column start stop ≠ .error .crash := by
  cases stretch with
  | gap => exact nofun
  | comment | token =>
    rw [Stretch.tokens, Span.between, if_pos h]
    exact nofun

def cause (c : Char) : ScanFault.Cause :=
  if isQuote c then .unterminatedString else .unexpectedCharacter c

def words : List Char → Except ScanFault.Cause (List Word)
  | [] => .ok []
  | c :: cs =>
    match munch c cs with
    | none => .error (cause c)
    | some (stretch, more) => (words (cs.drop more)).map (stretch.words ++ ·)
termination_by cs => cs.length
decreasing_by simp only [List.length_drop, List.length_cons]; omega

theorem words_nil : words [] = .ok [] := by
  rw [words]

theorem words_none {c : Char} {cs : List Char} (h : munch c cs = none) :
    words (c :: cs) = .error (cause c) := by
  rw [words, h]

theorem words_stretch {c : Char} {cs : List Char} {stretch : Stretch} {more : Nat}
    (h : munch c cs = some (stretch, more)) :
    words (c :: cs) = (words (cs.drop more)).map (stretch.words ++ ·) := by
  rw [words, h]

theorem map_nil_append {ε : Type} (outcome : Except ε (List Word)) :
    outcome.map (([] : List Word) ++ ·) = outcome := by
  cases outcome <;> rfl

theorem fault_cases (line column offset : Nat) (c : Char) (cs : List Char) :
    fault line column offset c cs = .crash ∨
      ∃ found, fault line column offset c cs = .fault found ∧ found.reason = (line, cause c) := by
  unfold fault
  dsimp only
  rcases @Span.between_cases ScanFault offset
    (offset + if isQuote c then Text.byteLength (c :: cs) else c.utf8Size) with
    hcrash | ⟨span, hspan⟩
  · rw [hcrash]
    exact .inl rfl
  · rw [hspan]
    exact .inr ⟨_, rfl, rfl⟩

/-- The position where nothing matches is part of the text, so its span is in bounds if the text
is. -/
theorem fault_ne_crash {line column offset : Nat} {c : Char} {cs : List Char}
    (hsize : offset + Text.byteLength (c :: cs) < Span.limit) :
    fault line column offset c cs ≠ .crash := by
  unfold fault
  dsimp only
  rw [Span.between_eq (Nat.le_add_right _ _)]
  · exact nofun
  · rw [Text.byteLength_cons] at hsize ⊢
    split <;> omega

theorem scan_follows (line column offset : Nat) (cs : List Char) :
    Token.Follows (scan line column offset cs) ((words cs).mapError (line, ·)) := by
  fun_induction scan line column offset cs with
  | case1 =>
    rw [words_nil]
    exact .inr (.inl ⟨[], rfl, rfl⟩)
  | case2 column offset c cs hmunch =>
    rw [words_none hmunch]
    rcases fault_cases line column offset c cs with hcrash | ⟨found, hfound, hreason⟩
    · exact .inl (congrArg Except.error hcrash)
    · exact .inr (.inr ⟨found, congrArg Except.error hfound, congrArg Except.error hreason.symm⟩)
  | case3 column offset c cs stretch more hmunch stop halt hown =>
    rw [Stretch.tokens_crash hown]
    exact .inl rfl
  | case4 column offset c cs stretch more hmunch stop own hown halt hscan ih =>
    rw [words_stretch hmunch]
    rw [hscan] at ih
    obtain ⟨⟨⟩⟩ | ⟨_, ⟨⟩, _⟩ | ⟨found, ⟨⟩, hwords⟩ := ih
    · exact .inl rfl
    · cases hrest : words (cs.drop more) with
      | ok us =>
        rw [hrest] at hwords
        cases hwords
      | error cause =>
        rw [hrest] at hwords
        exact .inr (.inr ⟨found, rfl, hwords⟩)
  | case5 column offset c cs stretch more hmunch stop own hown later hscan ih =>
    rw [words_stretch hmunch]
    rw [hscan] at ih
    obtain ⟨⟨⟩⟩ | ⟨_, ⟨⟩, hwords⟩ | ⟨_, ⟨⟩, _⟩ := ih
    cases hrest : words (cs.drop more) with
    | error cause =>
      rw [hrest] at hwords
      cases hwords
    | ok us =>
      rw [hrest] at hwords
      cases hwords
      refine .inr (.inl ⟨_, rfl, ?_⟩)
      rw [List.map_append, Stretch.tokens_words hown]
      rfl

theorem words_of_scan {line column offset : Nat} {cs : List Char} {tokens : List Token}
    (h : scan line column offset cs = .ok tokens) : words cs = .ok (tokens.map Token.word) := by
  have hfollows := scan_follows line column offset cs
  rw [h] at hfollows
  obtain ⟨⟨⟩⟩ | ⟨_, ⟨⟩, hwords⟩ | ⟨_, ⟨⟩, _⟩ := hfollows
  exact eq_ok_of_mapError hwords

theorem munch_rest {c : Char} (cs : List Char) (more : Nat) :
    Text.byteLength (c :: cs.take more) + Text.byteLength (cs.drop more) =
      Text.byteLength (c :: cs) := by
  rw [← Text.byteLength_append, List.cons_append, List.take_append_drop]

/-- A scan does not crash if neither its first stretch nor what comes after that crashes. -/
theorem scan_nil_ne_crash (line column offset : Nat) :
    scan line column offset [] ≠ .error .crash := by
  rw [scan]
  rintro ⟨⟩

theorem scan_ne_crash_of_munch {line column offset stop : Nat} {c : Char} {cs : List Char}
    {stretch : Stretch} {more : Nat} (hmunch : munch c cs = some (stretch, more))
    (hstop : stop = offset + Text.byteLength (c :: cs.take more))
    (hsafe : stretch.tokens line column offset stop ≠ .error .crash)
    (hrest : scan line (column + more + 1) stop (cs.drop more) ≠ .error .crash) :
    scan line column offset (c :: cs) ≠ .error .crash := by
  subst hstop
  rw [scan, hmunch]
  dsimp only
  cases hown : stretch.tokens line column offset
    (offset + Text.byteLength (c :: cs.take more)) with
  | error halt =>
    rintro ⟨⟩
    exact hsafe hown
  | ok own =>
    cases hscan : scan line (column + more + 1)
      (offset + Text.byteLength (c :: cs.take more)) (cs.drop more) with
    | error halt =>
      rintro ⟨⟩
      exact hrest hscan
    | ok later => rintro ⟨⟩

theorem scan_ne_crash {line column offset : Nat} {cs : List Char}
    (hsize : offset + Text.byteLength cs < Span.limit) :
    scan line column offset cs ≠ .error .crash := by
  induction hlength : cs.length using Nat.strong_induction_on generalizing column offset cs with
  | _ length ih =>
    cases cs with
    | nil => exact scan_nil_ne_crash line column offset
    | cons c cs =>
      cases hmunch : munch c cs with
      | none =>
        rw [scan, hmunch]
        exact fun h => fault_ne_crash hsize (Except.error.inj h)
      | some found =>
        have hrest := @munch_rest c cs found.2
        refine scan_ne_crash_of_munch hmunch rfl ?_ (ih _ ?_ (by omega) rfl)
        · apply Stretch.tokens_ne_crash
          rw [Nat.mod_eq_of_lt (by omega), Nat.mod_eq_of_lt (by omega)]
          exact Nat.le_add_right _ _
        · rw [← hlength, List.length_drop, List.length_cons]
          omega

theorem munch_gap {c : Char} (hc : isGap c = true) (cs : List Char) :
    munch c cs = some (.gap, (cs.takeWhile isGap).length) := by
  unfold munch
  rw [if_pos hc]

theorem words_gap {c : Char} (hc : isGap c = true) (cs : List Char) :
    words (c :: cs) = words cs := by
  have hskip (c : Char) (hc : isGap c = true) (cs : List Char) :
      words (c :: cs) = words (cs.dropWhile isGap) := by
    rw [words_stretch (munch_gap hc cs), drop_takeWhile]
    exact map_nil_append _
  rw [hskip c hc]
  cases cs with
  | nil => rfl
  | cons d cs =>
    cases hd : isGap d with
    | true => rw [hskip d hd, List.dropWhile_cons_of_pos hd]
    | false => rw [List.dropWhile_cons_of_neg (by simp [hd])]

theorem isGap_of_isIndent {c : Char} (h : Layout.isIndent c = true) : isGap c = true := by
  have hc : c = ' ' ∨ c = '\t' := by
    simpa [Layout.isIndent] using h
  rcases hc with rfl | rfl <;> rfl

theorem words_indent {indent : List Char} (hindent : ∀ c ∈ indent, Layout.isIndent c = true)
    (cs : List Char) : words (indent ++ cs) = words cs := by
  induction indent with
  | nil => rfl
  | cons c indent ih =>
    rw [List.cons_append, words_gap (isGap_of_isIndent (hindent c List.mem_cons_self)),
      ih fun d hd => hindent d (List.mem_cons_of_mem _ hd)]

end Line

namespace Layout

def Shift.words : Shift → List Word
  | .opens => [Kind.indent.word]
  | .closes count => dedents count
  | .mismatch _ => []

theorem Shift.tokens_words {shift : Shift} {place : Place} {width : Nat} {marks : List Token}
    (h : shift.tokens place width = .ok marks) : marks.map Token.word = shift.words := by
  cases shift with
  | opens =>
    cases h
    rfl
  | closes count =>
    cases h
    rw [List.map_replicate]
    rfl
  | mismatch expected => cases h

theorem closeAll_eq (place : Place) (layout : Layout) :
    layout.closeAll place = (List.replicate layout.depth ⟨place, .dedent, ""⟩, {}) := by
  unfold closeAll depth
  induction layout.widths with
  | nil => rfl
  | cons width outer ih =>
    rw [closeAll.closeWidths, ih]
    rfl

end Layout

namespace Token

theorem closing_eq (layout : Layout) (place : Place) : closing layout place =
    List.replicate layout.depth ⟨place, .dedent, ""⟩ ++ [⟨place, .endOfInput, ""⟩] := by
  rw [closing, Layout.closeAll_eq]

theorem words_closing (layout : Layout) (place : Place) :
    (closing layout place).map Token.word = dedents layout.depth ++ [Kind.endOfInput.word] := by
  rw [closing_eq, List.map_append, List.map_replicate]
  rfl

def lineWords (layout : Layout) (cs : List Char) :
    Except ScanFault.Cause (List Word × Layout) :=
  if isBlankLine cs then
    .ok ([], layout)
  else
    let width := Layout.measure (cs.takeWhile Layout.isIndent)
    match layout.moveTo width with
    | (.mismatch expected, _) => .error (.indentMismatch expected width)
    | (shift, moved) => (Line.words cs).map fun us => (shift.words ++ us, moved)

def linesWords (layout : Layout) (line : Nat) (cs : List Char) :
    List (List Char) → Except (Nat × ScanFault.Cause) (List Word)
  | [] =>
    match lineWords layout cs with
    | .error cause => .error (line, cause)
    | .ok (us, moved) => .ok (us ++ (dedents moved.depth ++ [Kind.endOfInput.word]))
  | next :: later =>
    match lineWords layout cs with
    | .error cause => .error (line, cause)
    | .ok (us, moved) =>
      (linesWords moved (line + 1) next later).map (us ++ Kind.newline.word :: ·)

section

variable {layout : Layout} {line : Nat} {cs next : List Char} {more : List (List Char)}
  {ws : List Word}

theorem linesWords_nil_eq_ok : linesWords layout line cs [] = .ok ws ↔
    ∃ us moved, lineWords layout cs = .ok (us, moved) ∧
      ws = us ++ (dedents moved.depth ++ [Kind.endOfInput.word]) := by
  rw [linesWords]
  cases lineWords layout cs with
  | error cause =>
    constructor
    · rintro ⟨⟩
    · rintro ⟨_, _, ⟨⟩, _⟩
  | ok read =>
    constructor
    · rintro ⟨⟩
      exact ⟨_, _, rfl, rfl⟩
    · rintro ⟨_, _, ⟨⟩, rfl⟩
      rfl

theorem linesWords_cons_eq_ok : linesWords layout line cs (next :: more) = .ok ws ↔
    ∃ us moved vs, lineWords layout cs = .ok (us, moved) ∧
      linesWords moved (line + 1) next more = .ok vs ∧ ws = us ++ Kind.newline.word :: vs := by
  rw [linesWords]
  cases lineWords layout cs with
  | error cause =>
    constructor
    · rintro ⟨⟩
    · rintro ⟨_, _, _, ⟨⟩, _⟩
  | ok read =>
    dsimp only
    cases hrest : linesWords read.2 (line + 1) next more with
    | error reason =>
      constructor
      · rintro ⟨⟩
      · rintro ⟨_, _, _, ⟨⟩, hvs, _⟩
        cases hrest.symm.trans hvs
    | ok vs =>
      constructor
      · rintro ⟨⟩
        exact ⟨_, _, _, rfl, hrest, rfl⟩
      · rintro ⟨_, _, _, ⟨⟩, hvs, rfl⟩
        cases hrest.symm.trans hvs
        rfl

theorem exists_lineWords (h : linesWords layout line cs more = .ok ws) :
    ∃ us moved, lineWords layout cs = .ok (us, moved) := by
  cases more with
  | nil =>
    obtain ⟨us, moved, hline, -⟩ := linesWords_nil_eq_ok.mp h
    exact ⟨us, moved, hline⟩
  | cons next more =>
    obtain ⟨us, moved, -, hline, -⟩ := linesWords_cons_eq_ok.mp h
    exact ⟨us, moved, hline⟩

end

def textWords (cs : List Char) : Except (Nat × ScanFault.Cause) (List Word) :=
  linesWords {} 1 (Text.cut cs).1 (Text.cut cs).2

/-- A line that counts is the marks of its shift and what is scanned on it. -/
theorem ofLine_eq {layout moved : Layout} {shift : Layout.Shift} {cs : List Char}
    (line offset : Nat) (hblank : isBlankLine cs = false)
    (hmove : layout.moveTo (Layout.measure (cs.takeWhile Layout.isIndent)) = (shift, moved)) :
    ofLine layout line offset cs =
      match shift.tokens ⟨line, (cs.takeWhile Layout.isIndent).length + 1,
          Span.point (offset + (cs.takeWhile Layout.isIndent).length)⟩
        (Layout.measure (cs.takeWhile Layout.isIndent)) with
      | .error fault => .error (.fault fault)
      | .ok marks =>
        (Line.scan line 1 offset cs).map fun tokens => (marks ++ tokens, moved) := by
  unfold ofLine
  rw [hblank, if_neg Bool.false_ne_true]
  simp only [hmove]
  cases shift.tokens _ _ with
  | error fault => rfl
  | ok marks =>
    change (Line.scan line 1 offset cs).bind _ = (Line.scan line 1 offset cs).map _
    cases Line.scan line 1 offset cs <;> rfl

theorem lineWords_eq {layout moved : Layout} {shift : Layout.Shift} {cs : List Char}
    (hblank : isBlankLine cs = false)
    (hmove : layout.moveTo (Layout.measure (cs.takeWhile Layout.isIndent)) = (shift, moved))
    (hshift : ∀ expected, shift ≠ .mismatch expected) :
    lineWords layout cs = (Line.words cs).map fun us => (shift.words ++ us, moved) := by
  unfold lineWords
  rw [hblank, if_neg Bool.false_ne_true]
  cases shift with
  | opens | closes count => simp only [hmove]
  | mismatch expected => exact absurd rfl (hshift expected)

theorem ofLine_follows (layout : Layout) (line offset : Nat) (cs : List Char) :
    ofLine layout line offset cs = .error .crash ∨
      (∃ tokens moved, ofLine layout line offset cs = .ok (tokens, moved) ∧
        lineWords layout cs = .ok (tokens.map Token.word, moved)) ∨
      ∃ fault cause, ofLine layout line offset cs = .error (.fault fault) ∧
        lineWords layout cs = .error cause ∧ fault.reason = (line, cause) := by
  cases hblank : isBlankLine cs with
  | true =>
    refine .inr (.inl ⟨[], layout, ?_, ?_⟩)
    · rw [ofLine, if_pos hblank]
    · rw [lineWords, if_pos hblank]
      rfl
  | false =>
    cases hmove : layout.moveTo (Layout.measure (cs.takeWhile Layout.isIndent)) with
    | mk shift moved =>
      have hscan := Line.scan_follows line 1 offset cs
      cases hmarks : shift.tokens ⟨line, (cs.takeWhile Layout.isIndent).length + 1,
          Span.point (offset + (cs.takeWhile Layout.isIndent).length)⟩
          (Layout.measure (cs.takeWhile Layout.isIndent)) with
      | error fault =>
        rw [ofLine_eq line offset hblank hmove, hmarks]
        cases shift with
        | opens | closes count => cases hmarks
        | mismatch expected =>
          cases hmarks
          refine .inr (.inr ⟨_, _, rfl, ?_, rfl⟩)
          unfold lineWords
          rw [hblank, if_neg Bool.false_ne_true]
          simp only [hmove]
      | ok marks =>
        have hshift : ∀ expected, shift ≠ .mismatch expected := by
          rintro expected rfl
          cases hmarks
        rw [ofLine_eq line offset hblank hmove, hmarks, lineWords_eq hblank hmove hshift]
        obtain hcrash | ⟨tokens, htokens, hwords⟩ | ⟨fault, hfault, hwords⟩ := hscan
        · exact .inl (by rw [hcrash]; rfl)
        · have hus := eq_ok_of_mapError hwords
          refine .inr (.inl ⟨_, _, by rw [htokens]; rfl, ?_⟩)
          rw [hus, List.map_append, Layout.Shift.tokens_words hmarks]
          rfl
        · obtain ⟨cause, hcause, hreason⟩ := exists_of_mapError_eq_error hwords
          exact .inr (.inr ⟨fault, cause, by rw [hfault]; rfl, by rw [hcause]; rfl, hreason.symm⟩)

theorem ofLine_ne_crash_of_scan {layout : Layout} {line offset : Nat} {cs : List Char}
    (hscan : Line.scan line 1 offset cs ≠ .error .crash) :
    ofLine layout line offset cs ≠ .error .crash := by
  cases hblank : isBlankLine cs with
  | true =>
    rw [ofLine, if_pos hblank]
    exact nofun
  | false =>
    cases hmove : layout.moveTo (Layout.measure (cs.takeWhile Layout.isIndent)) with
    | mk shift moved =>
      rw [ofLine_eq line offset hblank hmove]
      split
      · exact nofun
      · cases hline : Line.scan line 1 offset cs with
        | error halt =>
          rintro ⟨⟩
          exact hscan hline
        | ok tokens => exact nofun

theorem ofLine_ne_crash {layout : Layout} {line offset : Nat} {cs : List Char}
    (hsize : offset + Text.byteLength cs < Span.limit) :
    ofLine layout line offset cs ≠ .error .crash :=
  ofLine_ne_crash_of_scan (Line.scan_ne_crash hsize)

theorem ofLines_follows (layout : Layout) (line offset : Nat) (cs : List Char)
    (later : List (List Char)) :
    Follows (ofLines layout line offset cs later) (linesWords layout line cs later) := by
  induction later generalizing layout line offset cs with
  | nil =>
    rw [ofLines, linesWords]
    obtain hcrash | ⟨tokens, moved, hline, hwords⟩ | ⟨fault, cause, hline, hwords, hreason⟩ :=
      ofLine_follows layout line offset cs
    · exact .inl (by rw [hcrash]; rfl)
    · refine .inr (.inl ⟨_, by rw [hline]; rfl, ?_⟩)
      rw [hwords, List.map_append, words_closing]
    · exact .inr (.inr ⟨fault, by rw [hline]; rfl, by rw [hwords, hreason]⟩)
  | cons next more ih =>
    rw [ofLines, linesWords]
    obtain hcrash | ⟨tokens, moved, hline, hwords⟩ | ⟨fault, cause, hline, hwords, hreason⟩ :=
      ofLine_follows layout line offset cs
    · exact .inl (by rw [hcrash]; rfl)
    · rw [hline, hwords]
      simp only [bind, Except.bind]
      rcases @Span.between_cases ScanFault (offset + Text.byteLength cs)
        (offset + Text.byteLength cs + 1) with hcrash | ⟨span, hspan⟩
      · exact .inl (by rw [hcrash])
      · rw [hspan]
        obtain hcrash | ⟨rest, hrest, hrestWords⟩ | ⟨fault, hrest, hrestWords⟩ :=
          ih moved (line + 1) (offset + Text.byteLength cs + 1) next
        · exact .inl (by rw [hcrash])
        · refine .inr (.inl ⟨_, by rw [hrest]; rfl, ?_⟩)
          rw [hrestWords, List.map_append, List.map_cons]
          rfl
        · exact .inr (.inr ⟨fault, by rw [hrest], by rw [hrestWords]; rfl⟩)
    · exact .inr (.inr ⟨fault, by rw [hline]; rfl, by rw [hwords, hreason]⟩)

theorem ofLines_ne_crash {layout : Layout} {line offset : Nat} {cs : List Char}
    {later : List (List Char)}
    (hsize : offset + Text.byteLength (cs ++ later.flatMap ('\n' :: ·)) < Span.limit) :
    ofLines layout line offset cs later ≠ .error .crash := by
  induction later generalizing layout line offset cs with
  | nil =>
    rw [List.flatMap_nil, List.append_nil] at hsize
    rw [ofLines]
    cases hline : ofLine layout line offset cs with
    | error halt =>
      rintro ⟨⟩
      exact ofLine_ne_crash hsize hline
    | ok read => exact nofun
  | cons next more ih =>
    have hbreak : '\n'.utf8Size = 1 := rfl
    rw [List.flatMap_cons, Text.byteLength_append, List.cons_append, Text.byteLength_cons,
      hbreak] at hsize
    rw [ofLines]
    cases hline : ofLine layout line offset cs with
    | error halt =>
      rintro ⟨⟩
      exact ofLine_ne_crash (by omega) hline
    | ok read =>
      simp only [bind, Except.bind]
      rw [Span.between_eq (Nat.le_add_right _ _) (by omega)]
      cases hrest : ofLines read.2 (line + 1) (offset + Text.byteLength cs + 1) next more with
      | error halt =>
        rintro ⟨⟩
        exact ih (by omega) hrest
      | ok rest => exact nofun

theorem ofSource_ne_crash {source : String} (hsize : source.utf8ByteSize < Span.limit) :
    ofSource source ≠ .error .crash := by
  apply ofLines_ne_crash
  rwa [Nat.zero_add, Text.cut_flatMap, Text.byteLength_toList]

theorem ofSource_line_ne_crash {source : String} (hline : '\n' ∉ source.toList)
    (hscan : Line.scan 1 1 0 source.toList ≠ .error .crash) :
    ofSource source ≠ .error .crash := by
  unfold ofSource ofList
  rw [Text.cut_line hline, ofLines]
  cases hone : ofLine {} 1 0 source.toList with
  | error halt =>
    rintro ⟨⟩
    exact ofLine_ne_crash_of_scan hscan hone
  | ok read => exact nofun

theorem ofSource_follows (source : String) :
    Follows (ofSource source) (textWords source.toList) :=
  ofLines_follows {} 1 0 _ _

theorem words_of_ofSource {source : String} {tokens : List Token}
    (h : ofSource source = .ok tokens) : textWords source.toList = .ok (tokens.map word) := by
  obtain hcrash | ⟨_, htokens, hwords⟩ | ⟨_, hfault, -⟩ := ofSource_follows source
  · cases h.symm.trans hcrash
  · cases h.symm.trans htokens
    exact hwords
  · cases h.symm.trans hfault

theorem reason_of_ofSource {source : String} {fault : ScanFault}
    (h : ofSource source = .error (.fault fault)) :
    textWords source.toList = .error fault.reason := by
  obtain hcrash | ⟨_, htokens, -⟩ | ⟨_, hfault, hwords⟩ := ofSource_follows source
  · cases h.symm.trans hcrash
  · cases h.symm.trans htokens
  · cases h.symm.trans hfault
    exact hwords

theorem exists_tokens {source : String} {ws : List Word}
    (hsafe : ofSource source ≠ .error .crash) (h : textWords source.toList = .ok ws) :
    ∃ tokens, ofSource source = .ok tokens ∧ tokens.map word = ws := by
  obtain hcrash | ⟨tokens, htokens, hwords⟩ | ⟨_, -, hwords⟩ := ofSource_follows source
  · exact absurd hcrash hsafe
  · exact ⟨tokens, htokens, Except.ok.inj (hwords.symm.trans h)⟩
  · cases h.symm.trans hwords

theorem exists_fault {source : String} {line : Nat} {cause : ScanFault.Cause}
    (hsafe : ofSource source ≠ .error .crash)
    (h : textWords source.toList = .error (line, cause)) :
    ∃ fault, ofSource source = .error (.fault fault) ∧ fault.place.line = line ∧
      fault.cause = cause := by
  obtain hcrash | ⟨_, -, hwords⟩ | ⟨fault, hfault, hwords⟩ := ofSource_follows source
  · exact absurd hcrash hsafe
  · cases h.symm.trans hwords
  · have hreason := Except.error.inj (hwords.symm.trans h)
    exact ⟨fault, hfault, congrArg Prod.fst hreason, congrArg Prod.snd hreason⟩

theorem textWords_eq_ok {source : String} {ws : List Word}
    (hsafe : ofSource source ≠ .error .crash) : textWords source.toList = .ok ws ↔
      ∃ tokens, ofSource source = .ok tokens ∧ tokens.map word = ws := by
  constructor
  · exact exists_tokens hsafe
  · rintro ⟨tokens, htokens, rfl⟩
    exact words_of_ofSource htokens

theorem textWords_eq_error {source : String} {line : Nat} {cause : ScanFault.Cause}
    (hsafe : ofSource source ≠ .error .crash) :
    textWords source.toList = .error (line, cause) ↔
      ∃ fault, ofSource source = .error (.fault fault) ∧ fault.place.line = line ∧
        fault.cause = cause := by
  constructor
  · exact exists_fault hsafe
  · rintro ⟨fault, hfault, rfl, rfl⟩
    exact reason_of_ofSource hfault

end Token

end Splice
