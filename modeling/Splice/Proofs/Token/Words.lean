import Splice.Proofs.Token.Unplaced

/-! Which words a text reads as, from the start of a line or from inside one. -/
namespace Splice

namespace Line

/-- The characters of a line, from some position on, are scanned as these words. -/
def Reads (cs : List Char) (ws : List Word) : Prop :=
  words cs = .ok ws

theorem Reads.nil : Reads [] [] :=
  words_nil

theorem Reads.munched {c : Char} {cs text : List Char} {kind : Kind} {more : Nat} {ws : List Word}
    (hmunch : munch c cs = some (.token kind text, more)) (hrest : Reads (cs.drop more) ws) :
    Reads (c :: cs) ((kind, String.ofList text) :: ws) := by
  unfold Reads
  rw [words_stretch hmunch, hrest]
  rfl

theorem Reads.gap {c : Char} {cs : List Char} {ws : List Word} (hc : isGap c = true)
    (h : Reads cs ws) : Reads (c :: cs) ws :=
  (words_gap hc cs).trans h

abbrev Follow := List Char → Prop

def Solid : Follow
  | [] => False
  | c :: _ => Text.isBlank c = false ∧ c ≠ '#'

def Closed : Follow :=
  fun cs => ∀ c ∈ cs.head?, isWordPart c = false

def Anything : Follow :=
  fun _ => True

theorem isGap_eq_false {c : Char} (hc : Text.isBlank c = false) : isGap c = false := by
  cases hgap : isGap c with
  | false => rfl
  | true =>
    simp only [isGap, Bool.or_eq_true, beq_iff_eq] at hgap
    rcases hgap with ((rfl | rfl) | rfl) | rfl <;> cases hc

theorem Reads.spaces {cs : List Char} {ws : List Word} (h : Reads cs ws) (count : Nat) :
    Reads (List.replicate count ' ' ++ cs) ws := by
  induction count with
  | zero => exact h
  | succ count ih => exact Reads.gap rfl ih

theorem takeWhile_stretch {p : Char → Bool} {stretch cs : List Char}
    (hstretch : ∀ c ∈ stretch, p c = true) (hcs : ∀ c ∈ cs.head?, p c = false) :
    (stretch ++ cs).takeWhile p = stretch := by
  rw [List.takeWhile_append_of_pos hstretch]
  cases cs with
  | nil => simp
  | cons c cs => rw [List.takeWhile_cons_of_neg (by simp [hcs c rfl]), List.append_nil]

theorem isWordStart_iff (c : Char) : isWordStart c = true ↔
    (65 ≤ c.toNat ∧ c.toNat ≤ 90) ∨ (97 ≤ c.toNat ∧ c.toNat ≤ 122) ∨ c.toNat = 95 := by
  have hunderscore : c = '_' ↔ c.toNat = 95 := Char.toNat_inj.symm
  have halpha : c.isAlpha = (c.isUpper || c.isLower) := rfl
  have hupper : c.isUpper = decide (65 ≤ c.val ∧ c.val ≤ 90) := rfl
  have hlower : c.isLower = (decide (97 ≤ c.val) && decide (c.val ≤ 122)) := rfl
  simp only [isWordStart, halpha, hupper, hlower, Bool.or_eq_true, Bool.and_eq_true,
    decide_eq_true_eq, beq_iff_eq, UInt32.le_iff_toNat_le, hunderscore, or_assoc]
  rfl

theorem isDigit_iff (c : Char) : c.isDigit = true ↔ 48 ≤ c.toNat ∧ c.toNat ≤ 57 := by
  simp only [Char.isDigit, Bool.and_eq_true, decide_eq_true_eq, ge_iff_le, UInt32.le_iff_toNat_le]
  rfl

theorem isBlank_eq_false {c : Char} (hlow : 48 ≤ c.toNat) (hhigh : c.toNat ≤ 122) :
    Text.isBlank c = false := by
  simp [Text.isBlank]
  omega

theorem ne_hash {c : Char} (hlow : 48 ≤ c.toNat) : c ≠ '#' := by
  rintro rfl
  exact absurd hlow (by decide)

theorem isWordStart_class {c : Char} (hc : isWordStart c = true) :
    Text.isBlank c = false ∧ c ≠ '#' := by
  rw [isWordStart_iff] at hc
  exact ⟨isBlank_eq_false (by omega) (by omega), ne_hash (by omega)⟩

theorem isDigit_class {c : Char} (hc : c.isDigit = true) :
    Text.isBlank c = false ∧ c ≠ '#' ∧ isWordStart c = false ∧ isWordPart c = true := by
  have hpart : isWordPart c = true := by
    simp [isWordPart, Char.isAlphanum, hc]
  rw [isDigit_iff] at hc
  refine ⟨isBlank_eq_false (by omega) (by omega), ne_hash (by omega), ?_, hpart⟩
  rw [Bool.eq_false_iff, ne_eq, isWordStart_iff]
  omega

def isWordText (word : String) : Bool :=
  match word.toList with
  | [] => false
  | c :: cs => isWordStart c && cs.all isWordPart

theorem exists_of_isWordText {word : String} (h : isWordText word = true) :
    ∃ c cs, word = String.ofList (c :: cs) ∧ isWordStart c = true ∧
      ∀ d ∈ cs, isWordPart d = true := by
  unfold isWordText at h
  cases hlist : word.toList with
  | nil =>
    rw [hlist] at h
    cases h
  | cons c cs =>
    rw [hlist] at h
    simp only [Bool.and_eq_true, List.all_eq_true] at h
    exact ⟨c, cs, by rw [← hlist, String.ofList_toList], h⟩

theorem isWordPart_of_isWordStart {c : Char} (h : isWordStart c = true) : isWordPart c = true := by
  simp only [isWordStart, Bool.or_eq_true] at h
  rcases h with halpha | hunderscore
  · simp [isWordPart, Char.isAlphanum, halpha]
  · simp [isWordPart, hunderscore]

theorem isWordPart_of_mem {word : String} (h : isWordText word = true) {c : Char}
    (hc : c ∈ word.toList) : isWordPart c = true := by
  obtain ⟨first, cs, rfl, hfirst, hcs⟩ := exists_of_isWordText h
  rw [String.toList_ofList] at hc
  rcases List.mem_cons.mp hc with rfl | hmem
  · exact isWordPart_of_isWordStart hfirst
  · exact hcs c hmem

theorem isWordText_of_isPlainName {name : String} (h : isPlainName name = true) :
    isWordText name = true ∧ Kind.ofWord name = .ident := by
  unfold isPlainName at h
  cases hlist : name.toList with
  | nil =>
    rw [hlist] at h
    cases h
  | cons c cs =>
    rw [hlist] at h
    obtain ⟨hword, hplain⟩ := (Bool.and_eq_true _ _).mp h
    unfold isWordText Kind.ofWord
    rw [hlist, Option.isNone_iff_eq_none.mp hplain]
    exact ⟨hword, rfl⟩

theorem munch_word {c : Char} (hc : isWordStart c = true) (cs : List Char) :
    munch c cs = some (.token (Kind.ofWord (String.ofList (c :: cs.takeWhile isWordPart)))
      (c :: cs.takeWhile isWordPart), (cs.takeWhile isWordPart).length) := by
  obtain ⟨hblank, hhash⟩ := isWordStart_class hc
  unfold munch
  rw [if_neg (by simp [isGap_eq_false hblank]), if_neg hhash, if_pos hc]
  rfl

theorem munch_digits {c : Char} (hc : c.isDigit = true) (cs : List Char) :
    munch c cs = some (.token .number (c :: cs.takeWhile Char.isDigit),
      (cs.takeWhile Char.isDigit).length) := by
  obtain ⟨hblank, hhash, hword, -⟩ := isDigit_class hc
  unfold munch
  rw [if_neg (by simp [isGap_eq_false hblank]), if_neg hhash, if_neg (by simp [hword]), if_pos hc]
  rfl

theorem munch_quote {q : Char} (hq : isQuote q = true) (cs : List Char) :
    munch q cs =
      if cs[(cs.takeWhile fun d => d ≠ q && d ≠ '\n').length]? = some q then
        some (.token .string (cs.takeWhile fun d => d ≠ q && d ≠ '\n'),
          (cs.takeWhile fun d => d ≠ q && d ≠ '\n').length + 1)
      else none := by
  simp only [isQuote, Bool.or_eq_true, beq_iff_eq] at hq
  rcases hq with rfl | rfl <;> rfl

theorem munch_symbol {c : Char} {cs : List Char} {kind : Kind} (h : symbol? c = some kind)
    (hequal : c = '=' → cs.head? ≠ some '=') : munch c cs = some (.token kind [c], 0) := by
  have hclass : isGap c = false ∧ c ≠ '#' ∧ isWordStart c = false ∧ c.isDigit = false ∧
      isQuote c = false ∧ c ≠ '!' := by
    unfold symbol? at h
    split at h <;> cases h <;> decide
  obtain ⟨hgap, hhash, hword, hdigit, hquote, hbang⟩ := hclass
  unfold munch
  rw [if_neg (by simp [hgap]), if_neg hhash, if_neg (by simp [hword]), if_neg (by simp [hdigit]),
    if_neg (by simp [hquote]), if_neg (by simpa using hequal), if_neg (by simp [hbang]), h]
  rfl

theorem Reads.word {c : Char} {word cs : List Char} {ws : List Word} (hc : isWordStart c = true)
    (hword : ∀ d ∈ word, isWordPart d = true) (hclosed : Closed cs) (h : Reads cs ws) :
    Reads (c :: word ++ cs)
      ((Kind.ofWord (String.ofList (c :: word)), String.ofList (c :: word)) :: ws) := by
  have hmunch := munch_word hc (word ++ cs)
  rw [takeWhile_stretch hword hclosed] at hmunch
  rw [List.cons_append]
  refine Reads.munched hmunch ?_
  rw [List.drop_left]
  exact h

theorem Reads.digits {c : Char} {digits cs : List Char} {ws : List Word} (hc : c.isDigit = true)
    (hdigits : ∀ d ∈ digits, d.isDigit = true) (hclosed : Closed cs) (h : Reads cs ws) :
    Reads (c :: digits ++ cs) ((.number, String.ofList (c :: digits)) :: ws) := by
  have hends : ∀ d ∈ cs.head?, d.isDigit = false := by
    intro d hd
    cases hdigit : d.isDigit with
    | false => rfl
    | true =>
      have hpart := (isDigit_class hdigit).2.2.2
      rw [hclosed d hd] at hpart
      cases hpart
  have hmunch := munch_digits hc (digits ++ cs)
  rw [takeWhile_stretch hdigits hends] at hmunch
  rw [List.cons_append]
  refine Reads.munched hmunch ?_
  rw [List.drop_left]
  exact h

theorem Reads.quoted {q : Char} {body cs : List Char} {ws : List Word} (hq : isQuote q = true)
    (hbody : ∀ d ∈ body, d ≠ q ∧ d ≠ '\n') (h : Reads cs ws) :
    Reads (q :: body ++ q :: cs) ((.string, String.ofList body) :: ws) := by
  have htake : (body ++ q :: cs).takeWhile (fun d => d ≠ q && d ≠ '\n') = body :=
    takeWhile_stretch (fun d hd => by simp [hbody d hd]) (by simp)
  have hmunch := munch_quote hq (body ++ q :: cs)
  rw [htake, if_pos (by simp)] at hmunch
  rw [List.cons_append]
  refine Reads.munched hmunch ?_
  rw [show body ++ q :: cs = body ++ [q] ++ cs by simp,
    show body.length + 1 = (body ++ [q]).length by simp, List.drop_left]
  exact h

theorem Reads.symbol {c : Char} {kind : Kind} {cs : List Char} {ws : List Word}
    (hc : symbol? c = some kind) (hnext : c = '=' → cs.head? ≠ some '=') (h : Reads cs ws) :
    Reads (c :: cs) ((kind, String.ofList [c]) :: ws) :=
  Reads.munched (munch_symbol hc hnext) h

theorem Reads.equal {cs : List Char} {ws : List Word} (h : Reads cs ws) :
    Reads ('=' :: '=' :: cs) ((Kind.operator .equal).word :: ws) :=
  @Reads.munched _ _ _ _ 1 _ rfl h

theorem Reads.notEqual {cs : List Char} {ws : List Word} (h : Reads cs ws) :
    Reads ('!' :: '=' :: cs) ((Kind.operator .notEqual).word :: ws) :=
  @Reads.munched _ _ _ _ 1 _ rfl h

end Line

namespace Layout

def levels : Nat → List Nat
  | 0 => []
  | depth + 1 => 4 * (depth + 1) :: levels depth

def nested (depth : Nat) : Layout :=
  ⟨levels depth⟩

theorem depth_nested (depth : Nat) : (nested depth).depth = depth := by
  unfold Layout.depth nested
  induction depth with
  | zero => rfl
  | succ depth ih => rw [levels, List.length_cons, ih]

theorem top_nested (depth : Nat) : (nested depth).top = 4 * depth := by
  cases depth <;> rfl

theorem closeTo_nested {inner outer : Nat} (h : outer ≤ inner) :
    (nested inner).closeTo (4 * outer) = nested outer := by
  unfold closeTo nested
  congr 1
  induction inner with
  | zero =>
    obtain rfl : outer = 0 := by omega
    rfl
  | succ inner ih =>
    rw [levels]
    by_cases hle : outer ≤ inner
    · rw [List.dropWhile_cons_of_pos (by simp; omega), ih hle]
    · obtain rfl : outer = inner + 1 := by omega
      rw [List.dropWhile_cons_of_neg (by simp)]
      rfl

theorem moveTo_outer {inner outer : Nat} (h : outer ≤ inner) :
    (nested inner).moveTo (4 * outer) = (.closes (inner - outer), nested outer) := by
  unfold moveTo
  rw [top_nested, if_neg (by omega), closeTo_nested h]
  dsimp only
  rw [top_nested, if_pos rfl, depth_nested, depth_nested]

theorem moveTo_inner (depth : Nat) :
    (nested depth).moveTo (4 * (depth + 1)) = (.opens, nested (depth + 1)) := by
  unfold moveTo
  rw [top_nested, if_pos (by omega)]
  rfl

theorem measure_spaces (count : Nat) : measure (List.replicate count ' ') = count := by
  induction count with
  | zero => rfl
  | succ count ih =>
    rw [List.replicate_succ]
    change (if ' ' = '\t' then tabWidth else 1) + measure (List.replicate count ' ') = _
    rw [ih, if_neg (by decide)]
    omega

end Layout

namespace Token

def LinesRead (layout : Layout) (cs : List Char) (later : List (List Char)) (ws : List Word) :
    Prop :=
  ∀ line, linesWords layout line cs later = .ok ws

/-- A text is read as these words, from the start of a line inside so many blocks. -/
def Reads (depth : Nat) (cs : List Char) (ws : List Word) : Prop :=
  LinesRead (.nested depth) (Text.cut cs).1 (Text.cut cs).2 ws

def EndsAs (depth : Nat) : List (List Char) → List Word → Prop
  | [], ws => ws = Spelling.dedents depth ++ [Kind.endOfInput.word]
  | next :: later, ws => ∃ more, ws = Kind.newline.word :: more ∧
      LinesRead (.nested depth) next later more

def ReadsOn (depth : Nat) (cs : List Char) (ws : List Word) : Prop :=
  ∃ line ends, Line.Reads (Text.cut cs).1 line ∧ EndsAs depth (Text.cut cs).2 ends ∧
    ws = line ++ ends

theorem ReadsOn.nil (depth : Nat) :
    ReadsOn depth [] (Spelling.dedents depth ++ [Kind.endOfInput.word]) :=
  ⟨[], _, Line.Reads.nil, rfl, rfl⟩

theorem ReadsOn.lineBreak {depth : Nat} {cs : List Char} {ws : List Word} (h : Reads depth cs ws) :
    ReadsOn depth ('\n' :: cs) (Kind.newline.word :: ws) :=
  ⟨[], _, Line.Reads.nil, ⟨ws, rfl, h⟩, rfl⟩

theorem ReadsOn.stretch {depth : Nat} {piece cs : List Char} {us ws : List Word}
    (hpiece : '\n' ∉ piece)
    (hline : ∀ vs, Line.Reads (Text.cut cs).1 vs → Line.Reads (piece ++ (Text.cut cs).1) (us ++ vs))
    (h : ReadsOn depth cs ws) : ReadsOn depth (piece ++ cs) (us ++ ws) := by
  obtain ⟨line, ends, hreads, hends, rfl⟩ := h
  refine ⟨us ++ line, ends, ?_, ?_, ?_⟩
  · rw [Text.cut_append hpiece]
    exact hline line hreads
  · rw [Text.cut_append hpiece]
    exact hends
  · rw [List.append_assoc]

theorem LinesRead.of_line {layout : Layout} {depth : Nat} {cs : List Char}
    {later : List (List Char)} {us vs : List Word}
    (hline : lineWords layout cs = .ok (us, .nested depth))
    (hends : EndsAs depth later vs) : LinesRead layout cs later (us ++ vs) := by
  intro line
  cases later with
  | nil =>
    rw [linesWords, hline, hends]
    dsimp only
    rw [Layout.depth_nested]
  | cons next later =>
    obtain ⟨more, rfl, hmore⟩ := hends
    rw [linesWords, hline]
    dsimp only
    rw [hmore]
    rfl

theorem Reads.nil (depth : Nat) :
    Reads depth [] (Spelling.dedents depth ++ [Kind.endOfInput.word]) :=
  @LinesRead.of_line _ _ _ _ [] _ rfl rfl

theorem isBlankLine_indented {cs : List Char} (hsolid : Line.Solid cs) (count : Nat) :
    isBlankLine (List.replicate count ' ' ++ cs) = false := by
  cases cs with
  | nil => cases hsolid
  | cons c cs =>
    have hdrop : Text.dropBlanks (List.replicate count ' ' ++ c :: cs) = c :: cs := by
      unfold Text.dropBlanks
      rw [List.dropWhile_append_of_pos (by simp [Text.isBlank]),
        List.dropWhile_cons_of_neg (by simp [hsolid.1])]
    unfold isBlankLine
    rw [hdrop]
    simpa using hsolid.2

theorem takeWhile_indent {cs : List Char} (hsolid : Line.Solid cs) (count : Nat) :
    (List.replicate count ' ' ++ cs).takeWhile Layout.isIndent = List.replicate count ' ' := by
  refine Line.takeWhile_stretch (by simp [Layout.isIndent]) ?_
  cases cs with
  | nil => simp
  | cons c cs =>
    rintro d ⟨rfl⟩
    have hgap := Line.isGap_eq_false hsolid.1
    simp only [Line.isGap, Bool.or_eq_false_iff] at hgap
    simp [Layout.isIndent, hgap]

theorem solid_cut {cs : List Char} (hsolid : Line.Solid cs) : Line.Solid (Text.cut cs).1 := by
  cases cs with
  | nil => cases hsolid
  | cons c cs =>
    have hc : c ≠ '\n' := by
      rintro rfl
      cases hsolid.1
    rw [Text.cut_cons hc]
    exact hsolid

theorem Reads.indented {depth moved width : Nat} {shift : Layout.Shift} {cs : List Char}
    {ws : List Word} (hmove : (Layout.nested depth).moveTo width = (shift, .nested moved))
    (hshift : ∀ expected, shift ≠ .mismatch expected) (hsolid : Line.Solid cs)
    (h : ReadsOn moved cs ws) :
    Reads depth (List.replicate width ' ' ++ cs) (shift.words ++ ws) := by
  obtain ⟨line, ends, hline, hends, rfl⟩ := h
  have hcut := solid_cut hsolid
  unfold Reads
  rw [Text.cut_append (by simp), ← List.append_assoc]
  refine LinesRead.of_line ?_ hends
  have hwidth := takeWhile_indent hcut width
  rw [lineWords_eq (isBlankLine_indented hcut width)
    (by rw [hwidth, Layout.measure_spaces]; exact hmove) hshift, hline.spaces width]
  rfl

theorem Reads.outer {inner outer : Nat} {cs : List Char} {ws : List Word} (hle : outer ≤ inner)
    (hsolid : Line.Solid cs) (h : ReadsOn outer cs ws) :
    Reads inner (List.replicate (4 * outer) ' ' ++ cs) (Spelling.dedents (inner - outer) ++ ws) :=
  Reads.indented (Layout.moveTo_outer hle) (by simp) hsolid h

theorem Reads.inner {depth : Nat} {cs : List Char} {ws : List Word} (hsolid : Line.Solid cs)
    (h : ReadsOn (depth + 1) cs ws) :
    Reads depth (List.replicate (4 * (depth + 1)) ' ' ++ cs) (Kind.indent.word :: ws) :=
  Reads.indented (Layout.moveTo_inner depth) (by simp) hsolid h

end Token

end Splice
