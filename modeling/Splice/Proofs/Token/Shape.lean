import Mathlib.Data.List.Chain
import Splice.Proofs.Token.Words

/-! What the tokens of every text have in common: each is spelled as its kind asks, an indent is
followed by a token of its own line, and the end of input comes last. -/
namespace Splice

namespace Kind

/-- Kinds that stand for the layout of lines, not for a text of their own. -/
def isLayout : Kind → Bool
  | .newline | .indent | .dedent | .endOfInput => true
  | _ => false

theorem isLayout_of_endsStatement {kind : Kind} (h : kind.endsStatement = true) :
    kind.isLayout = true := by
  unfold endsStatement at h
  split at h <;> first | rfl | cases h

theorem ofWord?_reserved {word : String} {kind : Kind} (h : ofWord? word = some kind) :
    (∃ w, kind = .keyword w) ∨ ∃ w, kind = .widget w := by
  unfold ofWord? at h
  split at h <;> cases h <;> simp

end Kind

def Word.isSpelled : Word → Bool
  | (.ident, text) => isPlainName text
  | (.number, text) => !text.toList.isEmpty && text.toList.all Char.isDigit
  | (.string, text) => isPlainText text
  | _ => true

namespace Line

theorem isSpelled_word {c : Char} (hc : isWordStart c = true) (cs : List Char) :
    Word.isSpelled (Kind.ofWord (String.ofList (c :: cs.takeWhile isWordPart)),
      String.ofList (c :: cs.takeWhile isWordPart)) = true ∧
    (Kind.ofWord (String.ofList (c :: cs.takeWhile isWordPart))).isLayout = false := by
  unfold Kind.ofWord
  cases hword : Kind.ofWord? (String.ofList (c :: cs.takeWhile isWordPart)) with
  | some kind => obtain ⟨w, rfl⟩ | ⟨w, rfl⟩ := Kind.ofWord?_reserved hword <;> exact ⟨rfl, rfl⟩
  | none =>
    refine ⟨?_, rfl⟩
    change isPlainName _ = true
    unfold isPlainName
    rw [String.toList_ofList]
    simp only [hc, hword, Option.isNone_none, Bool.and_true, Bool.true_and, List.all_eq_true]
    exact fun d hd => List.mem_takeWhile_imp hd

theorem isSpelled_digits {c : Char} (hc : c.isDigit = true) (cs : List Char) :
    Word.isSpelled (.number, String.ofList (c :: cs.takeWhile Char.isDigit)) = true := by
  unfold Word.isSpelled
  dsimp only
  rw [String.toList_ofList]
  simp only [List.isEmpty_cons, Bool.not_false, Bool.true_and, List.all_eq_true, List.mem_cons]
  rintro d (rfl | hd)
  · exact hc
  · exact List.mem_takeWhile_imp hd

theorem isSpelled_quoted {q : Char} (hq : isQuote q = true) (cs : List Char) :
    Word.isSpelled (.string, String.ofList (cs.takeWhile fun d => d ≠ q && d ≠ '\n')) = true := by
  have hmem : ∀ d ∈ cs.takeWhile fun d => d ≠ q && d ≠ '\n', d ≠ q ∧ d ≠ '\n' := by
    intro d hd
    simpa using List.mem_takeWhile_imp hd
  change isPlainText _ = true
  unfold isPlainText
  rw [String.toList_ofList]
  generalize cs.takeWhile _ = body at hmem
  have hbreak : '\n' ∉ body := fun h => (hmem _ h).2 rfl
  have hquote : q ∉ body := fun h => (hmem _ h).1 rfl
  have hside : q = '"' ∨ q = '\'' := by simpa [isQuote] using hq
  rcases hside with rfl | rfl <;> simp [hbreak, hquote]

theorem isSpelled_symbol {c : Char} {kind : Kind} (h : symbol? c = some kind) (text : String) :
    Word.isSpelled (kind, text) = true ∧ kind.isLayout = false := by
  unfold symbol? at h
  split at h <;> cases h <;> exact ⟨rfl, rfl⟩

theorem munch_isSpelled {c : Char} {cs text : List Char} {kind : Kind} {more : Nat}
    (h : munch c cs = some (.token kind text, more)) :
    Word.isSpelled (kind, String.ofList text) = true ∧ kind.isLayout = false := by
  unfold munch at h
  split at h
  · cases h
  split at h
  · cases h
  split at h
  · rename_i hstart
    cases h
    exact isSpelled_word hstart cs
  split at h
  · rename_i hdigit
    cases h
    exact ⟨isSpelled_digits hdigit cs, rfl⟩
  split at h
  · rename_i hq
    dsimp only at h
    split at h
    · cases h
      exact ⟨isSpelled_quoted hq cs, rfl⟩
    · cases h
  split at h
  · cases h
    exact ⟨rfl, rfl⟩
  split at h
  · cases h
    exact ⟨rfl, rfl⟩
  · obtain ⟨_, hsymbol, hpair⟩ := Option.map_eq_some_iff.mp h
    cases hpair
    exact isSpelled_symbol hsymbol _

theorem words_isSpelled {cs : List Char} {us : List Word} (h : words cs = .ok us) :
    ∀ w ∈ us, w.isSpelled = true ∧ w.1.isLayout = false := by
  fun_induction words cs generalizing us with
  | case1 =>
    cases h
    simp
  | case2 => cases h
  | case3 c cs stretch more hmunch ih =>
    obtain ⟨vs, hrest, rfl⟩ := exists_of_map_eq_ok h
    intro w hw
    rcases List.mem_append.mp hw with hmem | hmem
    · cases stretch with
      | gap | comment => cases hmem
      | token kind text =>
        obtain rfl := List.mem_singleton.mp hmem
        exact munch_isSpelled hmunch
    · exact ih hrest w hmem

theorem scan_isSpelled {line column offset : Nat} {cs : List Char} {tokens : List Token}
    (h : scan line column offset cs = .ok tokens) :
    ∀ token ∈ tokens, token.word.isSpelled = true ∧ token.kind.isLayout = false :=
  fun _ hmem => words_isSpelled (words_of_scan h) _ (List.mem_map_of_mem hmem)

theorem isBlank_of_isGap {c : Char} (hc : isGap c = true) : Text.isBlank c = true := by
  cases hblank : Text.isBlank c with
  | true => rfl
  | false =>
    rw [isGap_eq_false hblank] at hc
    cases hc

theorem munch_dropped {c : Char} {cs : List Char} {stretch : Stretch} {more : Nat}
    (h : munch c cs = some (stretch, more)) (hdropped : stretch.words = []) :
    stretch = .gap ∧ isGap c = true ∨ stretch = .comment ∧ c = '#' := by
  unfold munch at h
  split at h
  · cases h
    exact .inl ⟨rfl, by assumption⟩
  split at h
  · cases h
    exact .inr ⟨rfl, by assumption⟩
  · dsimp only at h
    split_ifs at h <;> simp at h
    all_goals first
      | obtain ⟨rfl, -⟩ := h; cases hdropped
      | obtain ⟨_, -, rfl, -⟩ := h; cases hdropped

theorem dropBlanks_gaps {c : Char} (hc : isGap c = true) (cs : List Char) :
    Text.dropBlanks (cs.drop (cs.takeWhile isGap).length) = Text.dropBlanks (c :: cs) := by
  have hdrop : (cs.takeWhile isGap ++ cs.dropWhile isGap).drop (cs.takeWhile isGap).length =
      cs.dropWhile isGap := List.drop_left
  rw [List.takeWhile_append_dropWhile] at hdrop
  unfold Text.dropBlanks
  conv_rhs =>
    rw [List.dropWhile_cons_of_pos (isBlank_of_isGap hc),
      ← List.takeWhile_append_dropWhile (p := isGap) (l := cs),
      List.dropWhile_append_of_pos fun d hd => isBlank_of_isGap (List.mem_takeWhile_imp hd)]
  rw [hdrop]

theorem dropBlanks_indent (cs : List Char) :
    Text.dropBlanks (cs.dropWhile Layout.isIndent) = Text.dropBlanks cs := by
  have hblank : ∀ c ∈ cs.takeWhile Layout.isIndent, Text.isBlank c = true := by
    intro c hc
    have hindent : c = ' ' ∨ c = '\t' := by
      simpa [Layout.isIndent] using List.mem_takeWhile_imp hc
    rcases hindent with rfl | rfl <;> rfl
  unfold Text.dropBlanks
  conv => rhs; rw [← List.takeWhile_append_dropWhile (p := Layout.isIndent) (l := cs),
    List.dropWhile_append_of_pos hblank]

/-- Scanning drops gaps and comments only, so it never drops what makes a line count. -/
theorem isBlankLine_dropped {c : Char} {cs : List Char} {stretch : Stretch} {more : Nat}
    (h : munch c cs = some (stretch, more)) (hdropped : stretch.words = [])
    (hblank : Token.isBlankLine (c :: cs) = false) :
    Token.isBlankLine (cs.drop more) = false := by
  rcases munch_dropped h hdropped with ⟨-, hgap⟩ | ⟨-, rfl⟩
  · rw [munch_gap hgap] at h
    cases h
    unfold Token.isBlankLine at *
    rw [dropBlanks_gaps hgap]
    exact hblank
  · cases hblank

theorem words_ne_nil {cs : List Char} {us : List Word} (h : words cs = .ok us)
    (hblank : Token.isBlankLine cs = false) : us ≠ [] := by
  fun_induction words cs generalizing us with
  | case1 => cases hblank
  | case2 => cases h
  | case3 c cs stretch more hmunch ih =>
    obtain ⟨vs, hrest, rfl⟩ := exists_of_map_eq_ok h
    intro hnil
    obtain ⟨hdropped, rfl⟩ := List.append_eq_nil_iff.mp hnil
    exact ih hrest (isBlankLine_dropped hmunch hdropped hblank) rfl

theorem scan_ne_nil {line column offset : Nat} {cs : List Char} {tokens : List Token}
    (h : scan line column offset cs = .ok tokens) (hblank : Token.isBlankLine cs = false) :
    tokens ≠ [] := by
  rintro rfl
  exact words_ne_nil (words_of_scan h) hblank rfl

theorem munch_blank {c : Char} (hc : Text.isBlank c = true) (hgap : isGap c = false)
    (cs : List Char) : munch c cs = none := by
  have hclass {p : Char → Bool} (hp : ∀ d, p d = true → Text.isBlank d = false) : p c = false := by
    cases hpc : p c with
    | false => rfl
    | true =>
      rw [hp c hpc] at hc
      cases hc
  have hother (d : Char) (hd : Text.isBlank d = false) : c ≠ d := by
    rintro rfl
    rw [hd] at hc
    cases hc
  have hquote : isQuote c = false := by
    simp [isQuote, hother '"' (by decide), hother '\'' (by decide)]
  have hsymbol : symbol? c = none := by
    unfold symbol?
    split <;> first | rfl | cases hc
  unfold munch
  rw [hgap, hclass fun d hd => (isWordStart_class hd).1, hclass fun d hd => (isDigit_class hd).1,
    hquote, hsymbol]
  simp [hother '#' (by decide), hother '=' (by decide), hother '!' (by decide)]

theorem words_first {cs : List Char} {us : List Word} (h : words cs = .ok us) {c : Char}
    {rest : List Char} (hfirst : Text.dropBlanks cs = c :: rest) :
    (munch c rest).isSome = true := by
  fun_induction words cs generalizing us with
  | case1 => cases hfirst
  | case2 => cases h
  | case3 d cs stretch more hmunch ih =>
    obtain ⟨vs, hrest, rfl⟩ := exists_of_map_eq_ok h
    by_cases hdropped : stretch.words = []
    · rcases munch_dropped hmunch hdropped with ⟨-, hgap⟩ | ⟨-, rfl⟩
      · rw [munch_gap hgap] at hmunch
        cases hmunch
        exact ih hrest (by rw [dropBlanks_gaps hgap, hfirst])
      · cases hfirst
        rw [hmunch]
        rfl
    have hvisible : Text.isBlank d = false := by
      cases hblank : Text.isBlank d with
      | false => rfl
      | true =>
        cases hgap : isGap d with
        | false =>
          rw [munch_blank hblank hgap] at hmunch
          cases hmunch
        | true =>
          rw [munch_gap hgap] at hmunch
          cases hmunch
          exact absurd rfl hdropped
    unfold Text.dropBlanks at hfirst
    rw [List.dropWhile_cons_of_neg (by simp [hvisible])] at hfirst
    cases hfirst
    rw [hmunch]
    rfl

end Line

namespace Token

def IndentsLine (token next : Token) : Prop :=
  token.kind = .indent → next.kind.isLayout = false

/-- Tokens as parts of a text have them. -/
structure Part (tokens : List Token) : Prop where
  spelled : ∀ token ∈ tokens, token.word.isSpelled = true
  indented : tokens.IsChain IndentsLine
  settled : ∀ token ∈ tokens.getLast?, token.kind ≠ .indent

structure Sound (tokens : List Token) : Prop extends Part tokens where
  ended : tokens.getLast?.map (·.kind) = some .endOfInput

theorem Part.append {first last : List Token} (hfirst : Part first) (hlast : Part last) :
    Part (first ++ last) := by
  refine ⟨?_, ?_, ?_⟩
  · intro token htoken
    exact (List.mem_append.mp htoken).elim (hfirst.spelled token) (hlast.spelled token)
  · exact hfirst.indented.append hlast.indented fun token htoken _ _ hkind =>
      absurd hkind (hfirst.settled token htoken)
  · intro token htoken
    rcases List.eq_nil_or_concat last with rfl | ⟨more, final, rfl⟩
    · exact hfirst.settled token (by simpa using htoken)
    · exact hlast.settled token (by simpa using htoken)

theorem Part.of_kinds {tokens : List Token}
    (h : ∀ token ∈ tokens, token.word.isSpelled = true ∧ token.kind ≠ .indent) : Part tokens := by
  refine ⟨fun token htoken => (h token htoken).1, ?_, ?_⟩
  · refine (List.pairwise_of_forall_mem_list fun token htoken _ _ hkind => ?_).isChain
    exact absurd hkind (h token htoken).2
  · exact fun token htoken => (h token (List.mem_of_getLast? htoken)).2

theorem Part.indent {tokens : List Token} (h : Part tokens) {place : Place}
    (hnext : ∃ next later, tokens = next :: later ∧ next.kind.isLayout = false) :
    Part (⟨place, .indent, ""⟩ :: tokens) := by
  obtain ⟨next, later, rfl, hkind⟩ := hnext
  refine ⟨?_, ?_, ?_⟩
  · intro token htoken
    rcases List.mem_cons.mp htoken with rfl | hrest
    · rfl
    · exact h.spelled token hrest
  · exact List.isChain_cons_cons.mpr ⟨fun _ => hkind, h.indented⟩
  · exact fun token htoken => h.settled token (by simpa using htoken)

/-- A line that counts holds a token, so an indent in front of it is not the last. -/
theorem ofLine_part {layout moved : Layout} {line offset : Nat} {cs : List Char}
    {tokens : List Token} (h : ofLine layout line offset cs = .ok (tokens, moved)) :
    Part tokens := by
  unfold ofLine at h
  split at h
  · cases h
    exact Part.of_kinds (by simp)
  · rename_i hblank
    simp only [bind, Except.bind] at h
    split at h
    · cases h
    rename_i marks hmarks
    split at h
    · cases h
    rename_i lineTokens hscan
    cases h
    have hline := Line.scan_isSpelled hscan
    have hne := Line.scan_ne_nil hscan (by simpa using hblank)
    have hpart : Part lineTokens := by
      refine Part.of_kinds fun token htoken => ⟨(hline token htoken).1, fun hkind => ?_⟩
      have hlayout := (hline token htoken).2
      rw [hkind] at hlayout
      cases hlayout
    unfold Layout.Shift.tokens at hmarks
    split at hmarks
    · cases hmarks
      obtain ⟨next, later, rfl⟩ := List.exists_cons_of_ne_nil hne
      exact hpart.indent ⟨next, later, rfl, (hline next List.mem_cons_self).2⟩
    · cases hmarks
      refine (Part.of_kinds fun token htoken => ?_).append hpart
      obtain rfl := List.eq_of_mem_replicate htoken
      exact ⟨rfl, Kind.noConfusion⟩
    · cases hmarks

theorem closing_sound (layout : Layout) (place : Place) : Sound (closing layout place) := by
  rw [closing_eq]
  refine ⟨Part.of_kinds fun token htoken => ?_, by simp⟩
  rcases List.mem_append.mp htoken with hdedent | hend
  · obtain rfl := List.eq_of_mem_replicate hdedent
    exact ⟨rfl, Kind.noConfusion⟩
  · obtain rfl := List.mem_singleton.mp hend
    exact ⟨rfl, Kind.noConfusion⟩

theorem Part.append_sound {first last : List Token} (hfirst : Part first) (hlast : Sound last) :
    Sound (first ++ last) := by
  refine ⟨hfirst.append hlast.toPart, ?_⟩
  have hended := hlast.ended
  rcases List.eq_nil_or_concat last with rfl | ⟨more, final, rfl⟩
  · cases hended
  · simpa using hended

/-- The tokens of a line come first, then its break and the lines after it, or what closes the
text. -/
theorem ofLines_cases {layout : Layout} {line offset : Nat} {cs : List Char}
    {later : List (List Char)} {tokens : List Token} :
    ofLines layout line offset cs later = .ok tokens →
    ∃ own moved, ofLine layout line offset cs = .ok (own, moved) ∧ match later with
      | [] => tokens =
        own ++ closing moved ⟨line, cs.length + 1, Span.point (offset + Text.byteLength cs)⟩
      | next :: more => ∃ span,
        (Span.between (offset + Text.byteLength cs) (offset + Text.byteLength cs + 1) :
          Except (Halt ScanFault) Span) = .ok span ∧
        ∃ rest, ofLines moved (line + 1) (offset + Text.byteLength cs + 1) next more = .ok rest ∧
          tokens = own ++ ([⟨⟨line, cs.length + 1, span⟩, .newline, "\n"⟩] ++ rest) := by
  intro h
  cases later with
  | nil =>
    simp only [ofLines, bind, Except.bind] at h
    split at h
    · cases h
    rename_i pair hline
    cases h
    exact ⟨pair.1, pair.2, hline, rfl⟩
  | cons next more =>
    simp only [ofLines, bind, Except.bind] at h
    split at h
    · cases h
    rename_i pair hline
    split at h
    · cases h
    rename_i span hspan
    split at h
    · cases h
    rename_i rest hrest
    cases h
    exact ⟨pair.1, pair.2, hline, span, hspan, rest, hrest, rfl⟩

theorem ofLines_sound {layout : Layout} {line offset : Nat} {cs : List Char}
    {later : List (List Char)} {tokens : List Token}
    (h : ofLines layout line offset cs later = .ok tokens) : Sound tokens := by
  induction later generalizing layout line offset cs tokens with
  | nil =>
    obtain ⟨own, moved, hline, rfl⟩ := ofLines_cases h
    exact (ofLine_part hline).append_sound (closing_sound moved _)
  | cons next more ih =>
    obtain ⟨own, moved, hline, span, -, rest, hrest, rfl⟩ := ofLines_cases h
    refine (ofLine_part hline).append_sound (Part.append_sound ?_ (ih hrest))
    refine Part.of_kinds fun token htoken => ?_
    obtain rfl := List.mem_singleton.mp htoken
    exact ⟨rfl, Kind.noConfusion⟩

theorem ofSource_sound {source : String} {tokens : List Token}
    (h : ofSource source = .ok tokens) : Sound tokens :=
  ofLines_sound h

theorem lineWords_cases {layout moved : Layout} {cs : List Char} {us : List Word}
    (h : lineWords layout cs = .ok (us, moved)) :
    isBlankLine cs = true ∧ us = [] ∧ moved = layout ∨
    isBlankLine cs = false ∧ ∃ shift vs,
      layout.moveTo (Layout.measure (cs.takeWhile Layout.isIndent)) = (shift, moved) ∧
      (∀ expected, shift ≠ .mismatch expected) ∧ Line.Reads cs vs ∧ us = shift.words ++ vs := by
  cases hblank : isBlankLine cs with
  | true =>
    rw [lineWords, if_pos hblank] at h
    cases h
    exact .inl ⟨rfl, rfl, rfl⟩
  | false =>
    right
    cases hmove : layout.moveTo (Layout.measure (cs.takeWhile Layout.isIndent)) with
    | mk shift next =>
      cases shift with
      | mismatch expected =>
        unfold lineWords at h
        simp only [hblank, Bool.false_eq_true, if_false, hmove] at h
        cases h
      | opens | closes count =>
        rw [lineWords_eq hblank hmove (by simp)] at h
        obtain ⟨vs, hline, hread⟩ := exists_of_map_eq_ok h
        cases hread
        exact ⟨rfl, _, vs, rfl, by simp, hline, rfl⟩

theorem lineWords_first {layout moved : Layout} {cs : List Char} {us : List Word}
    (h : lineWords layout cs = .ok (us, moved)) {c : Char} {rest : List Char}
    (hfirst : Text.dropBlanks cs = c :: rest) : (Line.munch c rest).isSome = true := by
  obtain ⟨hblank, -, -⟩ | ⟨-, shift, vs, -, -, hline, -⟩ := lineWords_cases h
  · unfold isBlankLine at hblank
    rw [hfirst] at hblank
    obtain rfl := beq_iff_eq.mp hblank
    rfl
  · exact Line.words_first hline hfirst

theorem linesWords_first {layout : Layout} {line : Nat} {piece cs : List Char} {ws : List Word}
    (hpiece : ∀ d ∈ piece, Text.isBlank d = true)
    (h : linesWords layout line (piece ++ (Text.cut cs).1) (Text.cut cs).2 = .ok ws)
    {c : Char} {rest : List Char} (hfirst : Text.dropBlanks cs = c :: rest) :
    ∃ more, (Line.munch c more).isSome = true := by
  induction cs generalizing layout line piece ws with
  | nil => cases hfirst
  | cons d cs ih =>
    by_cases hbreak : d = '\n'
    · subst hbreak
      obtain ⟨us, moved, vs, -, hafter, -⟩ := linesWords_cons_eq_ok.mp h
      exact @ih moved (line + 1) [] vs (by simp) hafter hfirst
    rw [Text.cut_cons hbreak] at h
    cases hblank : Text.isBlank d with
    | true =>
      have hlonger : ∀ b ∈ piece ++ [d], Text.isBlank b = true := by
        intro b hb
        rcases List.mem_append.mp hb with hb | hb
        · exact hpiece b hb
        · rw [List.mem_singleton.mp hb, hblank]
      refine @ih layout line (piece ++ [d]) ws hlonger (by simpa using h) ?_
      rw [← hfirst, Text.dropBlanks, Text.dropBlanks, List.dropWhile_cons_of_pos hblank]
    | false =>
      rw [Text.dropBlanks, List.dropWhile_cons_of_neg (by simp [hblank])] at hfirst
      cases hfirst
      obtain ⟨us, moved, hline⟩ := exists_lineWords h
      refine ⟨(Text.cut rest).1, lineWords_first hline ?_⟩
      rw [Text.dropBlanks, List.dropWhile_append_of_pos hpiece,
        List.dropWhile_cons_of_neg (by simp [hblank])]

theorem ofSource_first {source : String} {tokens : List Token} (h : ofSource source = .ok tokens)
    {c : Char} {rest : List Char} (hfirst : Text.dropBlanks source.toList = c :: rest) :
    ∃ more, (Line.munch c more).isSome = true :=
  @linesWords_first _ _ [] _ _ (by simp) (words_of_ofSource h) _ _ hfirst

end Token

end Splice
