import Splice.Proofs.Decimal.Whole
import Splice.Proofs.Token.Words

/-! The text of a tree is read as its spelling.  The pen is followed from one stroke to the next:
whatever text comes later, as long as it fits what was written last, everything before it is read
as the words of the strokes so far. -/
namespace Splice

open Line Spelling
open Token (ReadsOn solid_cut)

/-- A stretch of text that is read as the same words inside any line. -/
structure Piece (text : String) (us : List Word) (follow : Follow) : Prop where
  reads : ∀ {depth k ws}, follow k → ReadsOn depth k ws →
    ReadsOn depth (text.toList ++ k) (us ++ ws)

namespace Piece

theorem append {s t : String} {us vs : List Word} {follow last : Follow} (hs : Piece s us follow)
    (ht : Piece t vs last) (hfit : ∀ k, last k → follow (t.toList ++ k)) :
    Piece (s ++ t) (us ++ vs) last where
  reads := by
    intro depth k ws hk h
    rw [String.toList_append, List.append_assoc, List.append_assoc]
    exact hs.reads (hfit k hk) (ht.reads hk h)

theorem of_line {text : String} {us : List Word} {follow : Follow} (hline : '\n' ∉ text.toList)
    (h : ∀ k vs, follow k → Line.Reads (Text.cut k).1 vs →
      Line.Reads (text.toList ++ (Text.cut k).1) (us ++ vs)) : Piece text us follow :=
  ⟨fun hk hreads => hreads.stretch hline fun vs => h _ vs hk⟩

end Piece

theorem closed_cut {k : List Char} (h : Closed k) : Closed (Text.cut k).1 :=
  fun c hc => h c (Text.head?_cut hc)

theorem piece_word {word : String} (h : isWordText word = true) :
    Piece word [(Kind.ofWord word, word)] Closed := by
  obtain ⟨c, cs, rfl, hc, hcs⟩ := exists_of_isWordText h
  apply Piece.of_line
  · intro hmem
    exact Bool.noConfusion (isWordPart_of_mem h hmem)
  · intro k vs hk hreads
    rw [String.toList_ofList]
    exact Reads.word hc hcs (closed_cut hk) hreads

theorem piece_keyword (word : Keyword) :
    Piece word.spelling [(Kind.keyword word).word] Closed := by
  have hkind : Kind.ofWord word.spelling = .keyword word := by
    unfold Kind.ofWord
    rw [Kind.ofWord?_spelling]
    rfl
  have hpiece := piece_word (show isWordText word.spelling = true by cases word <;> decide)
  rw [hkind] at hpiece
  exact hpiece

theorem piece_widget (w : Widget) : Piece w.name [(Kind.widget w).word] Closed := by
  have hkind : Kind.ofWord w.name = .widget w := by
    unfold Kind.ofWord
    rw [Kind.ofWord?_widget]
    rfl
  have hpiece := piece_word (show isWordText w.name = true by cases w <;> decide)
  rw [hkind] at hpiece
  exact hpiece

theorem piece_name {name : String} (h : isPlainName name = true) :
    Piece name [(.ident, name)] Closed := by
  obtain ⟨hword, hkind⟩ := isWordText_of_isPlainName h
  have hpiece := piece_word hword
  rw [hkind] at hpiece
  exact hpiece

theorem piece_numeral (n : Nat) :
    Piece (String.ofList (Decimal.numeral n)) [(.number, String.ofList (Decimal.numeral n))]
      Closed := by
  obtain ⟨c, cs, hnumeral⟩ := List.exists_cons_of_ne_nil (Decimal.numeral_ne_nil n)
  have hdigits := Decimal.isDigit_of_mem_numeral n
  rw [hnumeral] at hdigits ⊢
  apply Piece.of_line
  · rw [String.toList_ofList]
    intro hmem
    cases hdigits _ hmem
  · intro k vs hk hreads
    rw [String.toList_ofList]
    exact Reads.digits (hdigits c List.mem_cons_self)
      (fun d hd => hdigits d (List.mem_cons_of_mem _ hd)) (closed_cut hk) hreads

theorem piece_number {x : Float} (h : Decimal.isNatural x = true) :
    Piece (Decimal.text x) [(.number, Decimal.text x)] Closed := by
  obtain ⟨n, htext, -⟩ := Decimal.text_of_isNatural h
  rw [htext]
  exact piece_numeral n

theorem piece_quoted {q : Char} {text : String} (hq : isQuote q = true)
    (hline : '\n' ∉ text.toList) (hfree : q ∉ text.toList) :
    Piece (String.ofList (q :: text.toList ++ [q])) [(.string, text)] Anything := by
  have hbreak : '\n' ≠ q := by
    rintro rfl
    cases hq
  apply Piece.of_line
  · simp [hline, hbreak]
  · intro k vs _ hreads
    have hbody : ∀ d ∈ text.toList, d ≠ q ∧ d ≠ '\n' := by
      intro d hd
      exact ⟨fun heq => hfree (heq ▸ hd), fun heq => hline (heq ▸ hd)⟩
    have hread := Reads.quoted hq hbody hreads
    rw [String.ofList_toList] at hread
    simpa [String.toList_ofList] using hread

theorem quote_eq (text : String) : ∃ q, isQuote q = true ∧
    quote text = String.ofList (q :: text.toList ++ [q]) ∧
      (isPlainText text = true → q ∉ text.toList) := by
  unfold quote isPlainText
  split
  · rename_i hdouble
    refine ⟨'\'', rfl, by simp [String.append_assoc], ?_⟩
    intro hplain
    rw [hdouble] at hplain
    simp only [Bool.true_and, Bool.and_eq_true, Bool.not_eq_true', List.contains_eq_mem,
      decide_eq_false_iff_not] at hplain
    exact hplain.2
  · rename_i hdouble
    exact ⟨'"', rfl, by simp [String.append_assoc], fun _ => by simpa using hdouble⟩

theorem piece_quote {text : String} (h : isPlainText text = true) :
    Piece (quote text) [(.string, text)] Anything := by
  obtain ⟨q, hq, hquote, hfree⟩ := quote_eq text
  have hline : '\n' ∉ text.toList := by
    simp only [isPlainText, Bool.and_eq_true, Bool.not_eq_true'] at h
    simpa using h.1
  rw [hquote]
  exact piece_quoted hq hline (hfree h)

theorem piece_symbol {c : Char} {kind : Kind} (hc : symbol? c = some kind) (hne : c ≠ '=') :
    Piece (String.ofList [c]) [(kind, String.ofList [c])] Anything := by
  apply Piece.of_line
  · rw [String.toList_ofList]
    intro hmem
    rw [← List.mem_singleton.mp hmem] at hc
    cases hc
  · intro k vs _ hreads
    rw [String.toList_ofList]
    exact Reads.symbol hc (fun heq => absurd heq hne) hreads

theorem piece_operator (op : Operator) :
    Piece op.symbol [(Kind.operator op).word] Anything := by
  cases op with
  | add => exact @piece_symbol '+' _ rfl (by decide)
  | sub => exact @piece_symbol '-' _ rfl (by decide)
  | mul => exact @piece_symbol '*' _ rfl (by decide)
  | div => exact @piece_symbol '/' _ rfl (by decide)
  | less => exact @piece_symbol '<' _ rfl (by decide)
  | greater => exact @piece_symbol '>' _ rfl (by decide)
  | equal =>
    apply Piece.of_line (by decide)
    intro k vs _ hreads
    exact hreads.equal
  | notEqual =>
    apply Piece.of_line (by decide)
    intro k vs _ hreads
    exact hreads.notEqual

theorem piece_space : Piece " " [] Solid := by
  apply Piece.of_line (by decide)
  intro k vs _ hreads
  exact hreads.spaces 1

theorem piece_assign : Piece "= " [Kind.assign.word] Solid := by
  apply Piece.of_line (by decide)
  intro k vs _ hreads
  exact @Reads.symbol '=' _ (' ' :: _) _ rfl (by simp) (hreads.spaces 1)

/-- What it means that a text is read as words, for all text that may come first. -/
abbrev Context := List Char → List Word → Prop

/-- Whatever fits behind the pen's text, the text is read as these words inside so many blocks. -/
def Pen.Reads (p : Pen) (context : Context) (follow : Follow) (ws : List Word) (depth : Nat) :
    Prop :=
  ∀ k vs, follow k → ReadsOn depth k vs → context (p.out.toList ++ k) (ws ++ vs)

/-- A pen that owes no line break. -/
structure Pen.Ready (p : Pen) (context : Context) (follow : Follow) (ws : List Word)
    (depth : Nat) : Prop where
  owed : p.owed = none
  reads : p.Reads context follow ws depth

/-- A pen behind an expression; it owes a line break if blocks were left open. -/
structure Pen.Left (p : Pen) (context : Context) (s : Spelling) (depth : Nat) : Prop where
  owed : p.owed = if s.opens = 0 then none else some depth
  reads : p.Reads context Closed s.line (depth + s.opens)

/-- A text between expressions.  It may stand at the start of a line, where it loses its leading
blanks. -/
structure Delimiter (text : String) (us : List Word) (follow : Follow) : Prop where
  piece : Piece text us follow
  closed : ∀ k, Closed (text.toList ++ k)
  trimmed : Piece (Text.trimStart text) us follow
  solid : ∀ k, Solid ((Text.trimStart text).toList ++ k)

namespace Pen

variable {p : Pen} {context : Context} {follow last : Follow} {ws us : List Word} {depth : Nat}
  {text : String}

theorem Ready.closed (h : p.Ready context Anything ws depth) : p.Ready context Closed ws depth :=
  ⟨h.owed, fun k vs _ => h.reads k vs trivial⟩

theorem Ready.solid (h : p.Ready context Anything ws depth) : p.Ready context Solid ws depth :=
  ⟨h.owed, fun k vs _ => h.reads k vs trivial⟩

theorem Ready.write (h : p.Ready context follow ws depth) (hpiece : Piece text us last)
    (hfit : ∀ k, last k → follow (text.toList ++ k)) :
    (p.write text).Ready context last (ws ++ us) depth := by
  unfold Pen.write
  rw [h.owed]
  refine ⟨rfl, ?_⟩
  intro k vs hk hreads
  rw [String.toList_append, List.append_assoc, List.append_assoc]
  exact h.reads _ _ (hfit k hk) (hpiece.reads hk hreads)

theorem Reads.freshLine {inner : Nat} (h : p.Reads context Closed ws inner) (hle : depth ≤ inner) :
    (p.freshLine depth).Ready context Solid
      (ws ++ Kind.newline.word :: dedents (inner - depth)) depth := by
  refine ⟨rfl, ?_⟩
  intro k vs hk hreads
  have hline := ReadsOn.lineBreak (Token.Reads.outer hle hk hreads)
  have hread := h _ _ (by simp [Closed, isWordPart]) hline
  simpa [Pen.freshLine, Pen.indentation] using hread

theorem Reads.indent (h : p.Reads context Closed ws depth) :
    (p.freshLine (depth + 1)).Ready context Solid
      (ws ++ [Kind.newline.word, Kind.indent.word]) (depth + 1) := by
  refine ⟨rfl, ?_⟩
  intro k vs hk hreads
  have hline := ReadsOn.lineBreak (Token.Reads.inner hk hreads)
  have hread := h _ _ (by simp [Closed, isWordPart]) hline
  simpa [Pen.freshLine, Pen.indentation] using hread

theorem Left.reads_after {s : Spelling} (h : p.Left context (s.after (ws ++ us)) depth) :
    p.Reads context Closed (ws ++ (s.after us).line) (depth + (s.after us).opens) := by
  have hreads := h.reads
  unfold Spelling.after at hreads ⊢
  rwa [List.append_assoc] at hreads

theorem Ready.left (h : p.Ready context Closed ws depth) : p.Left context ⟨ws, 0⟩ depth :=
  ⟨h.owed, h.reads⟩

theorem Left.write {s : Spelling} (h : p.Left context s depth) (hdelim : Delimiter text us follow) :
    (p.write text).Ready context follow (s.settled ++ us) depth := by
  have howed := h.owed
  unfold settled closing
  by_cases hopens : s.opens = 0
  · have hreads := h.reads
    rw [if_pos hopens] at howed ⊢
    rw [hopens] at hreads
    rw [List.append_nil]
    exact Ready.write ⟨howed, hreads⟩ hdelim.piece fun k _ => hdelim.closed k
  · rw [if_neg hopens] at howed ⊢
    have hline := h.reads.freshLine (Nat.le_add_right depth s.opens)
    rw [Nat.add_sub_cancel_left] at hline
    have hwrite := hline.write hdelim.trimmed fun k _ => hdelim.solid k
    unfold Pen.write at hwrite ⊢
    rw [howed]
    exact hwrite

end Pen

theorem piece_leftParen : Piece "(" [Kind.leftParen.word] Anything :=
  piece_symbol rfl (by decide)

theorem Delimiter.of_solid {text : String} {us : List Word} {follow : Follow}
    (hpiece : Piece text us follow) (htrim : Text.trimStart text = text)
    (hclosed : ∀ k, Closed (text.toList ++ k)) (hsolid : ∀ k, Solid (text.toList ++ k)) :
    Delimiter text us follow :=
  ⟨hpiece, hclosed, by rw [htrim]; exact hpiece, by rw [htrim]; exact hsolid⟩

theorem delimiter_rightParen : Delimiter ")" [Kind.rightParen.word] Anything :=
  .of_solid (piece_symbol rfl (by decide)) (by decide) (by simp [Closed, isWordPart])
    (by simp [Solid, Text.isBlank])

theorem delimiter_colon : Delimiter ":" [Kind.colon.word] Anything :=
  .of_solid (piece_symbol rfl (by decide)) (by decide) (by simp [Closed, isWordPart])
    (by simp [Solid, Text.isBlank])

theorem delimiter_comma : Delimiter ", " [Kind.comma.word] Solid := by
  have hcomma : Piece "," [Kind.comma.word] Anything := piece_symbol rfl (by decide)
  exact .of_solid (hcomma.append piece_space fun _ _ => trivial) (by decide)
    (by simp [Closed, isWordPart]) (by simp [Solid, Text.isBlank])

theorem solid_operator (op : Operator) (k : List Char) : Solid (op.symbol.toList ++ k) := by
  cases op <;> simp [Operator.symbol, Solid, Text.isBlank]

theorem delimiter_operator (op : Operator) :
    Delimiter (" " ++ op.symbol ++ " ") [(Kind.operator op).word] Solid := by
  have htrim : Text.trimStart (" " ++ op.symbol ++ " ") = op.symbol ++ " " := by
    cases op <;> decide
  have hsign : Piece (op.symbol ++ " ") [(Kind.operator op).word] Solid :=
    (piece_operator op).append piece_space fun _ _ => trivial
  refine ⟨?_, by simp [Closed, isWordPart], by rw [htrim]; exact hsign, ?_⟩
  · rw [String.append_assoc]
    refine piece_space.append hsign fun k _ => ?_
    rw [String.toList_append, List.append_assoc]
    exact solid_operator op _
  · intro k
    rw [htrim, String.toList_append, List.append_assoc]
    exact solid_operator op _

theorem solid_word {word : String} (h : isWordText word = true) (k : List Char) :
    Solid (word.toList ++ k) := by
  obtain ⟨c, cs, rfl, hc, -⟩ := exists_of_isWordText h
  rw [String.toList_ofList]
  exact isWordStart_class hc

theorem solid_name {name : String} (h : isPlainName name = true) (k : List Char) :
    Solid (name.toList ++ k) :=
  solid_word (isWordText_of_isPlainName h).1 k

theorem solid_keyword (word : Keyword) (k : List Char) : Solid (word.spelling.toList ++ k) :=
  solid_word (by cases word <;> decide) k

theorem solid_widget (w : Widget) (k : List Char) : Solid (w.name.toList ++ k) :=
  solid_word (by cases w <;> decide) k

theorem solid_numeral (n : Nat) (k : List Char) :
    Solid ((String.ofList (Decimal.numeral n)).toList ++ k) := by
  obtain ⟨c, cs, hnumeral⟩ := List.exists_cons_of_ne_nil (Decimal.numeral_ne_nil n)
  have hc := isDigit_class (Decimal.isDigit_of_mem_numeral n c (by rw [hnumeral]; simp))
  rw [hnumeral, String.toList_ofList]
  exact ⟨hc.1, hc.2.1⟩

theorem solid_number {x : Float} (h : Decimal.isNatural x = true) (k : List Char) :
    Solid ((Decimal.text x).toList ++ k) := by
  obtain ⟨n, htext, -⟩ := Decimal.text_of_isNatural h
  rw [htext]
  exact solid_numeral n k

theorem solid_quote (text : String) (k : List Char) : Solid ((quote text).toList ++ k) := by
  obtain ⟨q, hq, hquote, -⟩ := quote_eq text
  rw [hquote, String.toList_ofList]
  simp only [isQuote, Bool.or_eq_true, beq_iff_eq] at hq
  rcases hq with rfl | rfl <;> simp [Solid, Text.isBlank]

theorem Pen.Ready.group {p : Pen} {context : Context} {ws : List Word} {depth : Nat}
    {part : Pen → Pen} {s : Spelling} (parens : Bool) (h : p.Ready context Solid ws depth)
    (hpart : ∀ q us, Pen.Ready q context Solid us depth →
      (part q).Left context (s.after us) depth) :
    (p.group parens part).Left context ((Spelling.group parens s).after ws) depth := by
  unfold Pen.group Spelling.group
  cases parens with
  | false => exact hpart p ws h
  | true =>
    have hopen := h.write piece_leftParen (by simp [Solid, Text.isBlank])
    have hinner := hpart _ _ hopen.solid
    have hclose := hinner.write delimiter_rightParen
    have hleft := hclose.closed.left
    simpa [Spelling.after, settled, List.append_assoc] using hleft

namespace Expr

mutual

theorem write_left (depth : Nat) (e : Expr) (hwf : e.wellFormed = true) {p : Pen}
    {context : Context} {ws : List Word} (h : p.Ready context Solid ws depth) :
    (e.write depth p).Left context (e.spelling.after ws) depth := by
  cases e with
  | binary op left right =>
    rw [wellFormed, Bool.and_eq_true] at hwf
    have hleft := h.group (left.strength < op.precedence) fun q us => write_left depth left hwf.1
    have hsign := hleft.write (delimiter_operator op)
    have hright := hsign.group (right.strength ≤ op.precedence)
      fun q us => write_left depth right hwf.2
    rw [write, spelling]
    simpa [Spelling.after, settled] using hright
  | name n =>
    rw [wellFormed] at hwf
    rw [write, spelling]
    exact (h.write (piece_name hwf) fun k _ => solid_name hwf k).left
  | number value =>
    rw [wellFormed] at hwf
    rw [write, spelling]
    exact (h.write (piece_number hwf) fun k _ => solid_number hwf k).left
  | text value =>
    rw [wellFormed] at hwf
    rw [write, spelling]
    have hquote := h.write (piece_quote hwf) fun k _ => solid_quote value k
    exact hquote.closed.left
  | call callee args =>
    rw [wellFormed, Bool.and_eq_true] at hwf
    have hname := h.write (piece_name hwf.1) fun k _ => solid_name hwf.1 k
    have hopen := hname.write piece_leftParen (by simp [Closed, isWordPart])
    obtain ⟨s, hargs, hsettled⟩ := writeArgs_first depth args hwf.2 hopen
    have hclose := (hargs.write delimiter_rightParen).closed.left
    rw [write, spelling]
    simpa [hsettled, Spelling.after] using hclose
  | ui widget args children =>
    rw [wellFormed, Bool.and_eq_true] at hwf
    have hname := h.write (piece_widget widget) fun k _ => solid_widget widget k
    have hopen := hname.write piece_leftParen (by simp [Closed, isWordPart])
    obtain ⟨s, hargs, hsettled⟩ := writeArgs_first depth args hwf.1 hopen
    have hclose := (hargs.write delimiter_rightParen).closed.left
    rw [hsettled] at hclose
    cases children with
    | nil =>
      rw [write, spelling]
      simpa [Spelling.after] using hclose
    | cons child more =>
      rw [allWellFormed, Bool.and_eq_true] at hwf
      have hcolon := (hclose.write delimiter_colon).closed.reads
      have hfirst := write_left (depth + 1) child hwf.2.1 hcolon.indent
      have hmore := writeChildren_reads (depth + 1) more hwf.2.2 hfirst.reads
      rw [Nat.add_right_comm, Nat.add_assoc] at hmore
      rw [write, spelling, spellings]
      refine ⟨rfl, ?_⟩
      rw [writeChildren]
      simpa [Pen.Reads, Spelling.after, block, lines, settled, closing] using hmore

theorem writeArgs_first (depth : Nat) (es : List Expr) (hwf : allWellFormed es = true) {p : Pen}
    {context : Context} {ws : List Word} (h : p.Ready context Anything ws depth) :
    ∃ s, (writeArgs depth true es p).Left context s depth ∧
      s.settled = ws ++ list (spellings es) := by
  cases es with
  | nil =>
    refine ⟨⟨ws, 0⟩, ?_, ?_⟩
    · rw [writeArgs]
      exact h.closed.left
    · simp [settled, closing, spellings, list]
  | cons e es =>
    rw [allWellFormed, Bool.and_eq_true] at hwf
    have hfirst := write_left depth e hwf.1 h.solid
    obtain ⟨s, hs, hsettled⟩ := writeArgs_left depth es hwf.2 hfirst
    refine ⟨s, ?_, ?_⟩
    · rw [writeArgs]
      exact hs
    · rw [hsettled, spellings, list]
      simp [settled, Spelling.after]

theorem writeArgs_left (depth : Nat) (es : List Expr) (hwf : allWellFormed es = true) {p : Pen}
    {context : Context} {s : Spelling} (h : p.Left context s depth) :
    ∃ s', (writeArgs depth false es p).Left context s' depth ∧
      s'.settled = s.settled ++ listTail (spellings es) := by
  cases es with
  | nil =>
    refine ⟨s, ?_, ?_⟩
    · rw [writeArgs]
      exact h
    · simp [spellings, listTail]
  | cons e es =>
    rw [allWellFormed, Bool.and_eq_true] at hwf
    have hnext := write_left depth e hwf.1 (h.write delimiter_comma)
    obtain ⟨s', hs, hsettled⟩ := writeArgs_left depth es hwf.2 hnext
    refine ⟨s', ?_, ?_⟩
    · rw [writeArgs]
      exact hs
    · rw [hsettled, spellings, listTail]
      simp [settled, Spelling.after]

theorem writeChildren_reads (depth : Nat) (es : List Expr) (hwf : allWellFormed es = true)
    {p : Pen} {context : Context} {ws : List Word} {opens : Nat}
    (h : p.Reads context Closed ws (depth + opens)) :
    (writeChildren depth es p).Reads context Closed (ws ++ (linesTail opens (spellings es)).line)
      (depth + (linesTail opens (spellings es)).opens) := by
  cases es with
  | nil =>
    rw [writeChildren, spellings, linesTail, List.append_nil]
    exact h
  | cons e es =>
    rw [allWellFormed, Bool.and_eq_true] at hwf
    have hline := h.freshLine (Nat.le_add_right depth opens)
    rw [Nat.add_sub_cancel_left] at hline
    have hnext := write_left depth e hwf.1 hline
    have hmore := writeChildren_reads depth es hwf.2 hnext.reads
    rw [writeChildren, spellings, linesTail]
    simpa [Spelling.after] using hmore

end

theorem writeTest_left (depth : Nat) (e : Expr) (hwf : e.wellFormed = true) {p : Pen}
    {context : Context} {ws : List Word} (h : p.Ready context Solid ws depth) :
    (e.writeTest depth p).Left context (e.testSpelling.after ws) depth :=
  h.group e.endsBare fun _ _ => write_left depth e hwf

end Expr

theorem closed_space (k : List Char) : Closed (" ".toList ++ k) := by
  simp [Closed, isWordPart]

theorem piece_opening (word : Keyword) :
    Piece (word.spelling ++ " ") [(Kind.keyword word).word] Solid :=
  (piece_keyword word).append piece_space fun k _ => closed_space k

theorem solid_opening (word : Keyword) (text : String) (k : List Char) :
    Solid ((word.spelling ++ text).toList ++ k) := by
  rw [String.toList_append, List.append_assoc]
  exact solid_keyword word _

theorem piece_params {params : List String} (h : params.all isPlainName = true) :
    Piece (", ".intercalate params) (list (params.map fun param => ⟨[(.ident, param)], 0⟩))
      Closed := by
  induction params with
  | nil => exact ⟨fun _ hreads => hreads⟩
  | cons param params ih =>
    rw [List.all_cons, Bool.and_eq_true] at h
    have hparam := piece_name h.1
    cases params with
    | nil => simpa [list, listTail, settled, closing] using hparam
    | cons next more =>
      rw [String.intercalate_cons_cons]
      have hsolid : ∀ k, Closed k → Solid ((", ".intercalate (next :: more)).toList ++ k) := by
        intro k _
        rw [List.all_cons, Bool.and_eq_true] at h
        cases more with
        | nil =>
          rw [String.intercalate_singleton]
          exact solid_name h.2.1 k
        | cons later more =>
          rw [String.intercalate_cons_cons, String.toList_append, String.toList_append,
            List.append_assoc, List.append_assoc]
          exact solid_name h.2.1 _
      have hmore := (hparam.append delimiter_comma.piece fun k _ => delimiter_comma.closed k).append
        (ih h.2) hsolid
      simpa [list, listTail, settled, closing] using hmore

theorem piece_signature {name : String} {params : List String} (hname : isPlainName name = true)
    (hparams : params.all isPlainName = true) :
    Piece (Stmt.signature name params) (heading name params) Anything := by
  have hopen := (piece_name hname).append piece_leftParen (by simp [Closed, isWordPart])
  have hlist := hopen.append (piece_params hparams) fun _ _ => trivial
  have hclose := hlist.append delimiter_rightParen.piece fun k _ => delimiter_rightParen.closed k
  simpa [heading, Stmt.signature] using hclose

theorem solid_signature {name : String} (params : List String) (hname : isPlainName name = true)
    (k : List Char) : Solid ((Stmt.signature name params).toList ++ k) := by
  unfold Stmt.signature
  rw [String.toList_append, String.toList_append, String.toList_append, List.append_assoc,
    List.append_assoc, List.append_assoc]
  exact solid_name hname _

theorem Pen.Ready.writeInstruction {p : Pen} {context : Context} {ws : List Word} {depth : Nat}
    {instruction : Option String} (h : p.Ready context Closed ws depth)
    (hwf : instruction.all isPlainText = true) :
    (Stmt.writeInstruction instruction p).Ready context Closed
      (ws ++ Spelling.instruction instruction) depth := by
  cases instruction with
  | none =>
    rw [Spelling.instruction, List.append_nil]
    exact h
  | some text =>
    have hspace := h.write piece_space fun k _ => closed_space k
    have hquote := hspace.write (piece_quote hwf) fun k _ => solid_quote text k
    rw [List.append_nil] at hquote
    exact hquote.closed

section Headers

variable {p : Pen} {context : Context} {ws : List Word} {depth : Nat}

theorem Pen.Ready.opening (h : p.Ready context Solid ws depth) (word : Keyword) :
    (p.write (word.spelling ++ " ")).Ready context Solid (ws ++ [(Kind.keyword word).word]) depth :=
  h.write (piece_opening word) fun k _ => solid_opening word " " k

theorem Pen.Ready.functionHeader {name : String} {params : List String}
    (h : p.Ready context Solid ws depth) (hname : isPlainName name = true)
    (hparams : params.all isPlainName = true) :
    (p.write ("fn " ++ Stmt.signature name params ++ ":")).Ready context Anything
      (ws ++ ((Kind.keyword .function).word :: heading name params ++ [Kind.colon.word]))
      depth := by
  have hword : Piece "fn " [(Kind.keyword .function).word] Solid := piece_opening .function
  have hhead := (hword.append (piece_signature hname hparams)
    fun k _ => solid_signature params hname k).append delimiter_colon.piece fun _ _ => trivial
  exact h.write hhead (by simp [Solid, Text.isBlank])

theorem Pen.Ready.testHeader {test : Expr} (h : p.Ready context Solid ws depth) (word : Keyword)
    (hwf : test.wellFormed = true) :
    ((test.writeTest depth (p.write (word.spelling ++ " "))).write ":").Ready context Anything
      (ws ++ ((Kind.keyword word).word :: test.testSpelling.settled ++ [Kind.colon.word]))
      depth := by
  have hcolon := (test.writeTest_left depth hwf (h.opening word)).write delimiter_colon
  simpa [Spelling.after, settled] using hcolon

theorem Pen.Ready.generateLine {name description : String} {params : List String}
    (h : p.Ready context Solid ws depth) (hname : isPlainName name = true)
    (hparams : params.all isPlainName = true) (htext : isPlainText description = true) :
    (p.write ("generate fn " ++ Stmt.signature name params ++ ": description " ++
      quote description)).Ready context Anything
        (ws ++ (Stmt.generate name params description).spelling.line) depth := by
  have hwords : Piece "generate fn " [(Kind.keyword .generate).word, (Kind.keyword .function).word]
      Solid :=
    (piece_opening .generate).append (piece_opening .function)
      fun k _ => solid_opening .function _ k
  have hlabel : Piece ": description " [Kind.colon.word, (Kind.keyword .description).word] Solid :=
    (delimiter_colon.piece.append piece_space fun _ _ => trivial).append
      (piece_opening .description) fun k _ => solid_opening .description _ k
  have hhead := hwords.append (piece_signature hname hparams)
    fun k _ => solid_signature params hname k
  have hall := (hhead.append hlabel fun _ _ => trivial).append (piece_quote htext)
    fun k _ => solid_quote description k
  simpa [Stmt.spelling] using h.write hall (by simp [Solid, Text.isBlank])

theorem Pen.Ready.declaration {name : String} (h : p.Ready context Solid ws depth)
    (hname : isPlainName name = true) : (p.write ("var " ++ name)).Ready context Closed
      (ws ++ [(Kind.keyword .binding).word, (.ident, name)]) depth := by
  have hword : Piece "var " [(Kind.keyword .binding).word] Solid := piece_opening .binding
  exact h.write (hword.append (piece_name hname) fun k _ => solid_name hname k)
    (by simp [Solid, Text.isBlank])

theorem Pen.Ready.assignment {name : String} (h : p.Ready context Solid ws depth)
    (hname : isPlainName name = true) : ((p.write ("var " ++ name)).write " = ").Ready context Solid
      (ws ++ [(Kind.keyword .binding).word, (.ident, name), Kind.assign.word]) depth := by
  have hsign : Piece " = " [Kind.assign.word] Solid :=
    piece_space.append piece_assign (by simp [Solid, Text.isBlank])
  have hassign := (h.declaration hname).write hsign (by simp [Closed, isWordPart])
  rwa [List.append_assoc] at hassign

end Headers

namespace Stmt

/-- The block of a statement is read as its spelling, whatever header stands before it. -/
def BlockReads (depth : Nat) (body : List Stmt) : Prop :=
  ∀ {p : Pen} {context : Context} {ws us : List Word}, p.Ready context Anything (ws ++ us) depth →
    (writeBlock depth body p).Reads context Closed
      (ws ++ ((block (spellings body)).after us).line) (depth + (block (spellings body)).opens)

theorem write_otherwise {depth : Nat} {test : Expr} {yes no : List Stmt}
    (htest : test.wellFormed = true) (hyes : BlockReads depth yes) (hno : BlockReads depth no)
    {p : Pen} {context : Context} {ws : List Word} (h : p.Ready context Solid ws depth) :
    (write depth (.branch test yes (some no)) p).Reads context Closed
      (ws ++ (Stmt.branch test yes (some no)).spelling.line)
      (depth + (Stmt.branch test yes (some no)).spelling.opens) := by
  have hline := (hyes (h.testHeader .branch htest)).freshLine (Nat.le_add_right depth _)
  rw [Nat.add_sub_cancel_left] at hline
  have helse : Piece "else:" [(Kind.keyword .otherwise).word, Kind.colon.word] Anything :=
    (piece_keyword .otherwise).append delimiter_colon.piece fun k _ => delimiter_colon.closed k
  have hother := hno (hline.write helse (by simp [Solid, Text.isBlank]))
  rw [write, spelling]
  simpa [Spelling.after, settled, ended, lineBreak, Keyword.spelling] using hother

mutual

theorem write_reads (depth : Nat) (s : Stmt) (hwf : s.wellFormed = true) {p : Pen}
    {context : Context} {ws : List Word} (h : p.Ready context Solid ws depth) :
    (s.write depth p).Reads context Closed (ws ++ s.spelling.line) (depth + s.spelling.opens) := by
  cases s with
  | function name params body =>
    simp only [wellFormed, Bool.and_eq_true] at hwf
    rw [write, spelling]
    exact writeBlock_first depth body hwf.1.2 hwf.2 (h.functionHeader hwf.1.1.1 hwf.1.1.2)
  | binding name init =>
    cases init with
    | none =>
      rw [wellFormed] at hwf
      rw [write, spelling]
      exact (h.declaration hwf).reads
    | some init =>
      rw [wellFormed, Bool.and_eq_true] at hwf
      rw [write, spelling]
      exact (init.write_left depth hwf.2 (h.assignment hwf.1)).reads_after
  | branch test yes no =>
    cases no with
    | none =>
      simp only [wellFormed, Bool.and_eq_true] at hwf
      rw [write, spelling]
      exact writeBlock_first depth yes hwf.1.2 hwf.2 (h.testHeader .branch hwf.1.1)
    | some no =>
      simp only [wellFormed, Bool.and_eq_true] at hwf
      obtain ⟨⟨⟨⟨htest, hyes⟩, hwf⟩, hno⟩, hwf'⟩ := hwf
      exact write_otherwise htest (writeBlock_first depth yes hyes hwf)
        (writeBlock_first depth no hno hwf') h
  | loop test body =>
    simp only [wellFormed, Bool.and_eq_true] at hwf
    rw [write, spelling]
    exact writeBlock_first depth body hwf.1.2 hwf.2 (h.testHeader .loop hwf.1.1)
  | ret value =>
    have hword := h.write (piece_keyword .ret) fun k _ => solid_keyword .ret k
    cases value with
    | none =>
      rw [write, spelling]
      exact hword.reads
    | some value =>
      rw [wellFormed] at hwf
      have hspace := hword.write piece_space fun k _ => closed_space k
      rw [List.append_nil] at hspace
      rw [write, spelling]
      exact (value.write_left depth hwf hspace).reads_after
  | expr e =>
    rw [wellFormed] at hwf
    rw [write, spelling]
    exact (e.write_left depth hwf h).reads
  | generate name params description =>
    simp only [wellFormed, Bool.and_eq_true] at hwf
    rw [write]
    exact (h.generateLine hwf.1.1 hwf.1.2 hwf.2).closed.reads
  | optimize body =>
    simp only [wellFormed, Bool.and_eq_true] at hwf
    have hcolon : Piece "ai.optimize:" [(Kind.keyword .aiOptimize).word, Kind.colon.word]
        Anything :=
      (piece_keyword .aiOptimize).append delimiter_colon.piece fun k _ => delimiter_colon.closed k
    rw [write, spelling]
    exact writeBlock_first depth body hwf.1 hwf.2 (h.write hcolon (by simp [Solid, Text.isBlank]))
  | ask instruction body =>
    have hword := h.write (piece_keyword .ai) fun k _ => solid_keyword .ai k
    cases body with
    | none =>
      rw [wellFormed] at hwf
      have hinstruction := (hword.writeInstruction hwf).reads
      rw [write, spelling]
      simpa [Keyword.spelling] using hinstruction
    | some body =>
      simp only [wellFormed, Bool.and_eq_true] at hwf
      have hcolon := (hword.writeInstruction hwf.1.1).write delimiter_colon.piece
        fun k _ => delimiter_colon.closed k
      rw [List.append_assoc, List.append_assoc] at hcolon
      rw [write, spelling]
      exact writeBlock_first depth body hwf.1.2 hwf.2 hcolon
  | load library =>
    rw [wellFormed] at hwf
    have hhead := h.opening .aiImport
    rw [write, spelling]
    by_cases hname : isPlainName library = true
    · have hlibrary := (hhead.write (piece_name hname) fun k _ => solid_name hname k).reads
      simpa [hname, Keyword.spelling] using hlibrary
    · have hquote := hhead.write (piece_quote hwf) fun k _ => solid_quote library k
      simpa [hname, Keyword.spelling] using hquote.closed.reads
  | search query =>
    rw [wellFormed] at hwf
    have hquote := (h.opening .aiSearch).write (piece_quote hwf) fun k _ => solid_quote query k
    rw [write, spelling]
    simpa [Keyword.spelling] using hquote.closed.reads
  | inspect target =>
    rw [wellFormed] at hwf
    rw [write, spelling]
    exact (target.write_left depth hwf (h.opening .aiInspect)).reads_after

theorem writeBlock_first (depth : Nat) (ss : List Stmt) (hne : (!ss.isEmpty) = true)
    (hwf : allWellFormed ss = true) : BlockReads depth ss := by
  cases ss with
  | nil => cases hne
  | cons s ss =>
    intro p context ws us h
    rw [allWellFormed, Bool.and_eq_true] at hwf
    have hfirst := write_reads (depth + 1) s hwf.1 h.closed.reads.indent
    have hmore := @writeBlock_reads depth ss hwf.2 (Pen.settle _) _ _ _ hfirst
    rw [Nat.add_right_comm, Nat.add_assoc] at hmore
    rw [writeBlock, spellings]
    simpa [Spelling.after, block, lines] using hmore

theorem writeBlock_reads (depth : Nat) (ss : List Stmt) (hwf : allWellFormed ss = true) {p : Pen}
    {context : Context} {ws : List Word} {opens : Nat}
    (h : p.Reads context Closed ws (depth + 1 + opens)) :
    (writeBlock depth ss p).Reads context Closed (ws ++ (linesTail opens (spellings ss)).line)
      (depth + 1 + (linesTail opens (spellings ss)).opens) := by
  cases ss with
  | nil =>
    rw [writeBlock, spellings, linesTail, List.append_nil]
    exact h
  | cons s ss =>
    rw [allWellFormed, Bool.and_eq_true] at hwf
    have hline := h.freshLine (Nat.le_add_right (depth + 1) opens)
    rw [Nat.add_sub_cancel_left] at hline
    have hnext := write_reads (depth + 1) s hwf.1 hline
    have hmore := @writeBlock_reads depth ss hwf.2 (Pen.settle _) _ _ _ hnext
    rw [writeBlock, spellings, linesTail]
    simpa [Spelling.after] using hmore

end

theorem print_reads {s : Stmt} (hwf : s.wellFormed = true) (inner : Nat) {k : List Char}
    {vs : List Word} (hk : Closed k) (h : ReadsOn s.spelling.opens k vs) :
    Token.Reads inner ((s.print 0).toList ++ k) (dedents inner ++ s.spelling.line ++ vs) := by
  let context : Context := fun cs ws => Token.Reads inner cs (dedents inner ++ ws)
  have hstart : Pen.Ready ⟨Pen.indentation 0, none⟩ context Solid [] 0 :=
    ⟨rfl, fun k vs hk hreads => Token.Reads.outer (Nat.zero_le inner) hk hreads⟩
  have hwritten := write_reads 0 s hwf hstart k vs hk
  rw [Nat.zero_add, List.nil_append] at hwritten
  rw [List.append_assoc]
  exact hwritten h

theorem printAll_reads {s : Stmt} {ss : List Stmt} (hwf : allWellFormed (s :: ss) = true)
    (inner : Nat) {k : List Char} {vs : List Word} (hk : Closed k)
    (h : ReadsOn (lines (spellings (s :: ss))).opens k vs) :
    Token.Reads inner ((printAll (s :: ss)).toList ++ k)
      (dedents inner ++ (lines (spellings (s :: ss))).line ++ vs) := by
  induction ss generalizing s inner with
  | nil =>
    rw [allWellFormed, Bool.and_eq_true] at hwf
    have hone := print_reads hwf.1 inner hk h
    simpa [printAll, spellings, lines, linesTail, Spelling.after] using hone
  | cons next ss ih =>
    rw [allWellFormed, Bool.and_eq_true] at hwf
    have hmore := ih hwf.2 s.spelling.opens h
    have hline := print_reads hwf.1 inner (by simp [Closed, isWordPart]) (ReadsOn.lineBreak hmore)
    simpa [printAll, spellings, lines, linesTail, Spelling.after] using hline

/-- The words of a text of statements, with or without a line break at its end. -/
theorem textWords_printAll (broken : Bool) {stmts : List Stmt} (hne : stmts ≠ [])
    (hwf : allWellFormed stmts = true) :
    Token.textWords (printAll stmts ++ if broken then "\n" else "").toList =
      .ok (words broken stmts) := by
  obtain ⟨s, ss, rfl⟩ := List.exists_cons_of_ne_nil hne
  have hbreak : Closed (if broken then "\n" else "").toList := by
    cases broken <;> simp [Closed, isWordPart]
  have hend (depth : Nat) : ReadsOn depth (if broken then "\n" else "").toList
      (lineBreak broken ++ (dedents depth ++ [Kind.endOfInput.word])) := by
    cases broken with
    | false => exact ReadsOn.nil depth
    | true => exact ReadsOn.lineBreak (Token.Reads.nil depth)
  have hread := printAll_reads hwf 0 hbreak (hend _)
  rw [← String.toList_append] at hread
  refine (hread 1).trans ?_
  simp [words, ended, dedents]

end Stmt

theorem Expr.line_ne_nil (e : Expr) : e.spelling.line ≠ [] := by
  cases e with
  | ui widget args children => cases children <;> simp [spelling, Spelling.after]
  | _ => simp [spelling, Spelling.after]

theorem Stmt.line_ne_nil (s : Stmt) : s.spelling.line ≠ [] := by
  cases s with
  | binding name init => cases init <;> simp [spelling, Spelling.after]
  | branch test yes no => cases no <;> simp [spelling, Spelling.after]
  | ret value => cases value <;> simp [spelling, Spelling.after]
  | expr e => rw [spelling]; exact e.line_ne_nil
  | ask instruction body => cases body <;> simp [spelling, Spelling.after]
  | _ => simp [spelling, Spelling.after]

theorem Stmt.printAll_ne_empty {stmts : List Stmt} (hne : stmts ≠ [])
    (hwf : allWellFormed stmts = true) : printAll stmts ≠ "" := by
  intro hempty
  have hwords := textWords_printAll false hne hwf
  obtain ⟨s, ss, rfl⟩ := List.exists_cons_of_ne_nil hne
  rw [hempty] at hwords
  -- The empty text has one word, and a statement has one besides the end of input.
  have hlength : [Kind.endOfInput.word].length = (words false (s :: ss)).length :=
    congrArg List.length (Except.ok.inj hwords)
  have hline := List.length_pos_iff.mpr s.line_ne_nil
  simp [words, ended, spellings, lines, Spelling.after] at hlength
  omega

theorem Program.textWords_print {program : Program} (hwf : program.wellFormed = true) :
    Token.textWords program.print.toList = .ok (Stmt.words true program.body) := by
  unfold Program.print
  by_cases hne : program.body = []
  · rw [hne]
    rfl
  · have htext : (Stmt.printAll program.body).isEmpty = false := by
      rw [Bool.eq_false_iff, ne_eq, String.isEmpty_iff]
      exact Stmt.printAll_ne_empty hne hwf
    dsimp only
    rw [htext, if_neg (by decide)]
    exact Stmt.textWords_printAll true hne hwf

theorem Program.words_print {program : Program} (hwf : program.wellFormed = true)
    (hsize : program.print.utf8ByteSize < Span.limit) :
    ∃ tokens, Token.ofSource program.print = .ok tokens ∧
      tokens.map Token.word = Stmt.words true program.body :=
  Token.exists_tokens (Token.ofSource_ne_crash hsize) (textWords_print hwf)

end Splice
