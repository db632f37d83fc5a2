import Splice.Proofs.Token.Shape

/-! Where tokens stand.  The tokens of a text cut it into stretches: each token is written at the
place it names, and what lies between two tokens is blank or a comment.  A text that has no tokens
names the place of its first fault in the same way. -/
namespace Splice

namespace Text

def lastLine (cs : List Char) : List Char :=
  (cs.reverse.takeWhile (· ≠ '\n')).reverse

theorem lastLine_append {piece : List Char} (hpiece : '\n' ∉ piece) (cs : List Char) :
    lastLine (cs ++ piece) = lastLine cs ++ piece := by
  unfold lastLine
  rw [List.reverse_append, List.takeWhile_append_of_pos, List.reverse_append, List.reverse_reverse]
  intro c hc
  have hne : c ≠ '\n' := fun heq => hpiece (heq ▸ List.mem_reverse.mp hc)
  simpa using hne

theorem lastLine_break (cs : List Char) : lastLine (cs ++ ['\n']) = [] := by
  simp [lastLine]

end Text

def Place.after (before stretch : List Char) : Place where
  line := before.count '\n' + 1
  column := (Text.lastLine before).length + 1
  span := ⟨Text.byteLength before, Text.byteLength (before ++ stretch)⟩

namespace Place

/-- The numbers that name the position after `before`. -/
structure At (before : List Char) (line column offset : Nat) : Prop where
  line : line = before.count '\n' + 1
  column : column = (Text.lastLine before).length + 1
  offset : offset = Text.byteLength before

variable {before : List Char} {line column offset : Nat}

theorem At.append (h : At before line column offset) {piece : List Char} (hpiece : '\n' ∉ piece) :
    At (before ++ piece) line (column + piece.length) (offset + Text.byteLength piece) where
  line := by rw [h.line, List.count_append, List.count_eq_zero.mpr hpiece, Nat.add_zero]
  column := by
    rw [h.column, Text.lastLine_append hpiece, List.length_append]
    omega
  offset := by rw [h.offset, Text.byteLength_append]

theorem At.lineEnd (h : At before line 1 offset) {piece : List Char} (hpiece : '\n' ∉ piece) :
    At (before ++ piece) line (piece.length + 1) (offset + Text.byteLength piece) := by
  have hend := h.append hpiece
  rwa [Nat.add_comm 1] at hend

theorem At.lineBreak (h : At before line column offset) :
    At (before ++ ['\n']) (line + 1) 1 (offset + 1) where
  line := by simp [h.line]
  column := by rw [Text.lastLine_break, List.length_nil]
  offset := by
    rw [h.offset, Text.byteLength_append]
    rfl

section

variable {ε : Type} (written : List Char)

theorem At.between (h : At before line column offset)
    (hsize : Text.byteLength (before ++ written) < Span.limit) :
    (Span.between offset (offset + Text.byteLength written) : Except (Halt ε) Span) =
      .ok (after before written).span := by
  rw [h.offset, ← Text.byteLength_append, Span.between_eq _ hsize]
  · rfl
  · rw [Text.byteLength_append]
    exact Nat.le_add_right _ _

theorem At.eq_after (h : At before line column offset) :
    (⟨line, column, (after before written).span⟩ : Place) = .after before written := by
  rw [h.line, h.column]
  rfl

theorem At.place {span : Span} (h : At before line column offset)
    (hsize : Text.byteLength (before ++ written) < Span.limit)
    (hspan : (Span.between offset (offset + Text.byteLength written) : Except (Halt ε) Span) =
      .ok span) : (⟨line, column, span⟩ : Place) = .after before written := by
  rw [h.between written hsize] at hspan
  cases hspan
  exact h.eq_after written

end

theorem At.point (h : At before line column offset) (hsize : Text.byteLength before < Span.limit) :
    (⟨line, column, Span.point offset⟩ : Place) = .after before [] := by
  have hpoint : Span.point offset = (after before []).span := by
    rw [h.offset, Span.point, Nat.mod_eq_of_lt hsize, after, List.append_nil]
  rw [hpoint]
  exact h.eq_after []

end Place

namespace Token

def IsWritten (token : Token) (written : List Char) : Prop :=
  match token.kind with
  | .indent | .dedent | .endOfInput => written = []
  | .newline => written = ['\n']
  | .string => ∃ q, Line.isQuote q = true ∧ written = q :: (token.text.toList ++ [q])
  | _ => written = token.text.toList

theorem isWritten_text {token : Token} (hlayout : token.kind.isLayout = false)
    (hstring : token.kind ≠ .string) : token.IsWritten token.text.toList := by
  unfold IsWritten
  cases hkind : token.kind with
  | string => exact absurd hkind hstring
  | newline | indent | dedent | endOfInput =>
    rw [hkind] at hlayout
    cases hlayout
  | _ => rfl

end Token

namespace Line

def Stretch.Takes (stretch : Stretch) (taken rest : List Char) : Prop :=
  match stretch with
  | .gap => ∀ d ∈ taken, isGap d = true
  | .comment => ∃ body, taken = '#' :: body ∧ '\n' ∉ body ∧ ∀ d ∈ rest.head?, d = '\n'
  | .token kind text => ∀ place, Token.IsWritten ⟨place, kind, String.ofList text⟩ taken

theorem Stretch.takes_text {kind : Kind} {text : List Char} (hlayout : kind.isLayout = false)
    (hstring : kind ≠ .string) (rest : List Char) : (Stretch.token kind text).Takes text rest := by
  intro place
  have hwritten := @Token.isWritten_text ⟨place, kind, String.ofList text⟩ hlayout hstring
  rw [String.toList_ofList] at hwritten
  exact hwritten

theorem Stretch.takes_pair {c first second : Char} {cs : List Char}
    (h : (c = first && cs.head? = some second) = true) (op : Operator) :
    1 ≤ cs.length ∧
      (Stretch.token (.operator op) [first, second]).Takes (c :: cs.take 1) (cs.drop 1) := by
  simp only [Bool.and_eq_true, decide_eq_true_eq] at h
  obtain ⟨later, rfl⟩ := List.head?_eq_some_iff.mp h.2
  refine ⟨by simp, ?_⟩
  rw [h.1]
  exact takes_text rfl (by simp) _

theorem Stretch.takes_run {c : Char} {cs : List Char} {p : Char → Bool} {kind : Kind}
    (hlayout : kind.isLayout = false) (hstring : kind ≠ .string) :
    (cs.takeWhile p).length ≤ cs.length ∧
      (Stretch.token kind (c :: cs.takeWhile p)).Takes (c :: cs.take (cs.takeWhile p).length)
        (cs.drop (cs.takeWhile p).length) := by
  refine ⟨(List.takeWhile_sublist p).length_le, ?_⟩
  rw [take_takeWhile]
  exact takes_text hlayout hstring _

theorem ofWord_ne_string (word : String) : Kind.ofWord word ≠ .string := by
  unfold Kind.ofWord
  cases hword : Kind.ofWord? word with
  | none => simp
  | some kind => obtain ⟨w, rfl⟩ | ⟨w, rfl⟩ := Kind.ofWord?_reserved hword <;> simp

theorem symbol?_ne_string {c : Char} {kind : Kind} (h : symbol? c = some kind) :
    kind ≠ .string := by
  unfold symbol? at h
  split at h <;> cases h <;> simp

theorem munch_takes {c : Char} {cs : List Char} {stretch : Stretch} {more : Nat}
    (h : munch c cs = some (stretch, more)) :
    more ≤ cs.length ∧ stretch.Takes (c :: cs.take more) (cs.drop more) := by
  have hle (p : Char → Bool) : (cs.takeWhile p).length ≤ cs.length :=
    (List.takeWhile_sublist p).length_le
  have hspelled {kind : Kind} {text : List Char} (h : munch c cs = some (.token kind text, more)) :=
    (munch_isSpelled h).2
  have hrun := h
  unfold munch at h
  split at h
  · rename_i hgap
    cases h
    refine ⟨hle _, ?_⟩
    rw [take_takeWhile]
    rintro d (_ | ⟨_, hd⟩)
    · exact hgap
    · exact List.mem_takeWhile_imp hd
  split at h
  · rename_i hcomment
    cases h
    refine ⟨hle _, _, by rw [hcomment], ?_, ?_⟩
    · rw [take_takeWhile]
      intro hmem
      simpa using List.mem_takeWhile_imp hmem
    · rw [drop_takeWhile]
      intro d hd
      simpa using head?_dropWhile hd
  split at h
  · cases h
    exact Stretch.takes_run (hspelled hrun) (ofWord_ne_string _)
  split at h
  · cases h
    exact Stretch.takes_run rfl (by simp)
  split at h
  · rename_i hquote
    dsimp only at h
    split at h
    · rename_i hclose
      cases h
      refine ⟨?_, ?_⟩
      · exact (List.getElem?_eq_some_iff.mp hclose).1
      · intro place
        refine ⟨c, hquote, ?_⟩
        rw [List.take_add_one, take_takeWhile, hclose, String.toList_ofList]
        rfl
    · cases h
  split at h
  · rename_i hequal
    cases h
    exact Stretch.takes_pair hequal .equal
  split at h
  · rename_i hdifferent
    cases h
    exact Stretch.takes_pair hdifferent .notEqual
  · obtain ⟨_, hsymbol, hpair⟩ := Option.map_eq_some_iff.mp h
    cases hpair
    refine ⟨Nat.zero_le _, ?_⟩
    rw [List.take_zero]
    exact Stretch.takes_text (hspelled hrun) (symbol?_ne_string hsymbol) _

end Line

namespace Token

/-- The tokens of a text that stands after `before`, in order: each is written at its place, and
all else is blank or a comment up to the end of its line. -/
inductive Cover : List Char → List Char → List Token → Prop where
  | done (before : List Char) : Cover before [] []
  | blank {before cs : List Char} {c : Char} {tokens : List Token} (hc : Text.isBlank c = true)
      (h : Cover (before ++ [c]) cs tokens) : Cover before (c :: cs) tokens
  | comment {before body cs : List Char} {tokens : List Token} (hbody : '\n' ∉ body)
      (hend : ∀ c ∈ cs.head?, c = '\n') (h : Cover (before ++ '#' :: body) cs tokens) :
      Cover before ('#' :: body ++ cs) tokens
  | token {before written cs : List Char} {token : Token} {tokens : List Token}
      (hplace : token.toPlace = .after before written) (hwritten : token.IsWritten written)
      (h : Cover (before ++ written) cs tokens) : Cover before (written ++ cs) (token :: tokens)

theorem Cover.blanks {before blanks cs : List Char} {tokens : List Token}
    (hblanks : ∀ c ∈ blanks, Text.isBlank c = true) (h : Cover (before ++ blanks) cs tokens) :
    Cover before (blanks ++ cs) tokens := by
  induction blanks generalizing before with
  | nil => simpa using h
  | cons c blanks ih =>
    refine .blank (hblanks c List.mem_cons_self) (ih ?_ ?_)
    · exact fun d hd => hblanks d (List.mem_cons_of_mem _ hd)
    · simpa using h

theorem Cover.unwritten {before cs : List Char} {marks tokens : List Token}
    (hmarks : ∀ mark ∈ marks, mark.toPlace = .after before [] ∧ mark.IsWritten [])
    (h : Cover before cs tokens) : Cover before cs (marks ++ tokens) := by
  induction marks with
  | nil => exact h
  | cons mark marks ih =>
    obtain ⟨hplace, hwritten⟩ := hmarks mark List.mem_cons_self
    refine @Cover.token before [] cs mark _ hplace hwritten ?_
    rw [List.append_nil]
    exact ih fun other hother => hmarks other (List.mem_cons_of_mem _ hother)

theorem Cover.append {before cs ds : List Char} {tokens more : List Token}
    (h : Cover before cs tokens) (hds : ∀ c ∈ ds.head?, c = '\n')
    (hmore : Cover (before ++ cs) ds more) : Cover before (cs ++ ds) (tokens ++ more) := by
  induction h with
  | done before => simpa using hmore
  | blank hc _ ih => exact .blank hc (ih (by simpa using hmore))
  | @comment before body cs tokens hbody hend _ ih =>
    rw [List.append_assoc]
    refine .comment hbody ?_ (ih (by simpa using hmore))
    cases cs with
    | nil => exact hds
    | cons d cs => exact hend
  | token hplace hwritten _ ih =>
    rw [List.append_assoc]
    exact .token hplace hwritten (ih (by simpa using hmore))

end Token

namespace Line

open Place (At)

theorem munch_step {before cs : List Char} {c : Char} {stretch : Stretch}
    {line column offset more : Nat} (h : munch c cs = some (stretch, more))
    (hat : At before line column offset) (hbreak : '\n' ∉ c :: cs) :
    c :: cs = (c :: cs.take more) ++ cs.drop more ∧ '\n' ∉ cs.drop more ∧
      At (before ++ c :: cs.take more) line (column + more + 1)
        (offset + Text.byteLength (c :: cs.take more)) := by
  have hsplit : c :: cs = (c :: cs.take more) ++ cs.drop more := by
    rw [List.cons_append, List.take_append_drop]
  rw [hsplit, List.mem_append, not_or] at hbreak
  have hnext := hat.append hbreak.1
  have hlength : (c :: cs.take more).length = more + 1 := by
    rw [List.length_cons, List.length_take, Nat.min_eq_left (munch_takes h).1]
  rw [hlength, ← Nat.add_assoc] at hnext
  exact ⟨hsplit, hbreak.2, hnext⟩

theorem scan_covers {before cs : List Char} {line column offset : Nat} {tokens : List Token}
    (h : scan line column offset cs = .ok tokens) (hat : At before line column offset)
    (hbreak : '\n' ∉ cs) (hsize : Text.byteLength (before ++ cs) < Span.limit) :
    Token.Cover before cs tokens := by
  fun_induction scan line column offset cs generalizing before tokens with
  | case1 =>
    cases h
    exact .done before
  | case2 => cases h
  | case3 => cases h
  | case4 => cases h
  | case5 =>
    rename_i c cs stretch more hmunch stop own hown later hscan ih
    cases h
    obtain ⟨hsplit, hrest, hnext⟩ := munch_step hmunch hat hbreak
    have htakes := (munch_takes hmunch).2
    rw [hsplit] at hsize ⊢
    rw [← List.append_assoc] at hsize
    have hcover := ih hscan hnext hrest hsize
    cases stretch with
    | gap =>
      cases hown
      exact .blanks (fun d hd => isBlank_of_isGap (htakes d hd)) hcover
    | comment =>
      obtain rfl : own = [] := List.map_eq_nil_iff.mp (Stretch.tokens_words hown)
      obtain ⟨body, hbody, hinside, hend⟩ := htakes
      rw [hbody] at hcover ⊢
      exact .comment hinside hend hcover
    | token kind text =>
      obtain ⟨span, hspan, rfl⟩ := Stretch.tokens_token hown
      exact .token (hat.place _ (Text.byteLength_lt_of_append hsize) hspan) (htakes _) hcover

theorem scan_gaps {c : Char} (hc : isGap c = true) (line column offset : Nat) (cs : List Char) :
    scan line column offset (c :: cs) =
      scan line (column + (cs.takeWhile isGap).length + 1)
        (offset + Text.byteLength (c :: cs.takeWhile isGap)) (cs.dropWhile isGap) := by
  rw [scan, munch_gap hc]
  dsimp only [Stretch.tokens]
  rw [take_takeWhile, drop_takeWhile]
  split <;> rename_i hscan <;> rw [hscan]
  rfl

theorem scan_gap {c : Char} (hc : isGap c = true) (line column offset : Nat) (cs : List Char) :
    scan line column offset (c :: cs) = scan line (column + 1) (offset + c.utf8Size) cs := by
  rw [scan_gaps hc]
  cases cs with
  | nil => rfl
  | cons d cs =>
    cases hd : isGap d with
    | true =>
      rw [scan_gaps hd, List.takeWhile_cons_of_pos hd, List.dropWhile_cons_of_pos hd]
      simp only [List.length_cons, Text.byteLength_cons]
      congr 1 <;> omega
    | false =>
      rw [List.takeWhile_cons_of_neg (by simp [hd]), List.dropWhile_cons_of_neg (by simp [hd])]
      rfl

theorem scan_gapRun {front : List Char} (hfront : ∀ c ∈ front, isGap c = true)
    (line column offset : Nat) (cs : List Char) :
    scan line column offset (front ++ cs) =
      scan line (column + front.length) (offset + Text.byteLength front) cs := by
  induction front generalizing column offset with
  | nil => rfl
  | cons d front ih =>
    rw [List.cons_append, scan_gap (hfront d List.mem_cons_self),
      ih fun e he => hfront e (List.mem_cons_of_mem _ he), List.length_cons, Text.byteLength_cons]
    congr 1 <;> omega

end Line

/-- A fault names where in the text it shows.  A width that no open block has shows where the
indentation of its line ends. -/
def ScanFault.Shows (fault : ScanFault) (text : List Char) : Prop :=
  match fault.cause with
  | .unexpectedCharacter c => ∃ before after,
      text = before ++ c :: after ∧ fault.place = .after before [c]
  | .unterminatedString => ∃ before q rest after,
      text = before ++ (q :: rest ++ after) ∧ Line.isQuote q = true ∧ '\n' ∉ rest ∧
        (∀ c ∈ after.head?, c = '\n') ∧ fault.place = .after before (q :: rest)
  | .indentMismatch _ found => ∃ before after,
      text = before ++ after ∧ fault.place = { Place.after before [] with column := 1 } ∧
        (∀ c ∈ Text.lastLine before, Layout.isIndent c = true) ∧
        (∀ c ∈ after.head?, Layout.isIndent c = false) ∧
        found = Layout.measure (Text.lastLine before)

namespace Line

open Place (At)

theorem scan_shows {before cs after : List Char} {line column offset : Nat} {fault : ScanFault}
    (h : scan line column offset cs = .error (.fault fault)) (hat : At before line column offset)
    (hbreak : '\n' ∉ cs) (hafter : ∀ c ∈ after.head?, c = '\n')
    (hsize : Text.byteLength (before ++ cs) < Span.limit) :
    fault.Shows (before ++ (cs ++ after)) := by
  fun_induction scan line column offset cs generalizing before fault with
  | case1 => cases h
  | case2 =>
    rename_i column offset c cs hmunch
    have hfault := Except.error.inj h
    have hrest : '\n' ∉ cs := fun hmem => hbreak (List.mem_cons_of_mem _ hmem)
    unfold Line.fault at hfault
    cases hquote : isQuote c with
    | true =>
      simp only [hquote, if_true, hat.between _ hsize] at hfault
      cases hfault
      exact ⟨before, c, cs, after, rfl, hquote, hrest, hafter, hat.eq_after _⟩
    | false =>
      have hone : c.utf8Size = Text.byteLength [c] := (Nat.add_zero _).symm
      have hbound : Text.byteLength (before ++ [c]) < Span.limit :=
        Text.byteLength_lt_of_append (by simpa using hsize)
      simp only [hquote, Bool.false_eq_true, if_false, hone, hat.between _ hbound] at hfault
      cases hfault
      exact ⟨before, cs ++ after, rfl, hat.eq_after _⟩
  | case3 =>
    rename_i hown
    cases h
    cases Stretch.tokens_crash hown
  | case4 =>
    rename_i column offset c cs stretch more hmunch stop own hown halt hscan ih
    cases h
    obtain ⟨hsplit, hrest, hnext⟩ := munch_step hmunch hat hbreak
    rw [hsplit] at hsize ⊢
    rw [← List.append_assoc] at hsize
    have hshows := ih hscan hnext hrest hsize
    rwa [List.append_assoc, ← List.append_assoc (_ :: _)] at hshows
  | case5 => cases h

end Line

namespace Token

open Place (At)

theorem cover_blankLine {before cs : List Char} (h : isBlankLine cs = true) (hbreak : '\n' ∉ cs) :
    Cover before cs [] := by
  have hsplit := List.takeWhile_append_dropWhile (p := Text.isBlank) (l := cs)
  rw [← hsplit]
  refine .blanks (fun c hc => List.mem_takeWhile_imp hc) ?_
  unfold isBlankLine Text.dropBlanks at h
  split at h
  · rename_i hempty
    rw [hempty]
    exact .done _
  · rename_i c rest hrest
    obtain rfl := beq_iff_eq.mp h
    rw [hrest] at hsplit ⊢
    rw [← hsplit] at hbreak
    have hbody : '\n' ∉ rest := fun hmem => hbreak (by simp [hmem])
    have hcover := Cover.comment hbody (by simp)
      (.done (before ++ cs.takeWhile Text.isBlank ++ '#' :: rest))
    rwa [List.append_nil] at hcover

theorem indent_split (cs : List Char) : ∃ content, cs = cs.takeWhile Layout.isIndent ++ content ∧
    (∀ c ∈ content.head?, Layout.isIndent c = false) ∧
    Text.byteLength (cs.takeWhile Layout.isIndent) = (cs.takeWhile Layout.isIndent).length := by
  refine ⟨cs.dropWhile Layout.isIndent, List.takeWhile_append_dropWhile.symm,
    fun c hc => Line.head?_dropWhile hc, ?_⟩
  have hindent : ∀ c ∈ cs.takeWhile Layout.isIndent, Layout.isIndent c = true :=
    fun c hc => List.mem_takeWhile_imp hc
  generalize cs.takeWhile Layout.isIndent = indent at hindent
  induction indent with
  | nil => rfl
  | cons c indent ih =>
    have hc : c = ' ' ∨ c = '\t' := by
      simpa [Layout.isIndent] using hindent c List.mem_cons_self
    have hsize : c.utf8Size = 1 := by rcases hc with rfl | rfl <;> rfl
    rw [Text.byteLength_cons, hsize, ih fun d hd => hindent d (List.mem_cons_of_mem _ hd),
      List.length_cons, Nat.add_comm]

theorem shift_marks {place : Place} {width : Nat} {shift : Layout.Shift} {marks : List Token}
    (h : shift.tokens place width = .ok marks) :
    ∀ mark ∈ marks, mark.toPlace = place ∧ mark.IsWritten [] := by
  cases shift with
  | opens =>
    cases h
    simp [IsWritten]
  | closes count =>
    cases h
    intro mark hmark
    obtain rfl := List.eq_of_mem_replicate hmark
    exact ⟨rfl, rfl⟩
  | mismatch expected => cases h

theorem shift_fault {place : Place} {width : Nat} {shift : Layout.Shift} {fault : ScanFault}
    (h : shift.tokens place width = .error fault) :
    ∃ expected, fault = ⟨.indentMismatch expected width, { place with column := 1 }⟩ := by
  cases shift with
  | opens => cases h
  | closes count => cases h
  | mismatch expected =>
    cases h
    exact ⟨expected, rfl⟩

section Lines

variable {layout : Layout} {before cs : List Char} {line offset : Nat}

theorem indent_place (hat : At before line 1 offset) (hbreak : '\n' ∉ cs)
    (hsize : Text.byteLength (before ++ cs) < Span.limit) :
    (⟨line, (cs.takeWhile Layout.isIndent).length + 1,
        Span.point (offset + (cs.takeWhile Layout.isIndent).length)⟩ : Place) =
      .after (before ++ cs.takeWhile Layout.isIndent) [] := by
  obtain ⟨content, hsplit, -, hbytes⟩ := indent_split cs
  have hindent : '\n' ∉ cs.takeWhile Layout.isIndent := fun hmem => by
    rw [hsplit] at hbreak
    exact hbreak (List.mem_append_left _ hmem)
  have hplace := (hat.append hindent).point (by
    rw [Text.byteLength_append]
    rw [hsplit, Text.byteLength_append, Text.byteLength_append] at hsize
    omega)
  rw [hbytes, Nat.add_comm 1] at hplace
  exact hplace

theorem ofLine_covers {tokens : List Token} {moved : Layout}
    (h : ofLine layout line offset cs = .ok (tokens, moved)) (hat : At before line 1 offset)
    (hbreak : '\n' ∉ cs) (hsize : Text.byteLength (before ++ cs) < Span.limit) :
    Cover before cs tokens := by
  cases hblank : isBlankLine cs with
  | true =>
    rw [ofLine, if_pos hblank] at h
    cases h
    exact cover_blankLine hblank hbreak
  | false =>
  cases hmove : layout.moveTo (Layout.measure (cs.takeWhile Layout.isIndent)) with
  | mk shift next =>
  rw [ofLine_eq line offset hblank hmove] at h
  split at h
  · cases h
  rename_i marks hmarks
  obtain ⟨lineTokens, hscan, hread⟩ := exists_of_map_eq_ok h
  cases hread
  rw [indent_place hat hbreak hsize] at hmarks
  obtain ⟨content, hsplit, -⟩ := indent_split cs
  have hindent : ∀ c ∈ cs.takeWhile Layout.isIndent, Line.isGap c = true :=
    fun c hc => Line.isGap_of_isIndent (List.mem_takeWhile_imp hc)
  generalize cs.takeWhile Layout.isIndent = indent at *
  subst hsplit
  rw [List.mem_append, not_or] at hbreak
  rw [← List.append_assoc] at hsize
  rw [Line.scan_gapRun hindent] at hscan
  have hcontent := hat.append hbreak.1
  have hcover := Line.scan_covers hscan hcontent hbreak.2 hsize
  exact .blanks (fun c hc => Line.isBlank_of_isGap (hindent c hc))
    (hcover.unwritten (shift_marks hmarks))

theorem ofLine_shows {after : List Char} {fault : ScanFault}
    (h : ofLine layout line offset cs = .error (.fault fault)) (hat : At before line 1 offset)
    (hbreak : '\n' ∉ cs) (hafter : ∀ c ∈ after.head?, c = '\n')
    (hsize : Text.byteLength (before ++ cs) < Span.limit) :
    fault.Shows (before ++ (cs ++ after)) := by
  cases hblank : isBlankLine cs with
  | true =>
    rw [ofLine, if_pos hblank] at h
    cases h
  | false =>
  cases hmove : layout.moveTo (Layout.measure (cs.takeWhile Layout.isIndent)) with
  | mk shift next =>
  rw [ofLine_eq line offset hblank hmove] at h
  split at h
  · rename_i hmarks
    cases h
    rw [indent_place hat hbreak hsize] at hmarks
    obtain ⟨expected, rfl⟩ := shift_fault hmarks
    obtain ⟨content, hsplit, hcontent, -⟩ := indent_split cs
    have hindent : '\n' ∉ cs.takeWhile Layout.isIndent := fun hmem => by
      rw [hsplit] at hbreak
      exact hbreak (List.mem_append_left _ hmem)
    have hlast : Text.lastLine (before ++ cs.takeWhile Layout.isIndent) =
        cs.takeWhile Layout.isIndent := by
      have hfresh : Text.lastLine before = [] :=
        List.length_eq_zero_iff.mp (Nat.succ.inj hat.column).symm
      rw [Text.lastLine_append hindent, hfresh, List.nil_append]
    refine ⟨before ++ cs.takeWhile Layout.isIndent, content ++ after, ?_, rfl, ?_, ?_, ?_⟩
    · conv_lhs => rw [hsplit]
      simp
    · rw [hlast]
      exact fun c hc => List.mem_takeWhile_imp hc
    · intro c hc
      cases content with
      | nil =>
        rw [hafter c hc]
        rfl
      | cons d content => exact hcontent c hc
    · rw [hlast]
  · exact Line.scan_shows (eq_error_of_map h) hat hbreak hafter hsize

theorem cover_closing (moved : Layout) (before : List Char) :
    Cover before [] (closing moved (.after before [])) := by
  have hcover := @Cover.unwritten before [] (closing moved (.after before [])) []
  rw [List.append_nil] at hcover
  refine hcover (fun mark hmark => ?_) (.done before)
  rw [closing_eq] at hmark
  rcases List.mem_append.mp hmark with hdedent | hlast
  · obtain rfl := List.eq_of_mem_replicate hdedent
    exact ⟨rfl, rfl⟩
  · obtain rfl := List.mem_singleton.mp hlast
    exact ⟨rfl, rfl⟩

/-- The lines of a text that go on after `before`, with the breaks between them. -/
theorem ofLines_covers {later : List (List Char)} {tokens : List Token}
    (h : ofLines layout line offset cs later = .ok tokens) (hat : At before line 1 offset)
    (hbreak : ∀ piece ∈ cs :: later, '\n' ∉ piece)
    (hsize : Text.byteLength (before ++ cs ++ later.flatMap ('\n' :: ·)) < Span.limit) :
    Cover before (cs ++ later.flatMap ('\n' :: ·)) tokens := by
  induction later generalizing layout before line offset cs tokens with
  | nil =>
    obtain ⟨own, moved, hline, rfl⟩ := ofLines_cases h
    have hown := hbreak cs List.mem_cons_self
    rw [List.flatMap_nil, List.append_nil] at hsize
    have hclosing := cover_closing moved (before ++ cs)
    rw [← (hat.lineEnd hown).point hsize] at hclosing
    exact (ofLine_covers hline hat hown hsize).append (by simp) hclosing
  | cons next later ih =>
    obtain ⟨own, moved, hline, span, hspan, rest, hrest, rfl⟩ := ofLines_cases h
    have hown := hbreak cs List.mem_cons_self
    rw [List.flatMap_cons, List.cons_append, List.append_cons (before ++ cs),
      ← List.append_assoc] at hsize
    have hbroken := Text.byteLength_lt_of_append (Text.byteLength_lt_of_append hsize)
    have hlater := ih hrest (hat.lineEnd hown).lineBreak
      (fun piece hpiece => hbreak piece (List.mem_cons_of_mem _ hpiece)) hsize
    have hnewline := @Cover.token _ _ _ ⟨_, .newline, "\n"⟩ _
      ((hat.lineEnd hown).place ['\n'] hbroken hspan) rfl hlater
    exact (ofLine_covers hline hat hown (Text.byteLength_lt_of_append hbroken)).append (by simp)
      hnewline

theorem ofLines_shows {later : List (List Char)} {fault : ScanFault}
    (h : ofLines layout line offset cs later = .error (.fault fault))
    (hat : At before line 1 offset)
    (hbreak : ∀ piece ∈ cs :: later, '\n' ∉ piece)
    (hsize : Text.byteLength (before ++ cs ++ later.flatMap ('\n' :: ·)) < Span.limit) :
    fault.Shows (before ++ (cs ++ later.flatMap ('\n' :: ·))) := by
  induction later generalizing layout before line offset cs fault with
  | nil =>
    simp only [ofLines, bind, Except.bind] at h
    split at h
    · rename_i hline
      cases h
      exact ofLine_shows hline hat (hbreak cs List.mem_cons_self) (by simp)
        (Text.byteLength_lt_of_append hsize)
    · cases h
  | cons next later ih =>
    simp only [ofLines, bind, Except.bind] at h
    split at h
    · rename_i hline
      cases h
      exact ofLine_shows hline hat (hbreak cs List.mem_cons_self) (by simp)
        (Text.byteLength_lt_of_append hsize)
    rw [List.flatMap_cons, List.cons_append, List.append_cons (before ++ cs),
      ← List.append_assoc] at hsize
    have hend := hat.lineEnd (hbreak cs List.mem_cons_self)
    have hspan := @At.between _ _ _ _ ScanFault ['\n'] hend
      (Text.byteLength_lt_of_append (Text.byteLength_lt_of_append hsize))
    have hone : Text.byteLength ['\n'] = 1 := rfl
    rw [hone] at hspan
    rw [hspan] at h
    dsimp only at h
    split at h
    · rename_i hrest
      cases h
      have hshows := ih hrest hend.lineBreak
        (fun piece hpiece => hbreak piece (List.mem_cons_of_mem _ hpiece)) hsize
      simpa using hshows
    · cases h

end Lines

theorem at_start : At [] 1 1 0 :=
  ⟨rfl, rfl, rfl⟩

theorem ofSource_covers {source : String} {tokens : List Token}
    (h : ofSource source = .ok tokens) (hsize : source.utf8ByteSize < Span.limit) :
    Cover [] source.toList tokens := by
  have hcover := ofLines_covers h at_start (Text.newline_notMem_cut source.toList) (by
    rwa [List.nil_append, Text.cut_flatMap, Text.byteLength_toList])
  rwa [Text.cut_flatMap] at hcover

theorem ofSource_shows {source : String} {fault : ScanFault}
    (h : ofSource source = .error (.fault fault)) (hsize : source.utf8ByteSize < Span.limit) :
    fault.Shows source.toList := by
  have hshows := ofLines_shows h at_start (Text.newline_notMem_cut source.toList) (by
    rwa [List.nil_append, Text.cut_flatMap, Text.byteLength_toList])
  rwa [List.nil_append, Text.cut_flatMap] at hshows

end Token

end Splice
