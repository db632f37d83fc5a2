import Splice.Proofs.Compile.Concatenation
import Splice.Proofs.Token.Unplaced

/-! Line breaks that count.  Of several line breaks in a row one counts, and none does in front of
the dedents and the end of input that close a text.  Two texts with the same words but for breaks
that do not count are the same program. -/
namespace Splice

open Splice.Parser
open Spelling (dedents)

namespace Word

variable {w : Word} {ws : List Word}

def closes (w : Word) : Bool :=
  w.1 == .dedent || w.1 == .endOfInput

def startsLine (ws : List Word) : Bool :=
  ws.head?.all (·.1 != .newline) && !ws.all closes

/-- A word in front of others, unless it is a line break that does not count. -/
def push (w : Word) (rest : List Word) : List Word :=
  if w.1 == .newline && !startsLine rest then rest else w :: rest

def squeeze (ws : List Word) : List Word :=
  ws.foldr push []

theorem squeeze_word (h : w.1 ≠ .newline) (ws : List Word) :
    squeeze (w :: ws) = w :: squeeze ws := by
  change push w (squeeze ws) = _
  simp [push, h]

theorem squeeze_newline (h : w.1 = .newline) (ws : List Word) :
    squeeze (w :: ws) = if startsLine (squeeze ws) then w :: squeeze ws else squeeze ws := by
  change push w (squeeze ws) = _
  cases hstarts : startsLine (squeeze ws) <;> simp [push, h, hstarts]

theorem squeeze_append (us vs : List Word) : squeeze (us ++ vs) = us.foldr push (squeeze vs) :=
  List.foldr_append

theorem squeeze_newlines (ws : List Word) :
    squeeze (Kind.newline.word :: Kind.newline.word :: ws) =
      squeeze (Kind.newline.word :: ws) := by
  have hinner := @squeeze_newline Kind.newline.word rfl ws
  rw [@squeeze_newline Kind.newline.word rfl (_ :: ws)]
  cases hstarts : startsLine (squeeze ws) with
  | true =>
    rw [hstarts, if_pos rfl] at hinner
    rw [hinner, if_neg (by simp [startsLine, Kind.word])]
  | false =>
    rw [hstarts, if_neg Bool.false_ne_true] at hinner
    rw [hinner, hstarts, if_neg Bool.false_ne_true]

theorem ends_of_not_startsLine (h : startsLine ws = false) :
    ∀ w ∈ ws.head?, w.1.endsStatement = true := by
  intro w hw
  obtain ⟨later, rfl⟩ := List.head?_eq_some_iff.mp hw
  simp only [startsLine, List.head?_cons, Option.all_some, List.all_cons, Bool.and_eq_false_iff,
    bne_eq_false_iff_eq, Bool.not_eq_false', Bool.and_eq_true, closes, Bool.or_eq_true,
    beq_iff_eq] at h
  rcases h with hnewline | ⟨hdedent | hend, -⟩
  · rw [hnewline]
    rfl
  · rw [hdedent]
    rfl
  · rw [hend]
    rfl

theorem ends_of_newline (h : w.1 = .newline) :
    ∀ v ∈ (squeeze (w :: ws)).head?, v.1.endsStatement = true := by
  intro v hv
  rw [squeeze_newline h] at hv
  cases hstarts : startsLine (squeeze ws) with
  | true =>
    rw [hstarts, if_pos rfl] at hv
    cases hv
    rw [h]
    rfl
  | false =>
    rw [hstarts, if_neg Bool.false_ne_true] at hv
    exact ends_of_not_startsLine hstarts v hv

theorem dropWhile_squeeze (ws : List Word) :
    squeeze (ws.dropWhile (·.1 = .newline)) = (squeeze ws).dropWhile (·.1 = .newline) := by
  induction ws with
  | nil => rfl
  | cons w ws ih =>
    by_cases h : w.1 = .newline
    · rw [List.dropWhile_cons_of_pos (by simpa using h), ih, squeeze_newline h]
      split
      · rw [List.dropWhile_cons_of_pos (by simpa using h)]
      · rfl
    · rw [List.dropWhile_cons_of_neg (by simpa using h), squeeze_word h,
        List.dropWhile_cons_of_neg (by simpa using h)]

theorem squeeze_closing (count : Nat) :
    squeeze (Kind.newline.word :: (dedents count ++ [Kind.endOfInput.word])) =
      squeeze (dedents count ++ [Kind.endOfInput.word]) := by
  have hsame : squeeze (dedents count ++ [Kind.endOfInput.word]) =
      dedents count ++ [Kind.endOfInput.word] := by
    induction count with
    | zero => rfl
    | succ count ih => exact (squeeze_word (by simp [Kind.word]) _).trans (congrArg _ ih)
  have hcloses : (dedents count ++ [Kind.endOfInput.word]).all closes = true := by
    simp [dedents, closes, Kind.word]
  rw [squeeze_newline rfl, if_neg]
  rw [hsame, startsLine, hcloses, Bool.not_true, Bool.and_false]
  exact Bool.false_ne_true

end Word

open Word (squeeze)

namespace Cursor

variable {c d : Cursor} {n : Nat}

def Tidy (c : Cursor) : Prop :=
  (c.before.head?.toList ++ c.here :: c.after).IsChain
    fun token next => token.kind = .dedent → next.kind ≠ .newline

theorem Tidy.ne_newline (h : c.Tidy) (hafter : c.AfterDedent) : c.kind ≠ .newline := by
  obtain ⟨last, hlast, hkind⟩ := Option.map_eq_some_iff.mp hafter
  unfold Tidy at h
  rw [hlast] at h
  exact (List.isChain_cons_cons.mp h).1 hkind

theorem Tidy.advance (h : c.Tidy) : c.advance.Tidy := by
  rcases c.advance_cases with hstay | ⟨next, later, hafter, hmove⟩
  · rw [hstay]
    exact h
  · unfold Tidy at h ⊢
    rw [hmove]
    rw [hafter] at h
    exact h.right_of_append

theorem Tidy.skipNewlines (h : c.Tidy) : c.skipNewlines.Tidy :=
  skipNewlines_induction (fun _ _ => Tidy.advance) h

theorem kind_skipNewlines (h : c.Ended) : c.skipNewlines.kind ≠ .newline := by
  have hhead := List.head?_dropWhile_not (fun w : Word => decide (w.1 = .newline)) c.words
  rw [← words_skipNewlines h] at hhead
  exact of_decide_eq_false hhead

theorem squeeze_words (h : c.kind ≠ .newline) :
    squeeze c.words = c.here.word :: squeeze (c.after.map Token.word) :=
  Word.squeeze_word h _

/-- Two cursors that see the same words but for line breaks that do not count. -/
structure Even (n : Nat) (c d : Cursor) : Prop extends InStep n c d where
  squeezed : squeeze c.words = squeeze d.words
  tidy : c.Tidy ∧ d.Tidy

namespace Even

theorem word_eq (h : Even n c d) (hc : c.kind ≠ .newline) (hd : d.kind ≠ .newline) :
    d.here.word = c.here.word := by
  have hsqueezed := h.squeezed
  rw [squeeze_words hc, squeeze_words hd] at hsqueezed
  exact (List.cons.inj hsqueezed).1.symm

/-- At a line break the words that count go on with the end of a statement. -/
theorem ends_of_newline (h : squeeze c.words = squeeze d.words) (hc : c.kind ≠ .newline)
    (hd : d.kind = .newline) : c.kind.endsStatement = true := by
  rw [squeeze_words hc] at h
  exact @Word.ends_of_newline d.here.word (d.after.map Token.word) hd c.here.word
    (by change _ ∈ (squeeze d.words).head?; rw [← h]; rfl)

theorem ends (h : Even n c d) (hends : c.kind.endsStatement = true) :
    d.kind.endsStatement = true := by
  by_cases hd : d.kind = .newline
  · rw [hd]
    rfl
  · by_cases hc : c.kind = .newline
    · exact ends_of_newline h.squeezed.symm hd hc
    · rw [show d.kind = c.kind from congrArg Prod.fst (h.word_eq hc hd)]
      exact hends

theorem within (h : Even n c d) (m : Nat) : Even m (c.within m) (d.within m) :=
  ⟨⟨h.ended, ⟨rfl, rfl⟩, h.afterDedent⟩, h.squeezed, h.tidy⟩

theorem advance (h : Even n c d) (hkind : d.kind = c.kind) (hnewline : c.kind ≠ .newline)
    (hend : c.kind ≠ .endOfInput) : Even n c.advance d.advance := by
  refine ⟨h.toInStep.advance hkind hend, ?_, h.tidy.1.advance, h.tidy.2.advance⟩
  have hsqueezed := h.squeezed
  rw [words_advance h.ended.1 hend, words_advance h.ended.2 (hkind ▸ hend),
    Word.squeeze_word hnewline,
    Word.squeeze_word (show d.kind ≠ .newline from hkind ▸ hnewline)] at hsqueezed
  exact (List.cons.inj hsqueezed).2

/-- The first run stands directly behind a dedent only where it has no line break to move past,
and then the second run has none either. -/
theorem skipNewlines (h : Even n c d) : Even n c.skipNewlines d.skipNewlines where
  ended := ⟨h.ended.1.skipNewlines.1, h.ended.2.skipNewlines.1⟩
  nesting := by
    rw [nesting_skipNewlines, nesting_skipNewlines]
    exact h.nesting
  afterDedent := by
    by_cases hc : c.kind = .newline
    · rw [← skipNewlines_advance hc]
      intro hafter
      exact absurd hafter (not_afterDedent_skipNewlines h.ended.1.advance
        (not_afterDedent_of_newline h.ended.1 hc))
    · rw [skipNewlines_eq_self hc]
      intro hafter
      have hd := h.afterDedent hafter
      rw [skipNewlines_eq_self (h.tidy.2.ne_newline hd)]
      exact hd
  squeezed := by
    rw [words_skipNewlines h.ended.1, words_skipNewlines h.ended.2, Word.dropWhile_squeeze,
      Word.dropWhile_squeeze, h.squeezed]
  tidy := ⟨h.tidy.1.skipNewlines, h.tidy.2.skipNewlines⟩

theorem word_skipNewlines (h : Even n c d) : d.skipNewlines.here.word = c.skipNewlines.here.word :=
  h.skipNewlines.word_eq (kind_skipNewlines h.ended.1) (kind_skipNewlines h.ended.2)

theorem newline_of_newline (h : Even n c d) (hc : c.kind = .newline)
    (hnext : c.skipNewlines.kind.endsStatement = false) : d.kind = .newline := by
  by_contra hd
  have hends := ends_of_newline h.squeezed.symm hd hc
  have hsame : d.kind = c.skipNewlines.kind := by
    rw [← skipNewlines_eq_self hd]
    exact congrArg Prod.fst h.word_skipNewlines
  rw [hsame, hnext] at hends
  cases hends

theorem word_of_inside (h : Even n c d) (hends : c.kind.endsStatement = false) :
    d.here.word = c.here.word := by
  have hc : c.kind ≠ .newline := by
    intro hc
    rw [hc] at hends
    cases hends
  apply h.word_eq hc
  intro hd
  rw [ends_of_newline h.squeezed hc hd] at hends
  cases hends

theorem no_otherwise (h : Even n c d) (hend : c.skipNewlines.kind = .endOfInput) :
    d.skipNewlines.kind ≠ .keyword .otherwise := by
  intro hother
  have hkind : d.skipNewlines.kind = c.skipNewlines.kind := congrArg Prod.fst h.word_skipNewlines
  rw [hother, hend] at hkind
  cases hkind

theorem paired_block (h : Even n c d) (hbreak : c.kind = .newline)
    (hindent : c.advance.skipNewlines.kind = .indent) :
    d.kind = .newline ∧ Even n c.advance.skipNewlines d.advance.skipNewlines := by
  rw [skipNewlines_advance hbreak] at hindent ⊢
  have hd := h.newline_of_newline hbreak (by rw [hindent]; rfl)
  rw [skipNewlines_advance hd]
  exact ⟨hd, h.skipNewlines⟩

def simulation : Simulation where
  Reached c := c.Ended ∧ c.Tidy
  Paired := Even
  ended := And.left
  reached_advance h := ⟨h.1.advance, h.2.advance⟩
  reached h := ⟨h.ended.1, h.tidy.1⟩
  nesting_eq h := h.nesting
  paired_within m h := h.within m
  word_eq := word_of_inside
  ends h hends := .inl (h.ends hends)
  afterDedent h := h.afterDedent
  paired_advance := Even.advance
  paired_skip h _ := ⟨h.skipNewlines, h.word_skipNewlines⟩
  no_otherwise := Even.no_otherwise
  paired_block := Even.paired_block

end Even

theorem tidy_ofTokens {source : String} {tokens : List Token}
    (h : Token.ofSource source = .ok tokens) : (ofTokens tokens).Tidy := by
  obtain ⟨body, count, hkinds, hchain, -⟩ := (Token.ofLines_kinds h).ending
  have hclosing : ∀ k ∈ Kind.closing count, k ≠ .newline := by
    rintro k hk rfl
    simp [Kind.closing] at hk
  have hall : (tokens.map (·.kind)).IsChain fun k next => k = .dedent → next ≠ .newline := by
    rw [hkinds]
    apply List.IsChain.append
    · exact hchain.tail.imp fun k next hleads hk => (hleads.afterDedent hk).1
    · apply List.Pairwise.isChain
      exact List.pairwise_of_forall_mem_list fun _ _ next hnext _ => hclosing next hnext
    · exact fun _ _ next hnext _ => hclosing next (List.mem_of_mem_head? hnext)
  unfold Tidy
  rw [before_ofTokens, here_cons_after_ofTokens (Token.ofSource_sound h)]
  exact (List.isChain_map _).mp hall

end Cursor

/-- The words of a text, with the line breaks that count after an unseen first one. -/
def Token.gist (source : String) : Option (List Word) :=
  (textWords source.toList).toOption.map fun ws => squeeze (Kind.newline.word :: ws)

theorem Token.gist_of_ofSource {source : String} {tokens : List Token}
    (h : ofSource source = .ok tokens) :
    gist source = some (squeeze (Kind.newline.word :: tokens.map Token.word)) := by
  rw [gist, words_of_ofSource h]
  rfl

theorem Token.exists_of_gist {source : String} {ws : List Word}
    (hsafe : ofSource source ≠ .error .crash) (h : gist source = some ws) :
    ∃ tokens, ofSource source = .ok tokens ∧
      squeeze (Kind.newline.word :: tokens.map Token.word) = ws := by
  unfold gist at h
  cases hwords : textWords source.toList with
  | error reason =>
    rw [hwords] at h
    cases h
  | ok us =>
    rw [hwords] at h
    obtain ⟨tokens, htokens, rfl⟩ := exists_tokens hsafe hwords
    exact ⟨tokens, htokens, Option.some.inj h⟩

/-- Behind the line breaks in front, cursors at the start of two texts see the same words. -/
theorem Cursor.even_ofTokens {source other : String} {tokens others : List Token}
    (hsource : Token.ofSource source = .ok tokens) (hother : Token.ofSource other = .ok others)
    (h : squeeze (Kind.newline.word :: tokens.map Token.word) =
      squeeze (Kind.newline.word :: others.map Token.word)) :
    Even 0 (ofTokens tokens).skipNewlines (ofTokens others).skipNewlines where
  ended := ⟨(ended_ofTokens tokens).skipNewlines.1, (ended_ofTokens others).skipNewlines.1⟩
  nesting := by
    rw [nesting_skipNewlines, nesting_skipNewlines, nesting_ofTokens, nesting_ofTokens]
    exact ⟨rfl, rfl⟩
  afterDedent hafter := absurd hafter
    (not_afterDedent_skipNewlines (ended_ofTokens tokens) (not_afterDedent_ofTokens tokens))
  squeezed := by
    have hdrop := congrArg (List.dropWhile fun w : Word => decide (w.1 = .newline)) h
    rw [← Word.dropWhile_squeeze, ← Word.dropWhile_squeeze, List.dropWhile_cons_of_pos rfl,
      List.dropWhile_cons_of_pos rfl] at hdrop
    rw [words_skipNewlines (ended_ofTokens tokens), words_skipNewlines (ended_ofTokens others),
      words_ofTokens (Token.ofSource_sound hsource), words_ofTokens (Token.ofSource_sound hother)]
    exact hdrop
  tidy := ⟨(tidy_ofTokens hsource).skipNewlines, (tidy_ofTokens hother).skipNewlines⟩

theorem Program.ofTokens_even {tokens others : List Token} {program : Program}
    (h : Cursor.Even 0 (Cursor.ofTokens tokens).skipNewlines (Cursor.ofTokens others).skipNewlines)
    (hparse : Program.ofTokens tokens = .ok program) : Program.ofTokens others = .ok program := by
  obtain ⟨fuel, hfuel⟩ : ∃ fuel, fuel =
    boundFor (Cursor.ofTokens tokens) + boundFor (Cursor.ofTokens others) := ⟨_, rfl⟩
  obtain ⟨c', hrun⟩ := (Program.ofTokens_eq_ok (by omega : _ ≤ fuel + 1)).mp hparse
  apply (Program.ofTokens_eq_ok (by omega : _ ≤ fuel + 1)).mpr
  rw [← statements_skipNewlines (Cursor.kind_skipNewlines (Cursor.ended_ofTokens _))] at hrun ⊢
  obtain ⟨c₀, d₀, rest, heven, hend, -, hgo⟩ := Cursor.Even.simulation.statements_goes_on h hrun
  have hdone : d₀.skipNewlines.kind = .endOfInput := by
    rw [← hend]
    exact congrArg Prod.fst heven.word_skipNewlines
  refine ⟨d₀.skipNewlines, ?_⟩
  rw [hgo [] _ (statements_of_end hdone), List.append_nil]

/-- Texts with the same gist that do not crash are the same program, or both are none. -/
theorem compile_of_gist {source other : String} (hsource : Token.ofSource source ≠ .error .crash)
    (hother : Token.ofSource other ≠ .error .crash) (h : Token.gist source = Token.gist other)
    (program : Program) : compile source = .ok program ↔ compile other = .ok program := by
  have hforward {source other : String} (hother : Token.ofSource other ≠ .error .crash)
      (h : Token.gist source = Token.gist other) (hcompile : compile source = .ok program) :
      compile other = .ok program := by
    obtain ⟨tokens, htokens, hparse⟩ := compile_eq_ok.mp hcompile
    have hgist := Token.gist_of_ofSource htokens
    rw [h] at hgist
    obtain ⟨others, hothers, hsqueeze⟩ := Token.exists_of_gist hother hgist
    have heven := Cursor.even_ofTokens htokens hothers hsqueeze.symm
    exact compile_eq_ok.mpr ⟨others, hothers, Program.ofTokens_even heven hparse⟩
  exact ⟨hforward hother h, hforward hsource h.symm⟩

end Splice
