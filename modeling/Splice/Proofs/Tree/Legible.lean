import Splice.Proofs.Token.Exact
import Splice.Proofs.Tree.Moves

/-! Cursors over the words of a text.  Wherever a parser stands, the words from there on are spelled
as their kinds ask, no block ends where it starts, and the end of input comes last. -/
namespace Splice

namespace Token

theorem Sound.suffix {tokens rest : List Token} (h : Sound tokens) (hsuffix : rest <:+ tokens)
    (hne : rest ≠ []) : Sound rest := by
  obtain ⟨first, rfl⟩ := hsuffix
  have hlast : (first ++ rest).getLast? = rest.getLast? := List.getLast?_append_of_ne_nil _ hne
  refine ⟨⟨?_, h.indented.right_of_append, ?_⟩, ?_⟩
  · exact fun token htoken => h.spelled token (List.mem_append_right _ htoken)
  · rw [← hlast]
    exact h.settled
  · rw [← hlast]
    exact h.ended

end Token

namespace Cursor

variable {c d : Cursor} {n : Nat}

def words (c : Cursor) : List Word :=
  (c.here :: c.after).map Token.word

theorem kind_of_words {w : Word} {ws : List Word} (h : c.words = w :: ws) : c.kind = w.1 :=
  congrArg Prod.fst (List.cons.inj h).1

theorem kind_congr (h : c.words = d.words) : c.kind = d.kind :=
  kind_of_words h

theorem words_advance (h : c.Ended) (hkind : c.kind ≠ .endOfInput) :
    c.words = c.here.word :: c.advance.words := by
  obtain ⟨next, later, hafter⟩ := h.exists_after hkind
  rw [advance_of_not_atEnd hkind hafter]
  unfold words
  rw [hafter]
  rfl

/-- From the cursor on, the tokens are those of a text. -/
structure Legible (c : Cursor) : Prop where
  sound : Token.Sound (c.here :: c.after)
  words : Word.Legible c.words

namespace Legible

theorem ended (h : c.Legible) : c.Ended := by
  have hlast := h.sound.ended
  rw [List.getLast?_eq_some_getLast (List.cons_ne_nil _ _)] at hlast
  exact Option.some.inj hlast

theorem isSpelled (h : c.Legible) : c.here.word.isSpelled = true :=
  h.sound.spelled c.here List.mem_cons_self

theorem isExact (h : c.Legible) (hend : c.kind ≠ .endOfInput) : c.here.word.isExact = true := by
  have hwords := h.words
  rw [words_advance h.ended hend] at hwords
  exact (hwords.tail hend).1

theorem advance (h : c.Legible) : c.advance.Legible := by
  by_cases hkind : c.kind = .endOfInput
  · rw [advance_of_atEnd hkind]
    exact h
  · obtain ⟨next, later, hafter⟩ := h.ended.exists_after hkind
    have hwords := h.words
    have hsound := h.sound
    rw [words_advance h.ended hkind] at hwords
    rw [hafter] at hsound
    refine ⟨?_, (hwords.tail hkind).2⟩
    rw [advance_of_not_atEnd hkind hafter]
    exact hsound.suffix (List.suffix_cons _ _) (List.cons_ne_nil _ _)

theorem indented (h : c.Legible) (hkind : c.kind = .indent) :
    c.advance.kind.endsStatement = false := by
  obtain ⟨next, later, hafter⟩ := h.ended.exists_after (by simp [hkind])
  have hchain := Token.Part.indented h.sound.toPart
  rw [hafter] at hchain
  have hnext := (List.isChain_cons_cons.mp hchain).1 hkind
  rw [advance_of_not_atEnd (by simp [hkind]) hafter]
  cases hends : next.kind.endsStatement with
  | false => exact hends
  | true =>
    rw [Kind.isLayout_of_endsStatement hends] at hnext
    cases hnext

end Legible

theorem here_cons_after_ofTokens {tokens : List Token} (h : Token.Sound tokens) :
    (ofTokens tokens).here :: (ofTokens tokens).after = tokens := by
  have hended := h.ended
  cases tokens with
  | nil => cases hended
  | cons token later =>
    have hlast : ((token :: later).getLast (List.cons_ne_nil _ _)).kind = .endOfInput := by
      rw [List.getLast?_eq_some_getLast (List.cons_ne_nil _ _)] at hended
      exact Option.some.inj hended
    unfold ofTokens
    dsimp only
    rw [closeAfter_of_last hlast]

theorem words_ofTokens {tokens : List Token} (h : Token.Sound tokens) :
    (ofTokens tokens).words = tokens.map Token.word := by
  unfold words
  rw [here_cons_after_ofTokens h]

theorem legible_ofTokens {source : String} {tokens : List Token}
    (h : Token.ofSource source = .ok tokens) : (ofTokens tokens).Legible where
  sound := by
    rw [here_cons_after_ofTokens (Token.ofSource_sound h)]
    exact Token.ofSource_sound h
  words := by
    rw [words_ofTokens (Token.ofSource_sound h)]
    exact Token.ofSource_legible h

end Cursor

end Splice
