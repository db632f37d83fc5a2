import Splice.Compile
import Splice.Proofs.Token.Blocks
import Splice.Proofs.Token.Joined
import Splice.Proofs.Token.Limit
import Splice.Proofs.Tree.Legible
import Splice.Proofs.Tree.Simulation

/-! Compiling two texts, one after the other.  Behind a line break the statements of the second
text follow those of the first: no statement of the first text goes on into the second, because
its last line ends before it and its blocks are closed where the second text starts. -/
namespace Splice

open Splice.Parser
open Spelling (dedents)

namespace Parser

theorem startsExpr_of_primary {fuel : Nat} {c : Cursor} {result : Expr × Cursor}
    (h : primary fuel c = .ok result) : c.kind.startsExpr = true := by
  cases fuel with
  | zero => cases h
  | succ fuel =>
    unfold primary at h
    obtain ⟨_, _, ⟨⟩, h⟩ := exists_of_bind_eq_ok h
    cases hkind : c.kind with
    | number | string | ident | widget _ | leftParen => rfl
    | _ =>
      rw [hkind] at h
      cases h

theorem startsExpr_of_operation {level fuel : Nat} {c : Cursor} {result : Expr × Cursor}
    (h : operation level fuel c = .ok result) : c.kind.startsExpr = true := by
  induction fuel generalizing level result with
  | zero => cases h
  | succ fuel ih =>
    unfold operation at h
    split at h
    · exact startsExpr_of_primary h
    · obtain ⟨_, _, hleft, -⟩ := exists_of_bind_eq_ok h
      exact ih hleft

theorem startsLine_of_statement {fuel : Nat} {c : Cursor} {result : Stmt × Cursor}
    (h : statement fuel c = .ok result) : c.kind.startsLine = true := by
  have hexpr {fuel : Nat} {result : Stmt × Cursor}
      (h : (do return Stmt.expr (← expression fuel)) c = .ok result) :
      c.kind.startsLine = true := by
    obtain ⟨_, _, hfirst, -⟩ := exists_of_bind_eq_ok h
    exact Kind.startsLine_of_startsExpr (startsExpr_of_operation hfirst)
  obtain _ | _ | fuel := fuel
  · cases h
  · unfold statement at h
    obtain ⟨_, _, ⟨⟩, -⟩ := exists_of_bind_eq_ok h
  unfold statement at h
  obtain ⟨_, _, hform, -⟩ := exists_of_bind_eq_ok h
  unfold statementForm at hform
  obtain ⟨_, _, ⟨⟩, hform⟩ := exists_of_bind_eq_ok hform
  cases hkind : c.kind with
  | keyword word =>
    cases word with
    | otherwise | description =>
      rw [hkind] at hform
      rw [← hkind]
      exact hexpr hform
    | _ => rfl
  | _ =>
    rw [hkind] at hform
    rw [← hkind]
    exact hexpr hform

end Parser

namespace Cursor

variable {c d : Cursor} {n : Nat}

theorem words_skipNewlines {c : Cursor} (h : c.Ended) :
    c.skipNewlines.words = c.words.dropWhile (·.1 = .newline) := by
  by_cases hkind : c.kind = .newline
  · have hend : c.kind ≠ .endOfInput := by simp [hkind]
    have hword : c.here.word.1 = .newline := hkind
    have hless := h.left_advance hend
    rw [← skipNewlines_advance hkind, words_skipNewlines h.advance, words_advance h hend,
      List.dropWhile_cons_of_pos (by simpa using hword)]
  · have hword : c.here.word.1 ≠ .newline := hkind
    rw [skipNewlines_eq_self hkind, words, List.map_cons,
      List.dropWhile_cons_of_neg (by simpa using hword)]
termination_by c.left

theorem words_skipNewlines_congr (hc : c.Ended) (hd : d.Ended) (h : c.words = d.words) :
    c.skipNewlines.words = d.skipNewlines.words := by
  rw [words_skipNewlines hc, words_skipNewlines hd, h]

theorem words_behind_newlines (h : c.Ended) {gap more : List Word} {w : Word}
    (hwords : c.words = gap ++ w :: more) (hgap : ∀ w ∈ gap, w.1 = .newline)
    (hw : w.1 ≠ .newline) : c.skipNewlines.words = w :: more := by
  rw [words_skipNewlines h, hwords, List.dropWhile_append_of_pos (by simpa using hgap),
    List.dropWhile_cons_of_neg (by simpa using hw)]

theorem not_afterDedent_of_newline (h : c.Ended) (hkind : c.kind = .newline) :
    ¬ c.advance.AfterDedent := by
  rw [afterDedent_advance h (by simp [hkind]), hkind]
  simp

theorem not_afterDedent_skipNewlines (h : c.Ended) (hfresh : ¬ c.AfterDedent) :
    ¬ c.skipNewlines.AfterDedent :=
  (@skipNewlines_induction (fun other => other.Ended ∧ ¬ other.AfterDedent) c
    (fun _ hkind hother => ⟨hother.1.advance, not_afterDedent_of_newline hother.1 hkind⟩)
    ⟨h, hfresh⟩).2

/-- Two cursors of runs that go on in step. -/
structure InStep (n : Nat) (c d : Cursor) : Prop where
  ended : c.Ended ∧ d.Ended
  nesting : c.nesting = n ∧ d.nesting = n
  afterDedent : c.AfterDedent → d.AfterDedent

theorem InStep.advance (h : InStep n c d) (hkind : d.kind = c.kind)
    (hend : c.kind ≠ .endOfInput) : InStep n c.advance d.advance where
  ended := ⟨h.ended.1.advance, h.ended.2.advance⟩
  nesting := by
    rw [nesting_advance, nesting_advance]
    exact h.nesting
  afterDedent := by
    rw [afterDedent_advance h.ended.1 hend, afterDedent_advance h.ended.2 (hkind ▸ hend), hkind]
    exact id

theorem InStep.skipNewlines (h : InStep n c d) (hkind : d.kind = c.kind) :
    InStep n c.skipNewlines d.skipNewlines where
  ended := ⟨h.ended.1.skipNewlines.1, h.ended.2.skipNewlines.1⟩
  nesting := by
    rw [nesting_skipNewlines, nesting_skipNewlines]
    exact h.nesting
  afterDedent := by
    by_cases hnewline : c.kind = .newline
    · rw [← skipNewlines_advance hnewline]
      exact fun hafter => absurd hafter (not_afterDedent_skipNewlines h.ended.1.advance
        (not_afterDedent_of_newline h.ended.1 hnewline))
    · rw [skipNewlines_eq_self hnewline, skipNewlines_eq_self (hkind ▸ hnewline)]
      exact h.afterDedent

end Cursor

/-- A relation by the words that are left, which holds on as two runs go on in step.  At the end of
its input the first run leaves the second one at the end too, or at a further statement. -/
structure Cursor.Keeps (Left : Cursor → Cursor → Prop) : Prop where
  within : ∀ {c d} m, Left c d → Left (c.within m) (d.within m)
  word_eq : ∀ {c d}, Left c d → c.kind ≠ .endOfInput → d.here.word = c.here.word
  ends : ∀ {c d}, Left c d → c.kind = .endOfInput →
    d.kind = .endOfInput ∨ (c.AfterDedent ∧ d.kind.startsLine = true)
  advance : ∀ {c d}, Left c d → c.Ended → d.Ended → d.kind = c.kind → c.kind ≠ .newline →
    c.kind ≠ .endOfInput → Left c.advance d.advance
  skipNewlines : ∀ {c d}, Left c d → c.Ended → d.Ended → c.skipNewlines.kind ≠ .endOfInput →
    Left c.skipNewlines d.skipNewlines
  goes_on : ∀ {c d}, Left c d → c.Ended → d.Ended → c.skipNewlines.kind = .endOfInput →
    d.skipNewlines.kind = .endOfInput ∨ d.skipNewlines.kind.startsLine = true

namespace Cursor.Keeps

variable {Left : Cursor → Cursor → Prop} {c d : Cursor} {n : Nat}

theorem kind_eq (h : Keeps Left) (hleft : Left c d) (hend : c.kind ≠ .endOfInput) :
    d.kind = c.kind :=
  congrArg Prod.fst (h.word_eq hleft hend)

theorem paired_skip (h : Keeps Left) (hstep : InStep n c d) (hleft : Left c d)
    (hend : c.skipNewlines.kind ≠ .endOfInput) :
    InStep n c.skipNewlines d.skipNewlines ∧ Left c.skipNewlines d.skipNewlines := by
  have hhere : c.kind ≠ .endOfInput := by
    intro heq
    rw [skipNewlines_eq_self (by simp [heq])] at hend
    exact hend heq
  exact ⟨hstep.skipNewlines (h.kind_eq hleft hhere),
    h.skipNewlines hleft hstep.ended.1 hstep.ended.2 hend⟩

def simulation (h : Keeps Left) : Simulation where
  Reached := Ended
  Paired n c d := InStep n c d ∧ Left c d
  ended := id
  reached_advance := Ended.advance
  reached hpair := hpair.1.ended.1
  nesting_eq hpair := hpair.1.nesting
  paired_within m hpair :=
    ⟨⟨hpair.1.ended, ⟨rfl, rfl⟩, hpair.1.afterDedent⟩, h.within m hpair.2⟩
  word_eq := by
    rintro n c d ⟨-, hleft⟩ hends
    refine h.word_eq hleft ?_
    intro heq
    rw [heq] at hends
    cases hends
  ends := by
    rintro n c d ⟨-, hleft⟩ hends
    by_cases hend : c.kind = .endOfInput
    · refine (h.ends hleft hend).imp_left fun hd => ?_
      rw [hd]
      rfl
    · rw [h.kind_eq hleft hend]
      exact .inl hends
  afterDedent hpair := hpair.1.afterDedent
  paired_advance := by
    rintro n c d ⟨hstep, hleft⟩ hkind hnewline hend
    exact ⟨hstep.advance hkind hend,
      h.advance hleft hstep.ended.1 hstep.ended.2 hkind hnewline hend⟩
  paired_skip := by
    rintro n c d ⟨hstep, hleft⟩ hend
    have hnext := h.paired_skip hstep hleft hend
    exact ⟨hnext, h.word_eq hnext.2 hend⟩
  no_otherwise := by
    rintro n c d ⟨hstep, hleft⟩ hend heq
    rcases h.goes_on hleft hstep.ended.1 hstep.ended.2 hend with hd | hd <;> rw [heq] at hd <;>
      cases hd
  paired_block := by
    rintro n c d ⟨hstep, hleft⟩ hbreak hindent
    have hd : d.kind = .newline := (h.kind_eq hleft (by simp [hbreak])).trans hbreak
    rw [skipNewlines_advance hbreak] at hindent ⊢
    rw [skipNewlines_advance hd]
    exact ⟨hd, h.paired_skip hstep hleft (by simp [hindent])⟩

end Cursor.Keeps

theorem Cursor.keeps_words : Keeps fun c d => c.words = d.words where
  within _ h := h
  word_eq h _ := (List.cons.inj h).1.symm
  ends h hend := .inl ((kind_congr h).symm.trans hend)
  advance := by
    intro c d h hc hd hkind _ hend
    rw [words_advance hc hend, words_advance hd (hkind ▸ hend)] at h
    exact (List.cons.inj h).2
  skipNewlines h hc hd _ := words_skipNewlines_congr hc hd h
  goes_on h hc hd hend := .inl ((kind_congr (words_skipNewlines_congr hc hd h)).symm.trans hend)

/-- What stands where two texts meet: the blocks that the first one leaves open, and the words of
the second one, first its blank lines. -/
structure Seam where
  blocks : Nat
  gap : List Word
  first : Word
  more : List Word
  gap_newline : ∀ w ∈ gap, w.1 = .newline
  first_starts : first.1 = .endOfInput ∨ first.1.startsLine = true

namespace Seam

variable (seam : Seam) {c d : Cursor} {n : Nat}

/-- The end of the first text alone, from its last line break on. -/
def alone : List Word :=
  Kind.newline.word :: (dedents seam.blocks ++ [Kind.endOfInput.word])

def joined : List Word :=
  Kind.newline.word :: (seam.gap ++ (dedents seam.blocks ++ seam.first :: seam.more))

/-- The words that are left of the first text alone and of both texts: up to its last line break,
among the dedents behind it, or after them. -/
def Left (c d : Cursor) : Prop :=
  (∃ ws, (∀ w ∈ ws, w.1 ≠ .endOfInput) ∧ c.words = ws ++ seam.alone ∧
    d.words = ws ++ seam.joined) ∨
  (∃ count, c.words = dedents (count + 1) ++ [Kind.endOfInput.word] ∧
    d.words = dedents (count + 1) ++ seam.first :: seam.more) ∨
  (c.AfterDedent ∧ c.words = [Kind.endOfInput.word] ∧ d.words = seam.first :: seam.more)

variable {seam}

theorem first_ne_newline : seam.first.1 ≠ .newline := by
  rcases seam.first_starts with hend | hstarts
  · simp [hend]
  · intro heq
    rw [heq] at hstarts
    cases hstarts

theorem Left.word_eq (h : seam.Left c d) (hend : c.kind ≠ .endOfInput) :
    d.here.word = c.here.word := by
  obtain ⟨ws, -, hc, hd⟩ | ⟨count, hc, hd⟩ | ⟨-, hc, -⟩ := h
  · cases ws with
    | nil => exact (List.cons.inj hd).1.trans (List.cons.inj hc).1.symm
    | cons w ws => exact (List.cons.inj hd).1.trans (List.cons.inj hc).1.symm
  · exact (List.cons.inj hd).1.trans (List.cons.inj hc).1.symm
  · exact absurd (Cursor.kind_of_words hc) hend

/-- At the end of input the first text has just closed a block, and the second run goes on with the
second text. -/
theorem Left.ends (h : seam.Left c d) (hend : c.kind = .endOfInput) :
    c.AfterDedent ∧ d.words = seam.first :: seam.more := by
  obtain ⟨ws, hws, hc, -⟩ | ⟨count, hc, -⟩ | ⟨hafter, -, hd⟩ := h
  · cases ws with
    | nil =>
      have hkind : c.kind = .newline := Cursor.kind_of_words hc
      simp [hkind] at hend
    | cons w ws =>
      have hkind : c.kind = w.1 := Cursor.kind_of_words hc
      exact absurd (hkind.symm.trans hend) (hws w List.mem_cons_self)
  · have hkind : c.kind = .dedent := Cursor.kind_of_words hc
    simp [hkind] at hend
  · exact ⟨hafter, hd⟩

theorem Left.advance (h : seam.Left c d) (hc : c.Ended) (hd : d.Ended) (hkind : d.kind = c.kind)
    (hnewline : c.kind ≠ .newline) (hend : c.kind ≠ .endOfInput) :
    seam.Left c.advance d.advance := by
  unfold Left at h
  rw [Cursor.words_advance hc hend, Cursor.words_advance hd (hkind ▸ hend)] at h
  obtain ⟨ws, hws, hleft, hright⟩ | ⟨count, hleft, hright⟩ | ⟨-, hleft, -⟩ := h
  · cases ws with
    | nil => exact absurd (congrArg Prod.fst (List.cons.inj hleft).1) hnewline
    | cons w ws =>
      refine .inl ⟨ws, fun w hw => hws w (List.mem_cons_of_mem _ hw), ?_⟩
      exact ⟨(List.cons.inj hleft).2, (List.cons.inj hright).2⟩
  · have hdedent : c.kind = .dedent := congrArg Prod.fst (List.cons.inj hleft).1
    cases count with
    | zero =>
      have hafter := (Cursor.afterDedent_advance hc hend).mpr hdedent
      exact .inr (.inr ⟨hafter, (List.cons.inj hleft).2, (List.cons.inj hright).2⟩)
    | succ count =>
      exact .inr (.inl ⟨count, (List.cons.inj hleft).2, (List.cons.inj hright).2⟩)
  · exact absurd (congrArg Prod.fst (List.cons.inj hleft).1) hend

theorem dropWhile_dedents (count : Nat) {w : Word} {ws : List Word} (hw : w.1 ≠ .newline) :
    (dedents count ++ w :: ws).dropWhile (·.1 = .newline) = dedents count ++ w :: ws := by
  cases count with
  | zero => exact List.dropWhile_cons_of_neg (by simpa using hw)
  | succ count => exact List.dropWhile_cons_of_neg (by simp [Kind.word])

theorem dropWhile_alone :
    seam.alone.dropWhile (·.1 = .newline) = dedents seam.blocks ++ [Kind.endOfInput.word] := by
  unfold alone
  rw [List.dropWhile_cons_of_pos rfl, dropWhile_dedents _ (by simp [Kind.word])]

theorem dropWhile_joined :
    seam.joined.dropWhile (·.1 = .newline) = dedents seam.blocks ++ seam.first :: seam.more := by
  unfold joined
  rw [List.dropWhile_cons_of_pos rfl,
    List.dropWhile_append_of_pos (by simpa using seam.gap_newline),
    dropWhile_dedents _ first_ne_newline]

/-- Behind line breaks the runs still match, or the second run stands where the second text
starts. -/
theorem Left.skipNewlines (h : seam.Left c d) (hc : c.Ended) (hd : d.Ended) :
    seam.Left c.skipNewlines d.skipNewlines ∨
      (c.skipNewlines.kind = .endOfInput ∧ d.skipNewlines.words = seam.first :: seam.more) := by
  have hcskip := Cursor.words_skipNewlines hc
  have hdskip := Cursor.words_skipNewlines hd
  obtain ⟨ws, hws, hleft, hright⟩ | ⟨count, hleft, hright⟩ | ⟨-, hleft, hright⟩ := h
  · rw [hleft, List.dropWhile_append, dropWhile_alone] at hcskip
    rw [hright, List.dropWhile_append, dropWhile_joined] at hdskip
    split at hcskip
    · -- Only line breaks were left, so that the runs are at the dedents or behind them.
      rename_i hnone
      rw [if_pos hnone] at hdskip
      cases hblocks : seam.blocks with
      | zero =>
        rw [hblocks] at hcskip hdskip
        exact .inr ⟨Cursor.kind_of_words hcskip, hdskip⟩
      | succ count =>
        rw [hblocks] at hcskip hdskip
        exact .inl (.inr (.inl ⟨count, hcskip, hdskip⟩))
    · rename_i hsome
      rw [if_neg hsome] at hdskip
      refine .inl (.inl ⟨_, fun w hw => hws w ?_, hcskip, hdskip⟩)
      exact (List.dropWhile_suffix _).subset hw
  · rw [hleft, dropWhile_dedents _ (by simp [Kind.word])] at hcskip
    rw [hright, dropWhile_dedents _ first_ne_newline] at hdskip
    exact .inl (.inr (.inl ⟨count, hcskip, hdskip⟩))
  · rw [hleft, List.dropWhile_cons_of_neg (by simp [Kind.word])] at hcskip
    rw [hright, List.dropWhile_cons_of_neg (by simpa using first_ne_newline)] at hdskip
    exact .inr ⟨Cursor.kind_of_words hcskip, hdskip⟩

/-- Where the first run is through, the second one is at the start of the second text. -/
theorem Left.words_of_end (h : seam.Left c d) (hc : c.Ended) (hd : d.Ended)
    (hend : c.skipNewlines.kind = .endOfInput) :
    d.skipNewlines.words = seam.first :: seam.more := by
  rcases h.skipNewlines hc hd with hleft | ⟨-, hwords⟩
  · exact (hleft.ends hend).2
  · exact hwords

theorem ne_newline_of_words (h : d.words = seam.first :: seam.more) : d.kind ≠ .newline := by
  rw [Cursor.kind_of_words h]
  exact first_ne_newline

theorem starts_of_words (h : d.words = seam.first :: seam.more) :
    d.kind = .endOfInput ∨ d.kind.startsLine = true := by
  rw [Cursor.kind_of_words h]
  exact seam.first_starts

variable (seam) in
theorem keeps_left : Cursor.Keeps seam.Left where
  within _ h := h
  word_eq := Left.word_eq
  ends h hend :=
    (starts_of_words (h.ends hend).2).imp_right fun hstarts => ⟨(h.ends hend).1, hstarts⟩
  advance := Left.advance
  skipNewlines h hc hd hend :=
    (h.skipNewlines hc hd).resolve_right fun hstart => hend hstart.1
  goes_on h hc hd hend := starts_of_words (h.words_of_end hc hd hend)

end Seam

namespace Parser

theorem statements_skipNewlines {c : Cursor} (h : c.skipNewlines.kind ≠ .newline) (fuel : Nat) :
    statements false (fuel + 1) c.skipNewlines = statements false (fuel + 1) c := by
  have hskip := Cursor.skipNewlines_eq_self h
  by_cases hend : c.skipNewlines.kind = .endOfInput
  · rw [statements_of_end hend, statements_of_end (hskip.symm ▸ hend), hskip]
  · rw [statements_of_not_end hend, statements_of_not_end (hskip.symm ▸ hend), hskip]

theorem starts_of_statements {fuel : Nat} {c : Cursor} {result : List Stmt × Cursor}
    (h : statements false fuel c = .ok result) :
    c.skipNewlines.kind = .endOfInput ∨ c.skipNewlines.kind.startsLine = true := by
  cases fuel with
  | zero => cases h
  | succ fuel =>
    by_cases hend : c.skipNewlines.kind = .endOfInput
    · exact .inl hend
    · rw [statements_of_not_end hend] at h
      obtain ⟨_, _, hstmt, -⟩ := exists_of_bind_eq_ok h
      exact .inr (startsLine_of_statement hstmt)

theorem statements_of_words {fuel n : Nat} {c d c' : Cursor} {stmts : List Stmt}
    (hstep : Cursor.InStep n c d) (hwords : c.words = d.words)
    (h : statements false fuel c = .ok (stmts, c')) :
    ∃ d', statements false fuel d = .ok (stmts, d') := by
  obtain ⟨c₀, d₀, rest, ⟨hstep₀, hwords₀⟩, hend, -, hgo⟩ :=
    (Cursor.keeps_words.simulation).statements_goes_on ⟨hstep, hwords⟩ h
  have hdone : d₀.skipNewlines.kind = .endOfInput := by
    have hskip := Cursor.words_skipNewlines_congr hstep₀.ended.1 hstep₀.ended.2 hwords₀
    exact (Cursor.kind_congr hskip).symm.trans hend
  refine ⟨d₀.skipNewlines, ?_⟩
  rw [hgo [] _ (statements_of_end hdone), List.append_nil]

end Parser

theorem Cursor.not_afterDedent_ofTokens (tokens : List Token) :
    ¬ (ofTokens tokens).AfterDedent := by
  unfold AfterDedent
  rw [before_ofTokens]
  simp

/-- The programs of two token sequences follow each other in the sequence that has their words,
but for the dedents of the first one, which stand behind the blank lines of the second. -/
theorem Program.ofTokens_joined (seam : Seam) {first second both : List Token}
    {before : List Word} (hbefore : ∀ w ∈ before, w.1 ≠ .endOfInput)
    (hfirst : (Cursor.ofTokens first).words = before ++ seam.alone)
    (hsecond : (Cursor.ofTokens second).words = seam.gap ++ seam.first :: seam.more)
    (hboth : (Cursor.ofTokens both).words = before ++ seam.joined)
    {P Q : Program} (hP : Program.ofTokens first = .ok P) (hQ : Program.ofTokens second = .ok Q) :
    Program.ofTokens both = .ok ⟨P.body ++ Q.body⟩ := by
  -- One bound is enough for all three runs, behind the statements of the first text too.
  obtain ⟨fuel, hfuel⟩ : ∃ fuel, fuel = boundFor (Cursor.ofTokens first) +
    boundFor (Cursor.ofTokens second) + boundFor (Cursor.ofTokens both) + P.body.length := ⟨_, rfl⟩
  obtain ⟨c', hfirstRun⟩ := (Program.ofTokens_eq_ok (by omega : _ ≤ fuel)).mp hP
  refine (Program.ofTokens_eq_ok (by omega : _ ≤ fuel)).mpr ?_
  have hfirstEnded := Cursor.ended_ofTokens first
  have hsecondEnded := Cursor.ended_ofTokens second
  have hstart : Cursor.InStep 0 (Cursor.ofTokens first) (Cursor.ofTokens both) :=
    ⟨⟨hfirstEnded, Cursor.ended_ofTokens both⟩,
      ⟨Cursor.nesting_ofTokens _, Cursor.nesting_ofTokens _⟩,
      fun hafter => absurd hafter (Cursor.not_afterDedent_ofTokens _)⟩
  obtain ⟨c₀, d₀, rest, ⟨hstep, hleft⟩, hend, hrest, hgo⟩ :=
    (seam.keeps_left.simulation).statements_goes_on
      ⟨hstart, .inl ⟨before, hbefore, hfirst, hboth⟩⟩ hfirstRun
  obtain ⟨e', hsecondRun⟩ := (Program.ofTokens_eq_ok (by omega : _ ≤ rest + 1)).mp hQ
  -- The joined run is at the first written word of the second text, and reads on like its own run.
  have hhere := hleft.words_of_end hstep.ended.1 hstep.ended.2 hend
  have hthere := Cursor.words_behind_newlines hsecondEnded hsecond seam.gap_newline
    Seam.first_ne_newline
  have hmeet : Cursor.InStep 0 (Cursor.ofTokens second).skipNewlines d₀.skipNewlines :=
    ⟨⟨hsecondEnded.skipNewlines.1, hstep.ended.2.skipNewlines.1⟩,
      ⟨(Cursor.nesting_skipNewlines _).trans (Cursor.nesting_ofTokens _),
        (Cursor.nesting_skipNewlines _).trans hstep.nesting.2⟩,
      fun hafter => absurd hafter (Cursor.not_afterDedent_skipNewlines hsecondEnded
        (Cursor.not_afterDedent_ofTokens _))⟩
  rw [← statements_skipNewlines (Seam.ne_newline_of_words hthere)] at hsecondRun
  obtain ⟨d', hjoinedRun⟩ := statements_of_words hmeet (hthere.trans hhere.symm) hsecondRun
  rw [statements_skipNewlines (Seam.ne_newline_of_words hhere)] at hjoinedRun
  exact ⟨d', hgo _ _ hjoinedRun⟩

/-- The first written word of a text that compiles starts a statement, if it has one. -/
theorem Program.starts_of_ofTokens {tokens : List Token} {program : Program} {gap more : List Word}
    {w : Word} (h : Program.ofTokens tokens = .ok program)
    (hwords : (Cursor.ofTokens tokens).words = gap ++ w :: more)
    (hgap : ∀ w ∈ gap, w.1 = .newline) (hw : w.1 ≠ .newline) :
    w.1 = .endOfInput ∨ w.1.startsLine = true := by
  obtain ⟨c', hrun⟩ := (Program.ofTokens_eq_ok (Nat.le_refl _)).mp h
  have hthere := Cursor.words_behind_newlines (Cursor.ended_ofTokens tokens) hwords hgap hw
  rw [← Cursor.kind_of_words hthere]
  exact starts_of_statements hrun

theorem Token.ends_after {cs : List Char} {tokens : List Token} {before : List Word} {blocks : Nat}
    (h : ofList cs = .ok tokens)
    (hwords : tokens.map Token.word =
      before ++ Kind.newline.word :: (dedents blocks ++ [Kind.endOfInput.word])) :
    ∀ w ∈ before, w.1 ≠ .endOfInput := by
  obtain ⟨body, hbody, hnone⟩ := ofList_ends h
  have hkinds : tokens.map (·.kind) = (tokens.map Token.word).map Prod.fst := by
    rw [List.map_map]
    rfl
  rw [hkinds, hwords, ← List.cons_append, ← List.append_assoc, List.map_append] at hbody
  obtain rfl := List.append_inj_left' hbody rfl
  intro w hw heq
  exact hnone (List.mem_map.mpr ⟨w, List.mem_append_left _ hw, heq⟩)

theorem compile_longComment {length : Nat} (hsize : length + 2 < Span.limit) :
    compile (longComment length ++ "\n") = .ok ⟨[]⟩ := by
  have hspan := @Span.between_eq ScanFault (length + 1) (length + 1 + 1) (by omega) hsize
  have htokens : ∃ first last : Place, Token.ofSource (longComment length ++ "\n" ++ "") =
      .ok [⟨first, .newline, "\n"⟩, ⟨last, .endOfInput, ""⟩] := by
    rw [Token.ofSource_longComment]
    change ∃ first last, Token.ofLines {} 1 0 (longComment length).toList [[]] = _
    rw [Token.ofLines, Token.ofLine_longComment]
    simp only [bind, Except.bind, Nat.zero_add]
    rw [Text.byteLength_toList, utf8ByteSize_longComment, hspan]
    exact ⟨_, _, rfl⟩
  obtain ⟨first, last, htokens⟩ := htokens
  rw [String.append_empty] at htokens
  exact compile_eq_ok.mpr ⟨_, htokens, rfl⟩

end Splice
