import Splice.Compile
import Splice.Proofs.Token.Limit
import Splice.Proofs.Tree.Fuel
import Splice.Proofs.Tree.Reading.Stmt
import Splice.Proofs.Tree.Written

/-! The canonical text of a program compiles to that program, unless it nests too deep; then it
fails for that reason. -/
namespace Splice

open Splice.Parser Spelling

/-- A token sequence that ends with the end of input is passed up to there. -/
theorem Cursor.passes_ofTokens {tokens : List Token} {ws : List Word}
    (hwords : tokens.map Token.word = ws ++ [Kind.endOfInput.word]) :
    ∃ c', (ofTokens tokens).Passes ws c' ∧ c'.kind = .endOfInput := by
  obtain ⟨first, last, rfl, hfirst, hlast⟩ := List.map_eq_append_iff.mp hwords
  obtain ⟨token, rfl, htoken⟩ := List.map_eq_singleton_iff.mp hlast
  have hkind : token.kind = .endOfInput := congrArg Prod.fst htoken
  refine ⟨⟨first.reverse, token, [], 0⟩, ?_, hkind⟩
  cases first with
  | nil =>
    obtain rfl := hfirst
    refine ⟨[], rfl, ?_, rfl, rfl⟩
    simp [ofTokens, closeAfter, hkind]
  | cons start more =>
    refine ⟨start :: more, hfirst, ?_, by simp [ofTokens], rfl⟩
    have hclose : closeAfter start (more ++ [token]) = more ++ [token] := by
      apply closeAfter_of_last
      rw [List.getLast_cons (by simp), List.getLast_concat]
      exact hkind
    simp [ofTokens, hclose]

theorem Program.ofTokens_words {tokens : List Token} {stmts : List Stmt} {broken : Bool}
    (hwf : Stmt.allWellFormed stmts = true)
    (hwords : tokens.map Token.word = Stmt.words broken stmts) :
    if Stmt.maxNesting stmts ≤ maxNesting then Program.ofTokens tokens = .ok ⟨stmts⟩
    else ∃ fault, Program.ofTokens tokens = .error fault ∧
      fault.cause = .nestingTooDeep maxNesting := by
  obtain ⟨broken', hlines⟩ : ∃ broken', Stmt.words broken stmts =
      (lineBreak false ++ (lines (Stmt.spellings stmts)).ended broken') ++
        [Kind.endOfInput.word] := by
    cases stmts with
    | nil => exact ⟨false, rfl⟩
    | cons s ss => exact ⟨broken, rfl⟩
  obtain ⟨c', hpasses, hend⟩ := Cursor.passes_ofTokens (hwords.trans hlines)
  have hnesting : (Cursor.ofTokens tokens).nesting = 0 := by cases tokens <;> rfl
  obtain ⟨enough, hrun⟩ := Stmt.readAll stmts hwf false (by omega) hpasses (.inl hend)
  have hbound := statements_boundFor tokens (Nat.le_max_right enough _)
  have hgives := hrun _ (Nat.le_max_left _ (boundFor (Cursor.ofTokens tokens)))
  rw [hnesting, Nat.zero_add] at hgives
  unfold Gives at hgives
  rw [hbound] at hgives
  unfold Program.ofTokens
  dsimp only
  split
  · rename_i hle
    rw [if_pos hle] at hgives
    rw [hgives]
    rfl
  · rename_i hgt
    rw [if_neg hgt] at hgives
    obtain ⟨fault, hfault, hcause⟩ := hgives
    exact ⟨fault, by rw [hfault]; rfl, hcause⟩

theorem compile_words {source : String} {tokens : List Token} {stmts : List Stmt} {broken : Bool}
    (hwf : Stmt.allWellFormed stmts = true) (htokens : Token.ofSource source = .ok tokens)
    (hwords : tokens.map Token.word = Stmt.words broken stmts) :
    if Stmt.maxNesting stmts ≤ maxNesting then compile source = .ok ⟨stmts⟩
    else ∃ fault, compile source = .error (.fault (.parse fault)) ∧
      fault.cause = .nestingTooDeep maxNesting := by
  have hparse := Program.ofTokens_words hwf hwords
  unfold compile
  rw [htokens]
  dsimp only
  split
  · rename_i hle
    rw [if_pos hle] at hparse
    rw [hparse]
    rfl
  · rename_i hgt
    rw [if_neg hgt] at hparse
    obtain ⟨fault, hfault, hcause⟩ := hparse
    exact ⟨fault, by rw [hfault]; rfl, hcause⟩

/-- The text of a block compiles to the block, with or without a line break at its end, unless it
crashes. -/
theorem compile_printAll (broken : Bool) {stmts : List Stmt} (hne : stmts ≠ [])
    (hwf : Stmt.allWellFormed stmts = true) (hnesting : Stmt.maxNesting stmts ≤ maxNesting)
    (hsafe : Token.ofSource (Stmt.printAll stmts ++ if broken then "\n" else "") ≠
      .error .crash) :
    compile (Stmt.printAll stmts ++ if broken then "\n" else "") = .ok ⟨stmts⟩ := by
  obtain ⟨tokens, htokens, hwords⟩ :=
    Token.exists_tokens hsafe (Stmt.textWords_printAll broken hne hwf)
  have hcompile := compile_words hwf htokens hwords
  rw [if_pos hnesting] at hcompile
  exact hcompile

theorem compile_of_printAll {text : String} {program : Program}
    (htext : Stmt.printAll program.body ++ "\n" = text) (hne : program.body ≠ [])
    (hwf : Stmt.allWellFormed program.body = true)
    (hnesting : Stmt.maxNesting program.body ≤ maxNesting)
    (hsize : text.utf8ByteSize < Span.limit) : compile text = .ok program := by
  subst htext
  exact compile_printAll true hne hwf hnesting (Token.ofSource_ne_crash hsize)

def endingLong (first : Stmt) (length : Nat) : List Stmt :=
  [first, .expr (.name (longName length))]

section

variable {first : Stmt} {length : Nat}

theorem printAll_endingLong (first : Stmt) (length : Nat) :
    Stmt.printAll (endingLong first length) = first.print 0 ++ "\n" ++ longName length := by
  have hname : (Stmt.expr (.name (longName length))).print 0 = "" ++ longName length := rfl
  simp [Stmt.printAll, endingLong, hname, String.append_assoc]

theorem wellFormed_endingLong (hfirst : first.wellFormed = true) (hlength : 0 < length) :
    Stmt.allWellFormed (endingLong first length) = true := by
  simp only [endingLong, Stmt.allWellFormed, Stmt.wellFormed, Expr.wellFormed, hfirst,
    isPlainName_longName hlength, Bool.and_self]

theorem maxNesting_endingLong (first : Stmt) (length : Nat) :
    Stmt.maxNesting (endingLong first length) = first.nesting := by
  simp [endingLong, Stmt.maxNesting, Stmt.nesting, Expr.nesting]

theorem ofSource_printAll_endingLong {own : List Token} (hlength : 0 < length)
    (hfirst : Token.ofLine {} 1 0 (first.print 0).toList = .ok (own, {}))
    (hbreak : '\n' ∉ (first.print 0).toList)
    (hcut : ((first.print 0).utf8ByteSize + 1 + length) % Span.limit <
      ((first.print 0).utf8ByteSize + 1) % Span.limit) :
    Token.ofSource (Stmt.printAll (endingLong first length)) = .error .crash := by
  refine @Token.ofSource_longName [] _ _ _ _ hlength ?_ hfirst hcut
  rw [printAll_endingLong, Text.cut_first hbreak, Text.cut_line (newline_notMem_longName length)]

theorem ofSource_print_endingLong {own : List Token} (hlength : 0 < length)
    (hfirst : Token.ofLine {} 1 0 (first.print 0).toList = .ok (own, {}))
    (hbreak : '\n' ∉ (first.print 0).toList)
    (hcut : ((first.print 0).utf8ByteSize + 1 + length) % Span.limit <
      ((first.print 0).utf8ByteSize + 1) % Span.limit) :
    Token.ofSource (Program.print ⟨endingLong first length⟩) = .error .crash := by
  have htext : Program.print ⟨endingLong first length⟩ =
      first.print 0 ++ "\n" ++ (longName length ++ "\n") := by
    have hsome : (first.print 0 ++ "\n" ++ longName length).isEmpty = false := by
      rw [Bool.eq_false_iff, ne_eq, String.isEmpty_iff]
      intro hempty
      have hlist := congrArg String.toList hempty
      simp at hlist
    unfold Program.print
    rw [printAll_endingLong]
    dsimp only
    rw [hsome, if_neg Bool.false_ne_true]
    exact String.append_assoc
  refine @Token.ofSource_longName [[]] _ _ _ _ hlength ?_ hfirst hcut
  have hlast := Text.cut_first (newline_notMem_longName length) ""
  rw [String.append_empty] at hlast
  rw [htext, Text.cut_first hbreak, hlast]
  rfl

end

end Splice
