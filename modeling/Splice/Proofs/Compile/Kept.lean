import Splice.Proofs.Compile.Concatenation
import Splice.Proofs.Tree.Image
import Splice.Proofs.Tree.RoundTrip

/-! Nothing is lost.  Every word of a text that compiles has its place in the program, and the
program has no other words: what the text says is what the program says, and so it is what the
canonical text of the program says. -/
namespace Splice

open Splice.Parser

/-- A sum without spaces, and a name behind it that ends just before the limit. -/
theorem compile_sum_longName {length : Nat} (hlength : 0 < length)
    (hsize : 4 + length < Span.limit) :
    compile ("x+x" ++ "\n" ++ longName length) =
      .ok ⟨endingLong (.expr (.binary .add (.name "x") (.name "x"))) length⟩ := by
  have hwords : Token.textWords ("x+x" ++ "\n" ++ longName length).toList =
      .ok (Stmt.words false
        (endingLong (.expr (.binary .add (.name "x") (.name "x"))) length)) := by
    have hfirst : Token.lineWords {} "x+x".toList =
        .ok ([(.ident, "x"), (Kind.operator .add).word, (.ident, "x")], {}) := by
      cbv
    rw [Token.textWords, Text.cut_first (by decide), Text.cut_line (newline_notMem_longName length)]
    exact Token.linesWords_cons_eq_ok.mpr ⟨_, _, _, hfirst,
      @Token.linesWords_longName {} _ 0 hlength rfl 2, rfl⟩
  have hbytes : ("x+x" ++ "\n" ++ longName length).utf8ByteSize = 4 + length := by
    rw [String.utf8ByteSize_append, utf8ByteSize_longName]
    rfl
  obtain ⟨tokens, htokens, hread⟩ :=
    Token.exists_tokens (Token.ofSource_ne_crash (hbytes.trans_lt hsize)) hwords
  have hcompile := compile_words (wellFormed_endingLong (by decide) hlength) htokens hread
  rwa [if_pos] at hcompile
  rw [maxNesting_endingLong]
  decide

end Splice
