import Splice.Proofs.Compile.Concatenation
import Splice.Proofs.Tree.RoundTrip

/-! Texts that are a single expression, in whichever way it is spelled.  The canonical text of a
tree is one of its spellings: a widget may also stand without an argument list, and digits may
stand for a number that is written with other digits. -/
namespace Splice

open Splice.Parser Spelling

theorem readable_bare (widget : Widget) :
    Readable ⟨[(Kind.widget widget).word], 0⟩ true 0 4 (.ui widget [] []) := by
  apply readable_of_primary
  intro broken c c' hdepth hpasses hends
  obtain ⟨hkind, -, hrest⟩ := hpasses.next (by simp)
  obtain rfl := hrest.nil
  refine .succ ?_
  simp only [primary]
  refine .kind ?_
  simp only [hkind]
  refine .advance (.kind ?_)
  simp only [hends.call rfl, if_false, pure_bind]
  refine .decline (hends.children rfl) ?_
  exact (Yields.pure _ _).within (Nat.zero_le _) hdepth

theorem readable_digits {digits : String} {x : Float} (hread : Decimal.read? digits = some x) :
    Readable ⟨[(.number, digits)], 0⟩ false 0 4 (.number x) := by
  apply readable_of_primary
  intro broken c c' hdepth hpasses hends
  obtain ⟨hkind, htext, hrest⟩ := hpasses.next (by decide)
  obtain rfl := hrest.nil
  refine .succ ?_
  simp only [primary]
  refine .kind ?_
  simp only [hkind]
  refine .advance ?_
  simp only [htext, Parser.number, hread]
  exact (Yields.pure _ _).within (Nat.zero_le _) hdepth

theorem statements_single {c c' : Cursor} {peak : Nat} {stmt : Stmt}
    (hstart : c.kind.startsExpr = true) (hend : c'.kind = .endOfInput)
    (hpeak : c'.nesting ≤ peak) (hroom : c'.nesting ≤ maxNesting)
    (hform : Yields statementForm c c' peak stmt) :
    Yields (statements false) c c' peak [stmt] := by
  have hne : c.kind ≠ .newline ∧ c.kind ≠ .endOfInput := by
    refine ⟨?_, ?_⟩ <;> intro hk <;> rw [hk] at hstart <;> cases hstart
  have hskip : skipNewlines c = .ok ((), c) :=
    congrArg (fun c => Except.ok ((), c)) (Cursor.skipNewlines_eq_self hne.1)
  have hstop : endStatement c' = .ok ((), c') := if_pos (.inr (by rw [hend]; rfl))
  have hstmt : Yields statement c c' peak stmt := by
    refine .succ ?_
    simp only [statement]
    exact hform.andThen 0 (fun _ => .of_ok hstop (.pure _ _)) (Nat.max_zero _)
  have hnone : c'.Passes (lineBreak false ++ (lines (Stmt.spellings [])).ended false) c' :=
    ⟨[], rfl, rfl, rfl, rfl⟩
  refine .succ ?_
  simp only [statements]
  refine .of_ok hskip (.kind ?_)
  simp only [hne.2, Bool.false_eq_true, false_and, or_self, if_false]
  exact hstmt.andThen c'.nesting
    (fun _ => (stmtsRead_nil false hroom hnone (.inl hend)).map (stmt :: ·)) (by omega)

theorem exprStmt_of_readable {s : Spelling} {bare : Bool} {nesting strength : Nat} {e : Expr}
    {c c' : Cursor} (hread : Readable s bare nesting strength e) (hstrength : 1 ≤ strength)
    (hopens : s.opens = 0) (hdepth : c.nesting ≤ maxNesting) (hpasses : c.Passes s.line c')
    (hstart : c.kind.startsExpr = true) (hend : c'.kind = .endOfInput) :
    Yields statementForm c c' (c.nesting + nesting) (.expr e) := by
  have hline : c.Passes (s.line ++ closing false s.opens) c' := by
    rwa [hopens, closing, if_pos rfl, List.append_nil]
  have hends : Ends s.opens bare 1 c'.kind := by
    rw [hend]
    exact ends_plain (by decide) (by decide) rfl _ _ _
  have hexpr := (hread.takes 1 hstrength hdepth hline hends).map Stmt.expr
  refine .succ ?_
  simp only [statementForm]
  refine .kind ?_
  cases hk : c.kind with
  | keyword word =>
    rw [hk] at hstart
    cases hstart
  | _ => exact hexpr

theorem tokens_of_piece {source : String} {us : List Word}
    (hsafe : Token.ofSource source ≠ .error .crash)
    (hsolid : ∀ k, Line.Solid (source.toList ++ k)) (hpiece : Piece source us Line.Closed) :
    ∃ tokens, Token.ofSource source = .ok tokens ∧
      tokens.map Token.word = us ++ [Kind.endOfInput.word] := by
  have hline := hpiece.reads (by simp [Line.Closed]) (Token.ReadsOn.nil 0)
  have hread := Token.Reads.outer (Nat.le_refl 0) (hsolid []) hline 1
  rw [List.append_nil] at hread
  exact Token.exists_tokens hsafe hread

theorem compile_of_readable {source : String} {s : Spelling} {bare : Bool} {nesting strength : Nat}
    {e : Expr} {w : Word} (hsafe : Token.ofSource source ≠ .error .crash)
    (hsolid : ∀ k, Line.Solid (source.toList ++ k))
    (hpiece : Piece source s.line Line.Closed) (hopens : s.opens = 0)
    (hfirst : s.line.head? = some w) (hstart : w.1.startsExpr = true)
    (hread : Readable s bare nesting strength e) (hstrength : 1 ≤ strength)
    (hnesting : nesting ≤ maxNesting) : compile source = .ok ⟨[.expr e]⟩ := by
  obtain ⟨tokens, htokens, hwords⟩ := tokens_of_piece hsafe hsolid hpiece
  obtain ⟨c', hpasses, hend⟩ := Cursor.passes_ofTokens hwords
  have hzero := Cursor.nesting_ofTokens tokens
  have hsame := hpasses.nesting
  rw [← hpasses.kind_eq hfirst] at hstart
  have hform := exprStmt_of_readable hread hstrength hopens (by omega) hpasses hstart hend
  obtain ⟨enough, hrun⟩ := statements_single hstart hend (by omega) (by omega) hform
  have hgives := hrun _ (Nat.le_max_left enough (boundFor (Cursor.ofTokens tokens)))
  rw [Gives, if_pos (by omega)] at hgives
  exact compile_eq_ok.mpr ⟨tokens, htokens,
    (Program.ofTokens_eq_ok (Nat.le_max_right _ _)).mpr ⟨c', hgives⟩⟩

end Splice
