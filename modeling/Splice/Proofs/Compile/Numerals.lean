import Splice.Proofs.Compile.Leaves
import Splice.Proofs.Compile.SingleExpr

/-! The numbers of a program that has a text.  Digits stand for the number nearest to them, which
is infinite once they are too many; a finite number is written with digits that are read as it
again, while the text of the infinite one is a name. -/
namespace Splice

/-- A number at the start of a text has a span, however many digits it has. -/
theorem ofSource_numeral_ne_crash (n : Nat) :
    Token.ofSource (String.ofList (Decimal.numeral n)) ≠ .error .crash := by
  obtain ⟨c, cs, hnumeral⟩ := List.exists_cons_of_ne_nil (Decimal.numeral_ne_nil n)
  have hdigits := Decimal.isDigit_of_mem_numeral n
  rw [hnumeral] at hdigits ⊢
  have hmunch := Line.munch_digits (hdigits c List.mem_cons_self) cs
  rw [List.takeWhile_eq_self_iff.mpr fun d hd => hdigits d (List.mem_cons_of_mem _ hd)] at hmunch
  apply Token.ofSource_line_ne_crash <;> rw [String.toList_ofList]
  · intro hmem
    cases hdigits _ hmem
  · refine Line.scan_ne_crash_of_munch hmunch rfl (Line.Stretch.tokens_ne_crash (Nat.zero_le _)) ?_
    rw [List.drop_length]
    exact Line.scan_nil_ne_crash 1 _ _

theorem tokens_numeral (n : Nat) :
    ∃ tokens, Token.ofSource (String.ofList (Decimal.numeral n)) = .ok tokens ∧
      tokens.map Token.word =
        [(.number, String.ofList (Decimal.numeral n)), Kind.endOfInput.word] :=
  tokens_of_piece (ofSource_numeral_ne_crash n) (solid_numeral n) (piece_numeral n)

theorem compile_numeral (n : Nat) :
    compile (String.ofList (Decimal.numeral n)) =
      .ok ⟨[.expr (.number (Float.ofScientific n false 0))]⟩ :=
  compile_of_readable (ofSource_numeral_ne_crash n) (solid_numeral n) (piece_numeral n) rfl rfl rfl
    (readable_digits (Decimal.read?_numeral n)) (by decide) (Nat.zero_le _)

theorem tokens_infinity :
    (∃ tokens, Token.ofSource (Decimal.text Decimal.infinity) = .ok tokens ∧
      tokens.map Token.word = [(.ident, "inf"), Kind.endOfInput.word]) ∧
    compile (Decimal.text Decimal.infinity) = .ok ⟨[.expr (.name "inf")]⟩ := by
  have htext : Decimal.text Decimal.infinity = "inf" := by decide +kernel
  have hname : Piece "inf" [(.ident, "inf")] Line.Closed := piece_name (by decide)
  have hsolid : ∀ k, Line.Solid ("inf".toList ++ k) := solid_name (by decide)
  have hsafe := @Token.ofSource_ne_crash "inf" (by decide)
  rw [htext]
  exact ⟨tokens_of_piece hsafe hsolid hname, compile_of_readable hsafe hsolid hname rfl rfl rfl
    (Expr.readable_name "inf") (by decide) (Nat.zero_le _)⟩

/-- A number that stands in a program that has a text is whole or infinite. -/
theorem isLiteral_of_compile {source : String} {program : Program}
    (h : compile source = .ok program) {s : Stmt} (hs : s.Within program.body) {e : Expr}
    (he : e ∈ s.exprs) {x : Float} (hx : (Expr.number x).Within e) :
    Decimal.isLiteral x = true :=
  hx.wellFormed (s.wellFormed_of_mem_exprs (hs.wellFormed (wellFormed_of_compile h)) he)

/-- Of the numbers in a program that has a text, the finite ones are written with digits that are
scanned as one number and read as it again.  The infinite one is written as a name. -/
theorem number_text_of_compile {source : String} {program : Program}
    (h : compile source = .ok program) {s : Stmt} (hs : s.Within program.body) {e : Expr}
    (he : e ∈ s.exprs) {x : Float} (hx : (Expr.number x).Within e) :
    (x.isFinite = true →
      (∃ tokens, Token.ofSource (Decimal.text x) = .ok tokens ∧
        tokens.map Token.word = [(.number, Decimal.text x), Kind.endOfInput.word]) ∧
      Decimal.read? (Decimal.text x) = some x ∧
      compile (Decimal.text x) = .ok ⟨[.expr (.number x)]⟩) ∧
    (x.isFinite = false →
      (∃ tokens, Token.ofSource (Decimal.text x) = .ok tokens ∧
        tokens.map Token.word = [(.ident, "inf"), Kind.endOfInput.word]) ∧
      compile (Decimal.text x) = .ok ⟨[.expr (.name "inf")]⟩) := by
  have hliteral := isLiteral_of_compile h hs he hx
  refine ⟨fun hfinite => ?_, fun hinfinite => ?_⟩
  · have hnatural := Decimal.isNatural_of_isLiteral hliteral hfinite
    obtain ⟨n, htext, hvalue⟩ := Decimal.text_of_isNatural hnatural
    refine ⟨htext ▸ tokens_numeral n, Decimal.read?_text hnatural, ?_⟩
    rw [htext, compile_numeral, hvalue]
  · have hx : x = Decimal.infinity := by
      rcases Bool.or_eq_true_iff.mp hliteral with hnatural | hbits
      · simp [Decimal.isNatural, hinfinite] at hnatural
      · exact Float.toBits_inj.mp (beq_iff_eq.mp hbits)
    rw [hx]
    exact tokens_infinity

/-- A number of 54 bits stands for a neighbour of 53 bits, whose own digits are read as it. -/
theorem number_text_of_compile_rounded :
    compile (String.ofList (Decimal.numeral 9007199254740993)) =
        .ok ⟨[.expr (.number 9007199254740992)]⟩ ∧
      compile (Decimal.text 9007199254740992) = .ok ⟨[.expr (.number 9007199254740992)]⟩ := by
  have hrounded : Float.ofScientific 9007199254740993 false 0 = 9007199254740992 :=
    Float.toBits_inj.mp (by decide +kernel)
  have hcompile := compile_numeral 9007199254740993
  rw [hrounded] at hcompile
  obtain ⟨hfinite, -⟩ := number_text_of_compile hcompile (.here List.mem_cons_self)
    List.mem_cons_self .self
  exact ⟨hcompile, (hfinite (by decide +kernel)).2.2⟩

/-- So many digits that the number nearest to them is infinite. -/
theorem number_text_of_overflow :
    compile (String.ofList (Decimal.numeral (10 ^ 309))) =
        .ok ⟨[.expr (.number Decimal.infinity)]⟩ ∧
      ∃ tokens, Token.ofSource (Decimal.text Decimal.infinity) = .ok tokens ∧
        tokens.map Token.word = [(.ident, "inf"), Kind.endOfInput.word] := by
  have hoverflow : Float.ofScientific (10 ^ 309) false 0 = Decimal.infinity :=
    Float.toBits_inj.mp (by decide +kernel)
  have hcompile := compile_numeral (10 ^ 309)
  rw [hoverflow] at hcompile
  exact ⟨hcompile, tokens_infinity.1⟩

end Splice
