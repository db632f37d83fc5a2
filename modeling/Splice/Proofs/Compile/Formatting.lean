import Splice.Proofs.Compile.Leaves
import Splice.Proofs.Compile.SingleExpr

/-! How deep the canonical text of a program nests.  Writing a program out drops the groups that it
does not need, but it gives every widget an argument list, and it puts a whole test into a group
when only its last operand, a widget without children, stood in one.  So the canonical text may
nest up to two levels deeper than the text that the program was read from, and a program that has
a text within the limit may have a canonical text beyond it. -/
namespace Splice

open Splice.Parser Spelling

namespace Expr

def isBare : Expr → Bool
  | .ui _ _ [] => true
  | _ => false

theorem maxNesting_add_le {es : List Expr} {n bound : Nat} (hn : n ≤ bound)
    (h : ∀ e ∈ es, e.nesting + n ≤ bound) : maxNesting es + n ≤ bound := by
  induction es with
  | nil => simpa [maxNesting] using hn
  | cons e es ih =>
    obtain ⟨he, hes⟩ := List.forall_mem_cons.mp h
    have hmore := ih hes
    rw [maxNesting]
    omega

theorem exists_isBare_of_endsBare {e : Expr} (h : e.endsBare = true) :
    ∃ part : Expr, part.Within e ∧ part.isBare = true := by
  induction e using endsBare.induct with
  | case1 widget args children =>
    obtain rfl := List.isEmpty_iff.mp h
    exact ⟨_, .self, rfl⟩
  | case2 op left right ih =>
    obtain ⟨part, hpart, hbare⟩ := ih h
    exact ⟨part, .inside (List.mem_cons_of_mem _ List.mem_cons_self) hpart, hbare⟩
  | case3 e hui hbinary => simp_all [endsBare]

theorem grouped_le (parens : Bool) (nesting : Nat) :
    Spelling.grouped parens nesting ≤ nesting + 1 := by
  cases parens <;> simp [Spelling.grouped]

theorem grouped_of_le {e : Expr} {level : Nat} (h : level ≤ e.strength) :
    Spelling.grouped (e.strength < level) e.nesting = e.nesting :=
  if_neg (by simpa using h)

/-- The operands of an operation are put into groups where they were read from groups, so only
widgets without children cost a level more than in the text. -/
theorem Built.nesting_le {n level extra : Nat} {e : Expr} (h : e.Built n level)
    (hn : n ≤ Parser.maxNesting) (hlevel : level ≤ 4)
    (hextra : ∀ part : Expr, part.Within e → part.isBare = true → 0 < extra) :
    Spelling.grouped (e.strength < level) e.nesting + n ≤ Parser.maxNesting + extra := by
  -- The members of an argument list or a children block.
  have hmembers {n : Nat} {es : List Expr} (hroom : n < Parser.maxNesting)
      (hes : ∀ e ∈ es, Spelling.grouped (e.strength < 1) e.nesting + (n + 1) ≤
        Parser.maxNesting + extra) : maxNesting es + (n + 1) ≤ Parser.maxNesting + extra := by
    refine maxNesting_add_le (by omega) fun e he => ?_
    rw [← grouped_of_le e.one_le_strength]
    exact hes e he
  induction h with
  | name | number | text =>
    rw [grouped_of_le (by exact hlevel)]
    simp only [nesting]
    omega
  | @call n level callee args hroom hargs ih =>
    have hall := hmembers hroom fun e he =>
      ih e he hroom (by omega) fun part hpart => hextra part (.inside he hpart)
    rw [grouped_of_le (by exact hlevel), nesting]
    omega
  | @ui n level widget args children hroom hargs hchildren ihargs ihchildren =>
    rw [grouped_of_le (by exact hlevel)]
    rcases Nat.lt_or_eq_of_le hn with hlt | rfl
    · have hallArgs := hmembers hlt fun e he => ihargs e he hlt (by omega) fun part hpart =>
        hextra part (.inside (List.mem_append_left _ he) hpart)
      have hallChildren := hmembers hlt fun e he => ihchildren e he hlt (by omega) fun part hpart =>
        hextra part (.inside (List.mem_append_right _ he) hpart)
      cases children <;> rw [nesting] <;> omega
    · -- Without room for a block or an argument list, the widget is bare and stands alone.
      have hnone : args ++ children = [] := by
        by_contra hne
        exact absurd (hroom hne) (Nat.lt_irrefl _)
      obtain ⟨rfl, rfl⟩ := List.append_eq_nil_iff.mp hnone
      have hone := hextra _ .self rfl
      rw [nesting, maxNesting]
      omega
  | @group n level e hroom h ih =>
    have hinner := ih hroom (by omega) hextra
    rw [grouped_of_le e.one_le_strength] at hinner
    have hgroup := grouped_le (e.strength < level) e.nesting
    omega
  | @binary n level op left right hop hleft hright ihleft ihright =>
    have hprec : op.precedence ≤ 3 := by cases op <;> decide
    have hl := ihleft hn (by omega) fun part hpart =>
      hextra part (.inside List.mem_cons_self hpart)
    have hr := ihright hn (by omega) fun part hpart =>
      hextra part (.inside (List.mem_cons_of_mem _ List.mem_cons_self) hpart)
    rw [grouped_of_le (by exact hop), nesting]
    simp only [Nat.lt_succ_iff] at hr
    omega

end Expr

namespace Stmt

def ShowsBare (stmts : List Stmt) : Prop :=
  ∃ s : Stmt, s.Within stmts ∧
    ∃ e ∈ s.exprs, ∃ part : Expr, part.Within e ∧ part.isBare = true

theorem Within.trans {s inner : Stmt} {block outer : List Stmt} (hs : s.Within outer)
    (hblock : block ∈ s.blocks) (h : inner.Within block) : inner.Within outer := by
  induction hs with
  | here hmem => exact .inside hmem hblock h
  | inside hmem hinner _ ih => exact .inside hmem hinner ih

theorem maxNesting_add_le {ss : List Stmt} {n bound : Nat} (hn : n ≤ bound)
    (h : ∀ s ∈ ss, s.nesting + n ≤ bound) : maxNesting ss + n ≤ bound := by
  induction ss with
  | nil => simpa [maxNesting] using hn
  | cons s ss ih =>
    obtain ⟨hs, hss⟩ := List.forall_mem_cons.mp h
    have hmore := ih hss
    rw [maxNesting]
    omega

theorem nesting_add_le {s : Stmt} {n bound : Nat} (hn : n ≤ bound)
    (hexprs : ∀ e ∈ s.exprs, e.testNesting + n ≤ bound)
    (hblocks : ∀ block ∈ s.blocks, maxNesting block + (n + 1) ≤ bound) :
    s.nesting + n ≤ bound := by
  have hbare (e : Expr) : e.nesting ≤ e.testNesting := by
    unfold Expr.testNesting Spelling.grouped
    split <;> omega
  match s with
  | .binding _ (some e) | .ret (some e) | .expr e | .inspect e =>
    have hexpr := hexprs e List.mem_cons_self
    have hle := hbare e
    rw [nesting]
    omega
  | .branch _ _ (some _) | .branch _ _ none | .loop _ _ =>
    simp only [exprs, blocks, List.forall_mem_cons] at hexprs hblocks
    rw [nesting]
    omega
  | .function _ _ _ | .optimize _ | .ask _ (some _) =>
    simp only [blocks, List.forall_mem_cons] at hblocks
    rw [nesting]
    omega
  | .binding _ none | .ret none | .ask _ none | .generate _ _ _ | .load _ | .search _ =>
    simpa only [nesting, Nat.zero_add] using hn

theorem Built.nesting_le {n extra : Nat} {s : Stmt} (h : s.Built n) (hn : n ≤ Parser.maxNesting)
    (hextra : ShowsBare [s] → 0 < extra) : s.nesting + n ≤ Parser.maxNesting + 2 * extra := by
  induction h with
  | @of_parts n s hexprs hroom _ ih =>
    refine nesting_add_le (by omega) (fun e he => ?_) fun block hblock => ?_
    · have hshown {part : Expr} (hpart : part.Within e) (hbare : part.isBare = true) : 0 < extra :=
        hextra ⟨s, .here List.mem_cons_self, e, he, part, hpart, hbare⟩
      have hexpr := (hexprs e he).nesting_le hn (by omega) fun _ => hshown
      rw [Expr.grouped_of_le e.one_le_strength] at hexpr
      unfold Expr.testNesting Spelling.grouped
      split
      · rename_i hends
        obtain ⟨part, hpart, hbare⟩ := Expr.exists_isBare_of_endsBare hends
        have hone := hshown hpart hbare
        omega
      · omega
    · have hlt := hroom (List.ne_nil_of_mem hblock)
      refine maxNesting_add_le (by omega) fun t ht => ih block hblock t ht hlt ?_
      rintro ⟨inner, hinner, hbare⟩
      have hwithin : inner.Within block := hinner.mono (by simpa using ht)
      exact hextra ⟨inner, .inside List.mem_cons_self hblock hwithin, hbare⟩

theorem maxNesting_le_of_built (extra : Nat) {n : Nat} {stmts : List Stmt}
    (h : ∀ s ∈ stmts, s.Built n) (hn : n ≤ Parser.maxNesting)
    (hextra : ShowsBare stmts → 0 < extra) :
    maxNesting stmts + n ≤ Parser.maxNesting + 2 * extra := by
  refine maxNesting_add_le (by omega) fun s hs => (h s hs).nesting_le hn ?_
  rintro ⟨inner, hinner, hbare⟩
  exact hextra ⟨inner, hinner.mono (by simpa using hs), hbare⟩

theorem Within.built {s : Stmt} {block : List Stmt} {n : Nat} (h : s.Within block)
    (hbuilt : ∀ t ∈ block, t.Built n) : ∃ m, s.Built m := by
  induction h generalizing n with
  | here hmem => exact ⟨n, hbuilt _ hmem⟩
  | inside hmem hinner _ ih =>
    cases hbuilt _ hmem with
    | of_parts _ _ hblocks => exact ih (hblocks _ hinner)

end Stmt

theorem wellFormed_of_finite {source : String} {program : Program}
    (h : compile source = .ok program)
    (hfinite : ∀ x ∈ Stmt.allNumbers program.body, x.isFinite = true) :
    program.wellFormed = true :=
  Stmt.allWellFormed_of_numbers program.body (wellFormed_of_compile h) fun x hx hliteral =>
    Decimal.isNatural_of_isLiteral hliteral (hfinite x hx)

theorem compile_print_cases {program : Program} (hwf : program.wellFormed = true)
    (hsize : program.print.utf8ByteSize < Span.limit) :
    if program.nesting ≤ Parser.maxNesting then compile program.print = .ok program
    else ∃ fault, compile program.print = .error (.fault (.parse fault)) ∧
      fault.cause = .nestingTooDeep Parser.maxNesting := by
  obtain ⟨tokens, htokens, hwords⟩ := Program.words_print hwf hsize
  exact compile_words hwf htokens hwords

/-- The canonical text of a program that has a text compiles to the program, unless it is one or
two levels beyond the limit; then it is refused for its nesting.  Without widgets that have no
children it is never refused, and neither is the text of any block.  The texts have to be shorter
than four gigabytes. -/
theorem compile_print_of_compile {source : String} {program : Program}
    (h : compile source = .ok program)
    (hfinite : ∀ x ∈ Stmt.allNumbers program.body, x.isFinite = true) :
    (program.print.utf8ByteSize < Span.limit →
      if program.nesting ≤ Parser.maxNesting then compile program.print = .ok program
      else ∃ fault, compile program.print = .error (.fault (.parse fault)) ∧
        fault.cause = .nestingTooDeep Parser.maxNesting) ∧
    program.nesting ≤ Parser.maxNesting + 2 ∧
    (¬ Stmt.ShowsBare program.body →
      (program.print.utf8ByteSize < Span.limit → compile program.print = .ok program) ∧
      ∀ s : Stmt, s.Within program.body → ∀ block ∈ s.blocks,
        (Stmt.printAll block).utf8ByteSize < Span.limit →
          compile (Stmt.printAll block) = .ok ⟨block⟩) := by
  have hwf := wellFormed_of_finite h hfinite
  have hbuilt := built_of_compile h
  refine ⟨compile_print_cases hwf,
    Stmt.maxNesting_le_of_built 1 hbuilt (Nat.zero_le _) fun _ => Nat.one_pos, ?_⟩
  intro hbare
  have hwhole : program.nesting ≤ Parser.maxNesting :=
    Stmt.maxNesting_le_of_built 0 hbuilt (Nat.zero_le _) fun hshown => absurd hshown hbare
  refine ⟨fun hsize => ?_, fun s hs block hblock hsize => ?_⟩
  · have hcompile := compile_print_cases hwf hsize
    rwa [if_pos hwhole] at hcompile
  have hstmt := hs.wellFormed hwf
  obtain ⟨m, ⟨-, hroom, hblocks⟩⟩ := hs.built hbuilt
  have hnesting := Stmt.maxNesting_le_of_built 0 (hblocks block hblock)
    (hroom (List.ne_nil_of_mem hblock)) ?_
  · have hcompile := compile_printAll false (Stmt.ne_nil_of_wellFormed hstmt hblock)
      (Stmt.allWellFormed_of_mem_blocks hstmt hblock) (by omega)
    simp only [Bool.false_eq_true, if_false, String.append_empty] at hcompile
    exact hcompile (Token.ofSource_ne_crash hsize)
  · rintro ⟨inner, hinner, hshown⟩
    exact absurd ⟨inner, hs.trans hblock hinner, hshown⟩ hbare

theorem compile_print_of_compile_optimize :
    compile "ai.optimize:\n    return x\n" = .ok ⟨[.optimize [.ret (some (.name "x"))]]⟩ ∧
      ¬ Stmt.ShowsBare [.optimize [.ret (some (.name "x"))]] ∧
      compile (Stmt.printAll [.ret (some (.name "x"))]) = .ok ⟨[.ret (some (.name "x"))]⟩ := by
  have hsource : Stmt.printAll [.optimize [.ret (some (.name "x"))]] ++ "\n" =
      "ai.optimize:\n    return x\n" := by
    decide +kernel
  have hcompile : compile "ai.optimize:\n    return x\n" =
      .ok ⟨[.optimize [.ret (some (.name "x"))]]⟩ := by
    rw [← hsource]
    exact compile_printAll true (List.cons_ne_nil _ _) (by decide) (by decide)
      (Token.ofSource_ne_crash (by decide +kernel))
  have hbare : ¬ Stmt.ShowsBare [.optimize [.ret (some (.name "x"))]] := by
    rintro ⟨s, ⟨hmem⟩ | ⟨hmem, hinner, ⟨hmem'⟩ | ⟨hmem', hinner', -⟩⟩, e, he, part, hpart, hbare⟩
    · obtain rfl := List.mem_singleton.mp hmem
      cases he
    · obtain rfl := List.mem_singleton.mp hmem
      obtain rfl := List.mem_singleton.mp hinner
      obtain rfl := List.mem_singleton.mp hmem'
      obtain rfl := List.mem_singleton.mp he
      rcases hpart with _ | ⟨⟨⟩, -⟩
      cases hbare
    · obtain rfl := List.mem_singleton.mp hmem
      obtain rfl := List.mem_singleton.mp hinner
      obtain rfl := List.mem_singleton.mp hmem'
      cases hinner'
  obtain ⟨-, -, hall⟩ := compile_print_of_compile hcompile (by decide)
  exact ⟨hcompile, hbare, (hall hbare).2 _ (.here List.mem_cons_self) _ List.mem_cons_self
    (by decide +kernel)⟩

namespace Expr

def chained : Nat → Expr
  | 0 => .binary .sub (.name "x") (.ui .box [] [])
  | depth + 1 => .binary .sub (.name "x") (chained depth)

def chainedText : Nat → String
  | 0 => "x-box"
  | depth + 1 => "x-(" ++ chainedText depth ++ ")"

def chainedSpelling : Nat → Spelling
  | 0 => Spelling.after ((spelling (.name "x")).settled ++ [(Kind.operator .sub).word])
      ⟨[(Kind.widget .box).word], 0⟩
  | depth + 1 => Spelling.after ((spelling (.name "x")).settled ++ [(Kind.operator .sub).word])
      (group true (chainedSpelling depth))

theorem strength_chained (depth : Nat) : (chained depth).strength = 2 := by
  cases depth <;> rfl

theorem readable_chained (depth : Nat) : ∃ bare,
    Readable (chainedSpelling depth) bare depth 2 (chained depth) := by
  induction depth with
  | zero =>
    exact ⟨true, readable_binary .sub (readable_name "x") (readable_bare .box) (by decide)
      (by decide)⟩
  | succ depth ih =>
    obtain ⟨bare, hread⟩ := ih
    have hboth := readable_binary .sub (readable_name "x") (hread.parens (by decide)) (by decide)
      (by decide)
    rw [Nat.max_eq_right (Nat.zero_le _)] at hboth
    exact ⟨false, hboth⟩

theorem opens_chainedSpelling (depth : Nat) : (chainedSpelling depth).opens = 0 := by
  cases depth <;> rfl

theorem piece_chained (depth : Nat) :
    Piece (chainedText depth) (chainedSpelling depth).line Line.Closed := by
  have hminus : Piece "x-" [(.ident, "x"), (Kind.operator .sub).word] Line.Anything := by
    have hname : Piece "x" [(.ident, "x")] Line.Closed := piece_name (by decide)
    refine hname.append (piece_operator .sub) fun k _ => ?_
    simp [Line.Closed, Operator.symbol, Line.isWordPart]
  induction depth with
  | zero => exact hminus.append (piece_widget .box) fun _ _ => trivial
  | succ depth ih =>
    have hopen := hminus.append (@piece_symbol '(' _ rfl (by decide)) fun _ _ => trivial
    have hgroup := (hopen.append ih fun _ _ => trivial).append (@piece_symbol ')' _ rfl (by decide))
      fun _ _ => by simp [Line.Closed, Line.isWordPart]
    refine ⟨fun _ hreads => ?_⟩
    have hread := hgroup.reads trivial hreads
    simpa [chainedText, chainedSpelling, Spelling.after, group, settled, spelling, closing,
      opens_chainedSpelling, Kind.word, Kind.text, String.append_assoc] using hread

theorem wellFormed_chained (depth : Nat) : (chained depth).wellFormed = true := by
  induction depth with
  | zero => decide
  | succ depth ih =>
    rw [chained, wellFormed, ih]
    decide

theorem nesting_chained (depth : Nat) : (chained depth).nesting = depth + 1 := by
  induction depth with
  | zero => rfl
  | succ depth ih =>
    rw [chained, nesting, ih, strength_chained]
    rfl

end Expr

theorem compile_chainedText {depth : Nat} (hdepth : depth ≤ maxNesting)
    (hsize : (Expr.chainedText depth).utf8ByteSize < Span.limit) :
    compile (Expr.chainedText depth) = .ok ⟨[.expr (Expr.chained depth)]⟩ := by
  obtain ⟨bare, hread⟩ := Expr.readable_chained depth
  have hfirst : (Expr.chainedSpelling depth).line.head? = some (.ident, "x") := by
    cases depth <;> rfl
  have hsolid (k : List Char) : Line.Solid ((Expr.chainedText depth).toList ++ k) := by
    have hname (k : List Char) : Line.Solid ("x".toList ++ k) := solid_name (by decide) k
    cases depth <;> simpa [Expr.chainedText] using hname _
  exact compile_of_readable (Token.ofSource_ne_crash hsize) hsolid (Expr.piece_chained depth)
    (Expr.opens_chainedSpelling depth) hfirst rfl hread (by decide) hdepth

theorem compile_print_of_chained {depth : Nat} (hdepth : maxNesting ≤ depth)
    (hsize : (Program.print ⟨[.expr (Expr.chained depth)]⟩).utf8ByteSize < Span.limit) :
    ∃ fault, compile (Program.print ⟨[.expr (Expr.chained depth)]⟩) =
      .error (.fault (.parse fault)) ∧ fault.cause = .nestingTooDeep maxNesting := by
  have hwf : Program.wellFormed ⟨[.expr (Expr.chained depth)]⟩ = true := by
    rw [Program.wellFormed, Stmt.allWellFormed, Stmt.wellFormed, Expr.wellFormed_chained]
    rfl
  have hnesting : Program.nesting ⟨[.expr (Expr.chained depth)]⟩ = depth + 1 := by
    rw [Program.nesting, Stmt.maxNesting, Stmt.nesting, Expr.nesting_chained]
    rfl
  have hcompile := compile_print_cases hwf hsize
  rwa [if_neg (by omega)] at hcompile

/-- As many groups as may be open, and an argument list besides in the canonical text. -/
theorem compile_print_chained :
    compile (Expr.chainedText maxNesting) = .ok ⟨[.expr (Expr.chained maxNesting)]⟩ ∧
      ∃ fault, compile (Program.print ⟨[.expr (Expr.chained maxNesting)]⟩) =
        .error (.fault (.parse fault)) ∧ fault.cause = .nestingTooDeep maxNesting :=
  ⟨compile_chainedText (Nat.le_refl _) (by decide +kernel),
    compile_print_of_chained (Nat.le_refl _) (by decide +kernel)⟩

end Splice
