import Splice.Proofs.Tree.Image
import Splice.Proofs.Tree.RoundTrip

/-! How high a tree may grow.  The limit on nesting bounds every way down a tree as long as steps to
the left operand of an operation are left out of the count.  Those steps cost no nesting: a text
may join any number of operands with operators, and each operator puts all the operands before it
one level further down. -/
namespace Splice

mutual

/-- The greatest number of expressions on a way down, where a step to a left operand counts as
`left` of them. -/
def Expr.height (left : Nat) : Expr → Nat
  | .binary _ l r => max (l.height left + left) (r.height left + 1)
  | .call _ args => Expr.maxHeight left args + 1
  | .ui _ args children => max (Expr.maxHeight left args) (Expr.maxHeight left children) + 1
  | .name _ | .number _ | .text _ => 1

def Expr.maxHeight (left : Nat) : List Expr → Nat
  | [] => 0
  | e :: es => max (e.height left) (Expr.maxHeight left es)

end

mutual

def Stmt.height (left : Nat) : Stmt → Nat
  | .function _ _ body => Stmt.maxHeight left body + 1
  | .binding _ (some init) => init.height left + 1
  | .branch test yes none => max (test.height left) (Stmt.maxHeight left yes) + 1
  | .branch test yes (some no) =>
    max (test.height left) (max (Stmt.maxHeight left yes) (Stmt.maxHeight left no)) + 1
  | .loop test body => max (test.height left) (Stmt.maxHeight left body) + 1
  | .ret (some value) => value.height left + 1
  | .expr e => e.height left + 1
  | .optimize body => Stmt.maxHeight left body + 1
  | .ask _ (some body) => Stmt.maxHeight left body + 1
  | .inspect target => target.height left + 1
  | _ => 1

def Stmt.maxHeight (left : Nat) : List Stmt → Nat
  | [] => 0
  | s :: ss => max (s.height left) (Stmt.maxHeight left ss)

end

def Program.height (program : Program) (left : Nat := 1) : Nat :=
  Stmt.maxHeight left program.body

namespace Expr

theorem maxHeight_le {left bound : Nat} {es : List Expr} (h : ∀ e ∈ es, e.height left ≤ bound) :
    maxHeight left es ≤ bound := by
  induction es with
  | nil => exact Nat.zero_le _
  | cons e es ih =>
    obtain ⟨he, hes⟩ := List.forall_mem_cons.mp h
    rw [maxHeight]
    exact Nat.max_le.mpr ⟨he, ih hes⟩

/-- Each level of nesting that is left allows for four levels of the tree: one for each rung of
precedence, and one for the call, the widget or the group. -/
theorem Built.height_le {n level : Nat} {e : Expr} (h : e.Built n level)
    (hn : n ≤ Parser.maxNesting) (hlevel : level ≤ 4) :
    e.height 0 + level ≤ 4 * (Parser.maxNesting - n) + 5 := by
  -- Arguments, children and groups start again on the lowest rung.
  have hmembers {n : Nat} {es : List Expr} (hroom : n < Parser.maxNesting)
      (hes : ∀ e ∈ es, e.height 0 + 1 ≤ 4 * (Parser.maxNesting - (n + 1)) + 5) :
      maxHeight 0 es + 1 ≤ 4 * (Parser.maxNesting - n) + 1 := by
    have hall : maxHeight 0 es ≤ 4 * (Parser.maxNesting - (n + 1)) + 4 :=
      maxHeight_le fun e he => by have := hes e he; omega
    omega
  induction h with
  | name | number | text =>
    simp only [height]
    omega
  | call hroom hargs ih =>
    have hall := hmembers hroom fun e he => ih e he hroom (by omega)
    rw [height]
    omega
  | @ui n level widget args children hroom hargs hchildren ihargs ihchildren =>
    by_cases hnone : args ++ children = []
    · obtain ⟨rfl, rfl⟩ := List.append_eq_nil_iff.mp hnone
      simp only [height, maxHeight]
      omega
    · have hlt := hroom hnone
      have hallArgs := hmembers hlt fun e he => ihargs e he hlt (by omega)
      have hallChildren := hmembers hlt fun e he => ihchildren e he hlt (by omega)
      rw [height]
      omega
  | group hroom h ih =>
    have hinner := ih hroom (by omega)
    omega
  | @binary n level op left right hop hleft hright ihleft ihright =>
    have hprec : op.precedence ≤ 3 := by cases op <;> decide
    have hl := ihleft hn (by omega)
    have hr := ihright hn (by omega)
    rw [height]
    omega

end Expr

namespace Stmt

theorem maxHeight_le {left bound : Nat} {ss : List Stmt} (h : ∀ s ∈ ss, s.height left ≤ bound) :
    maxHeight left ss ≤ bound := by
  induction ss with
  | nil => exact Nat.zero_le _
  | cons s ss ih =>
    obtain ⟨hs, hss⟩ := List.forall_mem_cons.mp h
    rw [maxHeight]
    exact Nat.max_le.mpr ⟨hs, ih hss⟩

theorem height_le_of_parts {left bound : Nat} {s : Stmt}
    (hexprs : ∀ e ∈ s.exprs, e.height left ≤ bound)
    (hblocks : ∀ block ∈ s.blocks, maxHeight left block ≤ bound) : s.height left ≤ bound + 1 := by
  match s with
  | .binding _ (some e) | .ret (some e) | .expr e | .inspect e =>
    exact Nat.succ_le_succ (hexprs e List.mem_cons_self)
  | .branch _ _ (some _) | .branch _ _ none | .loop _ _ =>
    simp only [exprs, blocks, List.forall_mem_cons] at hexprs hblocks
    rw [height]
    omega
  | .function _ _ block | .optimize block | .ask _ (some block) =>
    exact Nat.succ_le_succ (hblocks block List.mem_cons_self)
  | .binding _ none | .ret none | .ask _ none | .generate _ _ _ | .load _ | .search _ =>
    simp only [height]
    omega

theorem Built.height_le {n : Nat} {s : Stmt} (h : s.Built n) (hn : n ≤ Parser.maxNesting) :
    s.height 0 ≤ 4 * (Parser.maxNesting - n) + 5 := by
  induction h with
  | @of_parts n s hexprs hroom _ ih =>
    refine height_le_of_parts (fun e he => ?_) fun block hblock => maxHeight_le fun t ht => ?_
    · have hexpr := (hexprs e he).height_le hn (by omega)
      omega
    · have hlt := hroom (List.ne_nil_of_mem hblock)
      have hinner := ih block hblock t ht hlt
      omega

end Stmt

/-- Apart from left operands, the nesting limit bounds the height of every program that has a
text. -/
theorem height_of_compile {source : String} {program : Program}
    (h : compile source = .ok program) : program.height 0 ≤ 4 * Parser.maxNesting + 5 :=
  Stmt.maxHeight_le fun s hs => (built_of_compile h s hs).height_le (Nat.zero_le _)

def Expr.ones : Nat → Expr
  | 0 => .number 1
  | count + 1 => .binary .add (ones count) (.number 1)

namespace Expr

theorem height_ones (count : Nat) : (ones count).height 1 = count + 1 := by
  induction count with
  | zero => rfl
  | succ count ih =>
    rw [ones, height, ih, height]
    omega

theorem wellFormed_ones (count : Nat) : (ones count).wellFormed = true := by
  induction count with
  | zero => decide
  | succ count ih =>
    rw [ones, wellFormed, ih]
    decide

theorem nesting_ones (count : Nat) : (ones count).nesting = 0 := by
  induction count with
  | zero => rfl
  | succ count ih =>
    have hleft : decide ((ones count).strength < Operator.add.precedence) = false := by
      cases count <;> rfl
    have hone : (number 1).nesting = 0 := by rfl
    rw [ones, nesting, ih, hone, hleft]
    rfl

end Expr

def onesText (count : Nat) : String :=
  String.ofList ('1' :: (List.replicate count [' ', '+', ' ', '1']).flatten)

theorem onesText_succ (count : Nat) : onesText (count + 1) = onesText count ++ " + 1" := by
  rw [onesText, List.replicate_succ', List.flatten_append, List.flatten_singleton,
    ← List.cons_append, String.ofList_append]
  rfl

theorem Expr.write_ones (count : Nat) : (ones count).write 0 {} = { out := onesText count } := by
  induction count with
  | zero => decide +kernel
  | succ count ih =>
    have hleft : decide ((ones count).strength < Operator.add.precedence) = false := by
      cases count <;> rfl
    have hone (p : Pen) : write 0 (.number 1) p = p.write "1" := by
      rw [write, show Decimal.text 1 = "1" by decide +kernel]
    rw [ones, write, hleft, onesText_succ]
    simp only [Pen.group, Bool.false_eq_true, if_false, hone, ih]
    exact congrArg (fun out => ({ out := out } : Pen)) (String.append_assoc ..)

theorem printAll_ones (count : Nat) : Stmt.printAll [.expr (Expr.ones count)] = onesText count := by
  change ((Expr.ones count).write 0 {}).out = _
  rw [Expr.write_ones]

/-- Each token is one byte long and stands at an even offset, so none of them crosses the limit. -/
theorem Line.scan_ones_ne_crash {line column offset : Nat} (heven : offset % 2 = 0) (count : Nat) :
    scan line column offset ('1' :: (List.replicate count [' ', '+', ' ', '1']).flatten) ≠
      .error .crash := by
  have hone {kind : Kind} {text : List Char} {column start : Nat} (hstart : start % 2 = 0) :
      (Stretch.token kind text).tokens line column start (start + 1) ≠ .error .crash := by
    apply Stretch.tokens_ne_crash
    unfold Span.limit
    omega
  have hgap {column start stop : Nat} :
      Stretch.gap.tokens line column start stop ≠ .error .crash := by
    rintro ⟨⟩
  induction count generalizing column offset with
  | zero =>
    refine @scan_ne_crash_of_munch _ _ _ (offset + 1) _ _ _ 0 rfl rfl (hone heven) ?_
    exact scan_nil_ne_crash line _ _
  | succ count ih =>
    rw [List.replicate_succ, List.flatten_cons]
    refine @scan_ne_crash_of_munch _ _ _ (offset + 1) _ _ _ 0 rfl rfl (hone heven) ?_
    refine @scan_ne_crash_of_munch _ _ _ (offset + 2) _ _ .gap 0 rfl rfl hgap ?_
    refine @scan_ne_crash_of_munch _ _ _ (offset + 3) _ _ _ 0 rfl rfl (hone (by omega)) ?_
    refine @scan_ne_crash_of_munch _ _ _ (offset + 4) _ _ .gap 0 rfl rfl hgap ?_
    exact ih (by omega)

theorem compile_ones (count : Nat) :
    compile (Stmt.printAll [.expr (Expr.ones count)]) = .ok ⟨[.expr (Expr.ones count)]⟩ := by
  have hwf : Stmt.allWellFormed [.expr (Expr.ones count)] = true := by
    rw [Stmt.allWellFormed, Stmt.wellFormed, Expr.wellFormed_ones]
    rfl
  have hnesting : Stmt.maxNesting [.expr (Expr.ones count)] = 0 := by
    rw [Stmt.maxNesting, Stmt.nesting, Expr.nesting_ones]
    rfl
  have hsafe : Token.ofSource (Stmt.printAll [.expr (Expr.ones count)]) ≠ .error .crash := by
    rw [printAll_ones]
    apply Token.ofSource_line_ne_crash <;> rw [onesText, String.toList_ofList]
    · simp
    · exact Line.scan_ones_ne_crash rfl count
  have hcompile := compile_printAll false (List.cons_ne_nil _ _) hwf (hnesting ▸ Nat.zero_le _)
  simp only [Bool.false_eq_true, if_false, String.append_empty] at hcompile
  exact hcompile hsafe

theorem height_of_compile_ones :
    compile (Stmt.printAll [.expr (Expr.ones 1000)]) = .ok ⟨[.expr (Expr.ones 1000)]⟩ ∧
      Program.height ⟨[.expr (Expr.ones 1000)]⟩ 0 ≤ 4 * Parser.maxNesting + 5 :=
  ⟨compile_ones 1000, height_of_compile (compile_ones 1000)⟩

/-- No bound holds for the heights of all programs that have a text. -/
theorem height_unbounded :
    ¬ ∃ bound, ∀ source program, compile source = .ok program → program.height ≤ bound := by
  rintro ⟨bound, hbound⟩
  have h := hbound _ _ (compile_ones bound)
  rw [Program.height, Stmt.maxHeight, Stmt.height, Expr.height_ones, Stmt.maxHeight] at h
  omega

end Splice
