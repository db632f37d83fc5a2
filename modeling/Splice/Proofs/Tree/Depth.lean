import Splice.Proofs.Compile.Leaves
import Splice.Proofs.Text.Indented

/-! Trees at a depth.  What is written at a depth is what is written at the outermost level, with
every line moved to the right: each stroke of a pen keeps two pens apart by the same number of
levels, the line that they owe included.  No line moves apart from its neighbours, since names and
texts hold no breaks of their own. -/
namespace Splice

def Expr.Unbroken (e : Expr) : Prop :=
  ∀ part : Expr, part.Within e → ∀ w ∈ part.names ++ part.texts, '\n' ∉ w.toList

/-- No name and no text in a block has a break, at any depth. -/
def Stmt.Unbroken (block : List Stmt) : Prop :=
  ∀ s : Stmt, s.Within block →
    (∀ w ∈ s.names ++ s.texts, '\n' ∉ w.toList) ∧ ∀ e ∈ s.exprs, e.Unbroken

namespace Expr.Unbroken

variable {e : Expr}

theorem words (h : e.Unbroken) : ∀ w ∈ e.names ++ e.texts, '\n' ∉ w.toList :=
  h e .self

theorem part (h : e.Unbroken) {part : Expr} (hpart : part ∈ e.parts) : part.Unbroken :=
  fun inner hinner => h inner (.inside hpart hinner)

end Expr.Unbroken

namespace Stmt.Unbroken

variable {block inner : List Stmt} {s : Stmt}

theorem mem (h : Unbroken block) (hs : s ∈ block) : Unbroken [s] :=
  fun t ht => h t (ht.mono fun _ hmem => List.mem_singleton.mp hmem ▸ hs)

theorem tail (h : Unbroken (s :: block)) : Unbroken block :=
  fun t ht => h t (ht.mono (List.subset_cons_self s block))

theorem inside (h : Unbroken [s]) (hinner : inner ∈ s.blocks) : Unbroken inner :=
  fun t ht => h t (.inside List.mem_cons_self hinner ht)

theorem words (h : Unbroken [s]) : ∀ w ∈ s.names ++ s.texts, '\n' ∉ w.toList :=
  (h s (.here List.mem_cons_self)).1

theorem expr (h : Unbroken [s]) {e : Expr} (he : e ∈ s.exprs) : e.Unbroken :=
  (h s (.here List.mem_cons_self)).2 e he

end Stmt.Unbroken

theorem IsName.unbroken {name : String} (h : IsName name) : '\n' ∉ name.toList := by
  have hstart : ¬ IsNameStart '\n' := by unfold IsNameStart; decide
  have hpart : ¬ IsNamePart '\n' := by
    rintro (h | h | h)
    · exact hstart h
    · exact absurd h (by decide)
    · exact absurd h (by decide)
  obtain ⟨⟨first, rest, hname, hfirst, hrest⟩, -⟩ := h
  rw [hname, List.mem_cons, not_or]
  exact ⟨fun heq => hstart (heq ▸ hfirst), fun hmem => hpart (hrest _ hmem)⟩

theorem Stmt.unbroken_of_wellFormed {block : List Stmt}
    (hwf : allWellFormed block Decimal.isLiteral = true) : Unbroken block := by
  intro s hs
  have hstmt := hs.wellFormed hwf
  have hplain := s.plain_of_wellFormed hstmt
  refine ⟨fun w hw => ?_, fun e he part hpart w hw => ?_⟩
  · rcases List.mem_append.mp hw with hname | htext
    · exact (hplain.names w hname).unbroken
    · exact (hplain.texts w htext).1
  · have hexpr := part.plain_of_wellFormed (hpart.wellFormed (s.wellFormed_of_mem_exprs hstmt he))
    rcases List.mem_append.mp hw with hname | htext
    · exact (hexpr.names w hname).unbroken
    · exact (hexpr.texts w htext).1

namespace Decimal

theorem mem_scaledText {d : Scaled} {c : Char} (h : c ∈ d.text) :
    Line.isWordPart c = true := by
  have hnumeral {n : Nat} {c : Char} (h : c ∈ numeral n) : Line.isWordPart c = true :=
    (Line.isDigit_class (isDigit_of_mem_numeral n c h)).2.2.2
  have hzeros {count : Nat} {c : Char} (h : c ∈ List.replicate count '0') :
      Line.isWordPart c = true := by
    rw [List.eq_of_mem_replicate h]
    rfl
  unfold Scaled.text at h
  split_ifs at h
  · rcases List.mem_append.mp h with h | h
    · exact hnumeral h
    · exact hzeros h
  · dsimp only at h
    rcases List.mem_append.mp h with h | h
    · rcases List.mem_append.mp (List.mem_of_mem_take h) with h | h
      · exact hzeros h
      · exact hnumeral h
    · rcases List.mem_cons.mp h with rfl | h
      · rfl
      · rcases List.mem_append.mp (List.mem_of_mem_drop h) with h | h
        · exact hzeros h
        · exact hnumeral h

theorem mem_signed {s : Float.Model.UnpackedFloat.Sign} {cs : List Char} {c : Char}
    (h : c ∈ signed s cs) : c = '-' ∨ c ∈ cs := by
  cases s with
  | positive => exact .inr h
  | negative => exact List.mem_cons.mp h

theorem mem_text {x : Float} {c : Char} (h : c ∈ (text x).toList) :
    c = '-' ∨ Line.isWordPart c = true := by
  rw [text, String.toList_ofList] at h
  split at h
  · exact .inr (List.all_eq_true.mp (by decide : ['N', 'a', 'N'].all Line.isWordPart = true) c h)
  · exact (mem_signed h).imp_right
      (List.all_eq_true.mp (by decide : ['i', 'n', 'f'].all Line.isWordPart = true) c)
  · exact (mem_signed h).imp_right
      (List.all_eq_true.mp (by decide : ['0'].all Line.isWordPart = true) c)
  · refine (mem_signed h).imp_right fun h => ?_
    unfold magnitudeText at h
    split at h
    · exact (Line.isDigit_class (isDigit_of_mem_numeral _ c h)).2.2.2
    · exact mem_scaledText h

end Decimal

theorem newline_notMem_number (x : Float) : '\n' ∉ (Decimal.text x).toList := by
  intro h
  rcases Decimal.mem_text h with h | h <;> cases h

theorem newline_notMem_quote {text : String} (h : '\n' ∉ text.toList) :
    '\n' ∉ (quote text).toList := by
  unfold quote
  split <;> simpa [String.toList_append] using h

theorem newline_notMem_signature {name : String} {params : List String}
    (h : ∀ w ∈ name :: params, '\n' ∉ w.toList) :
    '\n' ∉ (Stmt.signature name params).toList := by
  have hlist : ∀ params : List String, (∀ w ∈ params, '\n' ∉ w.toList) →
      '\n' ∉ (", ".intercalate params).toList := by
    intro params
    induction params with
    | nil => simp
    | cons first more ih =>
      intro h
      rw [List.forall_mem_cons] at h
      cases more with
      | nil => simpa using h.1
      | cons next more =>
        rw [String.intercalate_cons_cons]
        simpa [String.toList_append, h.1] using ih h.2
  rw [List.forall_mem_cons] at h
  simpa [Stmt.signature, String.toList_append, h.1] using hlist params h.2

/-- The text of `q` is some text and the text of `p` behind it, with each later line so many levels
deeper; the line that is owed is so many levels deeper too. -/
structure Pen.Apart (front : List Char) (levels : Nat) (p q : Pen) : Prop where
  out : q.out.toList = front ++ Text.indentBreaks (4 * levels) p.out.toList
  owed : q.owed = p.owed.map (· + levels)

namespace Pen.Apart

variable {front : List Char} {levels : Nat} {p q : Pen}

theorem freshLine (h : p.Apart front levels q) (depth : Nat) :
    (p.freshLine depth).Apart front levels (q.freshLine (depth + levels)) where
  out := by
    have htext (r : Pen) (k : Nat) :
        (r.freshLine k).out.toList = r.out.toList ++ '\n' :: List.replicate (4 * k) ' ' := by
      simp [Pen.freshLine, Pen.indentation, String.toList_append]
    have hline : Text.indentBreaks (4 * levels) ('\n' :: List.replicate (4 * depth) ' ') =
        '\n' :: List.replicate (4 * (depth + levels)) ' ' := by
      rw [Text.indentBreaks_break, Text.indentBreaks_line (Text.newline_notMem_spaces _),
        List.replicate_append_replicate, ← Nat.mul_add, Nat.add_comm]
    rw [htext, htext, h.out, Text.indentBreaks_append, hline, List.append_assoc]
  owed := rfl

theorem put (h : p.Apart front levels q) {text : String} (htext : '\n' ∉ text.toList) :
    Apart front levels { p with out := p.out ++ text } { q with out := q.out ++ text } where
  out := by
    dsimp only
    rw [String.toList_append, String.toList_append, h.out, Text.indentBreaks_append,
      Text.indentBreaks_line htext, List.append_assoc]
  owed := h.owed

theorem write (h : p.Apart front levels q) {text : String} (htext : '\n' ∉ text.toList) :
    (p.write text).Apart front levels (q.write text) := by
  have howed := h.owed
  unfold Pen.write
  cases hp : p.owed with
  | none =>
    rw [hp, Option.map_none] at howed
    have hput := h.put htext
    rw [hp, howed] at hput
    rw [howed]
    exact hput
  | some depth =>
    rw [hp, Option.map_some] at howed
    rw [howed]
    refine (h.freshLine depth).put ?_
    rw [Text.trimStart, String.toList_ofList]
    exact fun hmem => htext ((List.dropWhile_sublist _).mem hmem)

theorem group (h : p.Apart front levels q) {part part' : Pen → Pen} (parens : Bool)
    (hpart : ∀ {p q : Pen}, p.Apart front levels q →
      (part p).Apart front levels (part' q)) :
    (p.group parens part).Apart front levels (q.group parens part') := by
  unfold Pen.group
  cases parens with
  | false => exact hpart h
  | true => exact (hpart (h.write (by decide))).write (by decide)

theorem settle (h : p.Apart front levels q) : p.settle.Apart front levels q.settle :=
  ⟨h.out, rfl⟩

theorem owe (h : p.Apart front levels q) (depth : Nat) :
    Apart front levels { p with owed := some depth } { q with owed := some (depth + levels) } :=
  ⟨h.out, rfl⟩

end Pen.Apart

section

variable {front : List Char} {levels : Nat} {p q : Pen}

namespace Expr

mutual

theorem write_apart (depth : Nat) : ∀ e : Expr, e.Unbroken → ∀ {p q : Pen},
    p.Apart front levels q → (e.write depth p).Apart front levels (e.write (depth + levels) q)
  | .binary op left right, he, p, q, h => by
    have hleft := he.part List.mem_cons_self
    have hright := he.part (List.mem_cons_of_mem _ List.mem_cons_self)
    have hsign : '\n' ∉ (" " ++ op.symbol ++ " ").toList := by cases op <;> decide
    rw [write, write]
    exact ((h.group _ (write_apart depth left hleft)).write hsign).group _
      (write_apart depth right hright)
  | .name n, he, p, q, h => by
    rw [write, write]
    exact h.write (he.words n List.mem_cons_self)
  | .number value, _, p, q, h => by
    rw [write, write]
    exact h.write (newline_notMem_number value)
  | .text value, he, p, q, h => by
    rw [write, write]
    exact h.write (newline_notMem_quote (he.words value List.mem_cons_self))
  | .call callee args, he, p, q, h => by
    have hname := h.write (he.words callee List.mem_cons_self)
    rw [write, write]
    exact (writeArgs_apart depth true args (fun arg harg => he.part harg)
      (hname.write (by decide))).write (by decide)
  | .ui widget args [], he, p, q, h => by
    have hname := h.write (show '\n' ∉ widget.name.toList by cases widget <;> decide)
    rw [write, write]
    exact (writeArgs_apart depth true args (fun arg harg => he.part (List.mem_append_left _ harg))
      (hname.write (by decide))).write (by decide)
  | .ui widget args (child :: more), he, p, q, h => by
    have hname := h.write (show '\n' ∉ widget.name.toList by cases widget <;> decide)
    have hargs := writeArgs_apart depth true args
      (fun arg harg => he.part (List.mem_append_left _ harg))
      (hname.write (show '\n' ∉ "(".toList by decide))
    have hcolon := (hargs.write (show '\n' ∉ ")".toList by decide)).write
      (show '\n' ∉ ":".toList by decide)
    have hchildren := writeChildren_apart (depth + 1) (child :: more)
      (fun child hchild => he.part (List.mem_append_right _ hchild)) hcolon
    rw [Nat.add_right_comm] at hchildren
    rw [write, write]
    exact hchildren.owe depth

theorem writeArgs_apart (depth : Nat) (first : Bool) : ∀ es : List Expr,
    (∀ e ∈ es, e.Unbroken) → ∀ {p q : Pen}, p.Apart front levels q →
      (writeArgs depth first es p).Apart front levels (writeArgs (depth + levels) first es q)
  | [], _, p, q, h => h
  | e :: es, hes, p, q, h => by
    rw [List.forall_mem_cons] at hes
    have hcomma : Pen.Apart front levels (if first then p else p.write ", ")
        (if first then q else q.write ", ") := by
      split
      · exact h
      · exact h.write (by decide)
    rw [writeArgs, writeArgs]
    exact writeArgs_apart depth false es hes.2 (write_apart depth e hes.1 hcomma)

theorem writeChildren_apart (depth : Nat) : ∀ es : List Expr, (∀ e ∈ es, e.Unbroken) →
    ∀ {p q : Pen}, p.Apart front levels q →
      (writeChildren depth es p).Apart front levels (writeChildren (depth + levels) es q)
  | [], _, p, q, h => h
  | e :: es, hes, p, q, h => by
    rw [List.forall_mem_cons] at hes
    rw [writeChildren, writeChildren]
    exact writeChildren_apart depth es hes.2 (write_apart depth e hes.1 (h.freshLine depth))

end

theorem writeTest_apart (depth : Nat) (e : Expr) (he : e.Unbroken) (h : p.Apart front levels q) :
    (e.writeTest depth p).Apart front levels (e.writeTest (depth + levels) q) :=
  h.group _ (e.write_apart depth he)

end Expr

namespace Stmt

theorem writeInstruction_apart {instruction : Option String}
    (hwords : ∀ w ∈ instruction, '\n' ∉ w.toList) (h : p.Apart front levels q) :
    (writeInstruction instruction p).Apart front levels (writeInstruction instruction q) := by
  cases instruction with
  | none => exact h
  | some text => exact (h.write (by decide)).write (newline_notMem_quote (hwords text rfl))

mutual

theorem write_apart (depth : Nat) (s : Stmt) (hs : Unbroken [s]) {p q : Pen}
    (h : p.Apart front levels q) :
    (s.write depth p).Apart front levels (s.write (depth + levels) q) := by
  have hwords := hs.words
  match s with
  | .function name params body =>
    have hsignature : '\n' ∉ (signature name params).toList :=
      newline_notMem_signature fun w hw => hwords w (List.mem_append_left _ hw)
    rw [write, write]
    refine writeBlock_apart depth body (hs.inside List.mem_cons_self) (h.write ?_)
    simpa [String.toList_append] using hsignature
  | .binding name none =>
    rw [write, write]
    refine h.write ?_
    simpa [String.toList_append] using hwords name List.mem_cons_self
  | .binding name (some init) =>
    have hname : '\n' ∉ ("var " ++ name).toList := by
      simpa [String.toList_append] using hwords name List.mem_cons_self
    rw [write, write]
    exact init.write_apart depth (hs.expr List.mem_cons_self) ((h.write hname).write (by decide))
  | .branch test yes none =>
    have htest := test.writeTest_apart depth (hs.expr List.mem_cons_self)
      (h.write (show '\n' ∉ "if ".toList by decide))
    rw [write, write]
    exact writeBlock_apart depth yes (hs.inside List.mem_cons_self) (htest.write (by decide))
  | .branch test yes (some no) =>
    have htest := test.writeTest_apart depth (hs.expr List.mem_cons_self)
      (h.write (show '\n' ∉ "if ".toList by decide))
    have hyes := writeBlock_apart depth yes (hs.inside List.mem_cons_self)
      (htest.write (show '\n' ∉ ":".toList by decide))
    rw [write, write]
    exact writeBlock_apart depth no (hs.inside (List.mem_cons_of_mem _ List.mem_cons_self))
      ((hyes.freshLine depth).write (by decide))
  | .loop test body =>
    have htest := test.writeTest_apart depth (hs.expr List.mem_cons_self)
      (h.write (show '\n' ∉ "while ".toList by decide))
    rw [write, write]
    exact writeBlock_apart depth body (hs.inside List.mem_cons_self) (htest.write (by decide))
  | .ret none =>
    rw [write, write]
    exact h.write (by decide)
  | .ret (some value) =>
    rw [write, write]
    exact value.write_apart depth (hs.expr List.mem_cons_self)
      ((h.write (by decide)).write (by decide))
  | .expr e =>
    rw [write, write]
    exact e.write_apart depth (hs.expr List.mem_cons_self) h
  | .generate name params description =>
    have hsignature : '\n' ∉ (signature name params).toList :=
      newline_notMem_signature fun w hw => hwords w (List.mem_append_left _ hw)
    have hquote := newline_notMem_quote
      (hwords description (List.mem_append_right _ List.mem_cons_self))
    rw [write, write]
    refine h.write ?_
    simpa [String.toList_append, hsignature] using hquote
  | .optimize body =>
    rw [write, write]
    exact writeBlock_apart depth body (hs.inside List.mem_cons_self) (h.write (by decide))
  | .ask instruction none =>
    rw [write, write]
    refine writeInstruction_apart (fun w hw => ?_) (h.write (by decide))
    obtain rfl := hw
    exact hwords w List.mem_cons_self
  | .ask instruction (some body) =>
    have hinstruction : ∀ w ∈ instruction, '\n' ∉ w.toList := by
      rintro w ⟨⟩
      exact hwords w List.mem_cons_self
    rw [write, write]
    exact writeBlock_apart depth body (hs.inside List.mem_cons_self)
      ((writeInstruction_apart hinstruction (h.write (by decide))).write (by decide))
  | .load library =>
    have hlibrary := hwords library List.mem_cons_self
    rw [write, write]
    refine (h.write (by decide)).write ?_
    split
    · exact hlibrary
    · exact newline_notMem_quote hlibrary
  | .search query =>
    rw [write, write]
    exact (h.write (by decide)).write (newline_notMem_quote (hwords query List.mem_cons_self))
  | .inspect target =>
    rw [write, write]
    exact target.write_apart depth (hs.expr List.mem_cons_self) (h.write (by decide))

theorem writeBlock_apart (depth : Nat) (ss : List Stmt) (hss : Unbroken ss) {p q : Pen}
    (h : p.Apart front levels q) :
    (writeBlock depth ss p).Apart front levels (writeBlock (depth + levels) ss q) := by
  match ss with
  | [] => exact h
  | s :: ss =>
    have hline := h.freshLine (depth + 1)
    have hfirst := write_apart (depth + 1) s (hss.mem List.mem_cons_self) hline
    rw [Nat.add_right_comm] at hfirst
    rw [writeBlock, writeBlock]
    exact writeBlock_apart depth ss hss.tail hfirst.settle

end

/-- A statement at a depth is the statement at the outermost level, moved to the right. -/
theorem print_eq_indent {s : Stmt} (hs : Unbroken [s]) (depth : Nat) :
    s.print depth = Text.indent (4 * depth) (s.print 0) := by
  have hstart : Pen.Apart (List.replicate (4 * depth) ' ') depth
      { out := Pen.indentation 0 } { out := Pen.indentation depth } := by
    refine ⟨?_, rfl⟩
    simp [Pen.indentation, Text.indentBreaks]
  have hwritten := (s.write_apart 0 hs hstart).out
  rw [Nat.zero_add] at hwritten
  rw [← String.toList_inj, print, hwritten, Text.indent, String.toList_append, Text.toList_spaces,
    String.toList_ofList]
  rfl

/-- What a pen has written before does not matter for the text of a statement. -/
theorem write_behind {s : Stmt} (hs : Unbroken [s]) (depth : Nat) (before : String) :
    (s.write depth { out := before ++ Pen.indentation depth }).out = before ++ s.print depth := by
  have hstart : Pen.Apart before.toList 0 { out := Pen.indentation depth }
      { out := before ++ Pen.indentation depth } := by
    refine ⟨?_, rfl⟩
    rw [Text.indentBreaks_zero, String.toList_append]
  have hwritten := (s.write_apart depth hs hstart).out
  rw [Text.indentBreaks_zero] at hwritten
  rw [← String.toList_inj, String.toList_append]
  exact hwritten

end Stmt

end

end Splice
