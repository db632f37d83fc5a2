import Splice.Proofs.Tree.Depth

/-! The lines of blocks.  A block stands on lines of its own, so in the text of a statement the
lines of each block inside it follow each other, at the depth at which the block stands.  A text of
names that begin at the margin begins there itself; what the lines of a block have in common is
then the indentation of their depth and no more. -/
namespace Splice

namespace Stmt

def blockLines (depth : Nat) (block : List Stmt) : List String :=
  block.flatMap fun s => Text.lines (s.print depth)

variable {s t : Stmt} {block inner ss : List Stmt}

theorem lines_print (hs : Unbroken [s]) (depth : Nat) :
    Text.lines (s.print depth) = (Text.lines (s.print 0)).map (Pen.indentation depth ++ ·) := by
  rw [print_eq_indent hs, Text.lines_indent]
  rfl

theorem blockLines_moved (hblock : Unbroken block) (depth : Nat) :
    blockLines depth block = (blockLines 0 block).map (Pen.indentation depth ++ ·) := by
  induction block with
  | nil => rfl
  | cons s ss ih =>
    have hfirst := lines_print (hblock.mem List.mem_cons_self) depth
    unfold blockLines at ih ⊢
    rw [List.flatMap_cons, List.flatMap_cons, List.map_append, hfirst, ih hblock.tail]

theorem lines_printAll (hne : block ≠ []) :
    Text.lines (printAll block) = blockLines 0 block := by
  induction block with
  | nil => exact absurd rfl hne
  | cons s ss ih =>
    cases ss with
    | nil => simp [printAll, blockLines]
    | cons next ss =>
      have hcons : printAll (s :: next :: ss) = s.print 0 ++ "\n" ++ printAll (next :: ss) :=
        String.intercalate_cons_cons
      rw [hcons, Text.lines_break, ih (List.cons_ne_nil next ss)]
      rfl

theorem intercalate_blockLines (block : List Stmt) :
    "\n".intercalate (blockLines 0 block) = printAll block := by
  cases block with
  | nil => rfl
  | cons s ss => rw [← lines_printAll (List.cons_ne_nil s ss), Text.intercalate_lines]

theorem lines_writeBlock (depth : Nat) (hss : Unbroken ss) (p : Pen) :
    Text.lines (writeBlock depth ss p).out = Text.lines p.out ++ blockLines (depth + 1) ss := by
  induction ss generalizing p with
  | nil => simp [writeBlock, blockLines]
  | cons s ss ih =>
    have hfirst := write_behind (hss.mem List.mem_cons_self) (depth + 1) (p.out ++ "\n")
    have hline : Text.lines (s.write (depth + 1) (p.freshLine (depth + 1))).settle.out =
        Text.lines p.out ++ Text.lines (s.print (depth + 1)) := by
      rw [← Text.lines_break, ← hfirst]
      rfl
    rw [writeBlock, ih hss.tail, hline, List.append_assoc]
    rfl

theorem blockLines_isInfixOf (hs : Unbroken [s]) (hinner : inner ∈ s.blocks) (depth : Nat) :
    blockLines (depth + 1) inner <:+: Text.lines (s.print depth) := by
  have hlast {body : List Stmt} {p : Pen} (hbody : Unbroken body) :
      blockLines (depth + 1) body <:+: Text.lines (writeBlock depth body p).out := by
    rw [lines_writeBlock depth hbody]
    exact (List.suffix_append _ _).isInfix
  have hunbroken := hs.inside hinner
  match s with
  | .function _ _ body | .branch _ body none | .loop _ body | .optimize body
  | .ask _ (some body) =>
    obtain rfl := List.mem_singleton.mp hinner
    rw [print, write]
    exact hlast hunbroken
  | .branch test yes (some no) =>
    rw [print, write]
    rcases List.mem_cons.mp hinner with rfl | hinner
    · have helse (p : Pen) : Text.lines ((p.freshLine depth).write "else:").out =
          Text.lines p.out ++ Text.lines (Pen.indentation depth ++ "else:") := by
        rw [← Text.lines_break, ← String.append_assoc]
        rfl
      rw [lines_writeBlock depth (hs.inside (List.mem_cons_of_mem _ List.mem_cons_self)), helse]
      exact ((hlast hunbroken).trans (List.prefix_append _ _).isInfix).trans
        (List.prefix_append _ _).isInfix
    · obtain rfl := List.mem_singleton.mp hinner
      exact hlast hunbroken

/-- A statement stands so many levels inside a block. -/
inductive StandsAt (s : Stmt) : Nat → List Stmt → Prop where
  | here {block : List Stmt} (hmem : s ∈ block) : StandsAt s 0 block
  | inside {level : Nat} {block inner : List Stmt} {outer : Stmt} (hmem : outer ∈ block)
      (hinner : inner ∈ outer.blocks) (h : StandsAt s level inner) : StandsAt s (level + 1) block

theorem lines_isInfixOf_of_mem (hs : s ∈ block) (depth : Nat) :
    Text.lines (s.print depth) <:+: blockLines depth block := by
  obtain ⟨before, after, rfl⟩ := List.append_of_mem hs
  exact ⟨blockLines depth before, blockLines depth after, by simp [blockLines]⟩

theorem StandsAt.unbroken {level : Nat} (h : s.StandsAt level block) (hblock : Unbroken block) :
    Unbroken [s] := by
  induction h with
  | here hmem => exact hblock.mem hmem
  | inside hmem hinner _ ih => exact ih ((hblock.mem hmem).inside hinner)

theorem StandsAt.lines_isInfixOf {level : Nat} (h : s.StandsAt level block)
    (hblock : Unbroken block) (depth : Nat) :
    Text.lines (s.print (depth + level)) <:+: blockLines depth block := by
  induction h generalizing depth with
  | here hmem => exact lines_isInfixOf_of_mem hmem depth
  | inside hmem hinner _ ih =>
    have houter := hblock.mem hmem
    have hdeeper := ih (houter.inside hinner) (depth + 1)
    rw [Nat.add_right_comm, Nat.add_assoc] at hdeeper
    exact (hdeeper.trans (blockLines_isInfixOf houter hinner depth)).trans
      (lines_isInfixOf_of_mem hmem depth)

end Stmt

/-- A text that is not empty and does not begin with a space. -/
def Text.Flush (text : String) : Prop :=
  ∃ c cs, text.toList = c :: cs ∧ c ≠ ' '

theorem Text.Flush.append {s : String} (h : Text.Flush s) (t : String) : Text.Flush (s ++ t) := by
  obtain ⟨c, cs, hs, hc⟩ := h
  exact ⟨c, cs ++ t.toList, by rw [String.toList_append, hs, List.cons_append], hc⟩

theorem Text.Flush.margin_head {text : String} (h : Text.Flush text) :
    ∀ line ∈ (Text.lines text).head?, Text.margin line = 0 := by
  obtain ⟨c, cs, htext, hc⟩ := h
  rintro line ⟨⟩
  rw [Text.margin, String.toList_ofList]
  cases hline : (Text.cut text.toList).1 with
  | nil => rfl
  | cons d ds =>
    have hhead := Text.head?_cut (by rw [hline]; rfl)
    rw [htext] at hhead
    cases hhead
    rw [List.takeWhile_cons_of_neg (by simpa using hc)]
    rfl

theorem IsName.flush {name : String} (h : IsName name) : Text.Flush name := by
  obtain ⟨⟨first, rest, hname, hfirst, -⟩, -⟩ := h
  refine ⟨first, rest, hname, ?_⟩
  rintro rfl
  unfold IsNameStart at hfirst
  revert hfirst
  decide

namespace Decimal

theorem signed_ne_nil {cs : List Char} (h : cs ≠ []) (s : Float.Model.UnpackedFloat.Sign) :
    signed s cs ≠ [] := by
  cases s with
  | positive => exact h
  | negative => exact List.cons_ne_nil _ _

theorem magnitudeText_ne_nil (m : Nat) (e : Int) : magnitudeText m e ≠ [] := by
  unfold magnitudeText
  split
  · exact numeral_ne_nil _
  · unfold Scaled.text
    split_ifs
    · exact List.append_ne_nil_of_left_ne_nil (numeral_ne_nil _) _
    · exact List.append_ne_nil_of_right_ne_nil _ (List.cons_ne_nil _ _)

theorem toList_text_ne_nil (x : Float) : (text x).toList ≠ [] := by
  rw [text, String.toList_ofList]
  split
  · exact List.cons_ne_nil _ _
  · exact signed_ne_nil (List.cons_ne_nil _ _) _
  · exact signed_ne_nil (List.cons_ne_nil _ _) _
  · exact signed_ne_nil (magnitudeText_ne_nil _ _) _

end Decimal

theorem flush_number (x : Float) : Text.Flush (Decimal.text x) := by
  cases htext : (Decimal.text x).toList with
  | nil => exact absurd htext (Decimal.toList_text_ne_nil x)
  | cons c cs =>
    refine ⟨c, cs, htext, ?_⟩
    rintro rfl
    have hspace : ' ' ∈ (Decimal.text x).toList := htext ▸ List.mem_cons_self
    rcases Decimal.mem_text hspace with h | h <;> cases h

theorem flush_quote (text : String) : Text.Flush (quote text) := by
  unfold quote
  split
  · have hquote : Text.Flush "'" := ⟨'\'', [], rfl, by decide⟩
    exact (hquote.append text).append "'"
  · have hquote : Text.Flush "\"" := ⟨'"', [], rfl, by decide⟩
    exact (hquote.append text).append "\""

theorem flush_widget (widget : Widget) : Text.Flush widget.name := by
  cases widget <;> exact ⟨_, _, rfl, by decide⟩

def Expr.NamesFlush (e : Expr) : Prop :=
  ∀ part : Expr, part.Within e → ∀ n ∈ part.names, Text.Flush n

def Stmt.NamesFlush (block : List Stmt) : Prop :=
  ∀ s : Stmt, s.Within block → ∀ e ∈ s.exprs, e.NamesFlush

theorem Stmt.namesFlush_of_wellFormed {block : List Stmt}
    (hwf : allWellFormed block Decimal.isLiteral = true) : NamesFlush block := by
  intro s hs e he part hpart n hn
  have hexpr := s.wellFormed_of_mem_exprs (hs.wellFormed hwf) he
  exact ((part.plain_of_wellFormed (hpart.wellFormed hexpr)).names n hn).flush

def Pen.Flush (p : Pen) : Prop :=
  Text.Flush p.out

namespace Pen.Flush

variable {p : Pen}

theorem start {text : String} (h : Text.Flush text) : (write {} text).Flush := by
  obtain ⟨c, cs, htext, hc⟩ := h
  exact ⟨c, cs, by rw [← htext]; simp [write], hc⟩

theorem stroke (h : p.Flush) {f : Pen → Pen}
    (hf : ∀ {q r : Pen}, q.Apart p.out.toList 0 r → (f q).Apart p.out.toList 0 (f r)) :
    (f p).Flush := by
  obtain ⟨c, cs, hp, hc⟩ := h
  have hstart : Apart p.out.toList 0 { owed := p.owed } p :=
    ⟨by simp [Text.indentBreaks], by cases p.owed <;> rfl⟩
  exact ⟨c, _, by rw [(hf hstart).out, hp, List.cons_append], hc⟩

theorem write (h : p.Flush) {text : String} (htext : '\n' ∉ text.toList) :
    (p.write text).Flush :=
  h.stroke fun hqr => hqr.write htext

theorem freshLine (h : p.Flush) (depth : Nat) : (p.freshLine depth).Flush :=
  h.stroke fun hqr => hqr.freshLine depth

theorem expr (h : p.Flush) {e : Expr} (he : e.Unbroken) (depth : Nat) :
    (e.write depth p).Flush :=
  h.stroke fun hqr => e.write_apart depth he hqr

theorem group (h : p.Flush) {e : Expr} (he : e.Unbroken) (depth : Nat) (parens : Bool) :
    (p.group parens (e.write depth)).Flush :=
  h.stroke fun hqr => hqr.group parens (e.write_apart depth he)

theorem test (h : p.Flush) {e : Expr} (he : e.Unbroken) (depth : Nat) :
    (e.writeTest depth p).Flush :=
  h.group he depth _

theorem args (h : p.Flush) {es : List Expr} (hes : ∀ e ∈ es, e.Unbroken) (depth : Nat)
    (first : Bool) : (Expr.writeArgs depth first es p).Flush :=
  h.stroke fun hqr => Expr.writeArgs_apart depth first es hes hqr

theorem children (h : p.Flush) {es : List Expr} (hes : ∀ e ∈ es, e.Unbroken) (depth : Nat) :
    (Expr.writeChildren depth es p).Flush :=
  h.stroke fun hqr => Expr.writeChildren_apart depth es hes hqr

theorem block (h : p.Flush) {ss : List Stmt} (hss : Stmt.Unbroken ss) (depth : Nat) :
    (Stmt.writeBlock depth ss p).Flush :=
  h.stroke fun hqr => Stmt.writeBlock_apart depth ss hss hqr

theorem instruction (h : p.Flush) {instruction : Option String}
    (hwords : ∀ w ∈ instruction, '\n' ∉ w.toList) :
    (Stmt.writeInstruction instruction p).Flush :=
  h.stroke fun hqr => Stmt.writeInstruction_apart hwords hqr

end Pen.Flush

theorem Expr.flush_group {e : Expr} (he : e.Unbroken) (depth : Nat) (parens : Bool)
    (h : (e.write depth {}).Flush) : (Pen.group {} parens (e.write depth)).Flush := by
  cases parens with
  | false => exact h
  | true => exact ((Pen.Flush.start ⟨'(', [], rfl, by decide⟩).expr he depth).write (by decide)

theorem Expr.flush_call {callee : String} {args : List Expr} (hcallee : Text.Flush callee)
    (hargs : ∀ arg ∈ args, arg.Unbroken) (depth : Nat) :
    ((writeArgs depth true args ((Pen.write {} callee).write "(")).write ")").Flush :=
  (((Pen.Flush.start hcallee).write (by decide)).args hargs depth true).write (by decide)

theorem Expr.flush_write (depth : Nat) : ∀ e : Expr, e.Unbroken → e.NamesFlush →
    (e.write depth {}).Flush
  | .binary op left right, he, hn => by
    have hleft := he.part List.mem_cons_self
    have hright := he.part (List.mem_cons_of_mem _ List.mem_cons_self)
    have hsign : '\n' ∉ (" " ++ op.symbol ++ " ").toList := by cases op <;> decide
    have hfirst := left.flush_write depth hleft fun part hpart =>
      hn part (.inside List.mem_cons_self hpart)
    rw [write]
    exact ((flush_group hleft depth _ hfirst).write hsign).group hright depth _
  | .name n, _, hn => by
    rw [write]
    exact .start (hn _ .self n List.mem_cons_self)
  | .number value, _, _ => by
    rw [write]
    exact .start (flush_number value)
  | .text value, _, _ => by
    rw [write]
    exact .start (flush_quote value)
  | .call callee args, he, hn => by
    rw [write]
    exact flush_call (hn _ .self callee List.mem_cons_self) (fun arg harg => he.part harg) depth
  | .ui widget args [], he, _ => by
    rw [write]
    exact flush_call (flush_widget widget) (fun arg harg => he.part (List.mem_append_left _ harg))
      depth
  | .ui widget args (child :: more), he, _ => by
    have hcall := flush_call (flush_widget widget)
      (fun arg harg => he.part (List.mem_append_left _ harg)) depth
    have hchildren := (hcall.write (show '\n' ∉ ":".toList by decide)).children
      (fun child hchild => he.part (List.mem_append_right _ hchild)) (depth + 1)
    rw [write]
    exact hchildren

namespace Stmt

theorem flush_write {s : Stmt} (hs : Unbroken [s]) (hn : NamesFlush [s]) (depth : Nat) :
    (s.write depth {}).Flush := by
  have hwords := hs.words
  match s with
  | .function name params body =>
    have hword : Text.Flush "fn " := ⟨_, _, rfl, by decide⟩
    rw [write]
    exact (Pen.Flush.start ((hword.append _).append _)).block (hs.inside List.mem_cons_self) depth
  | .binding name none =>
    have hword : Text.Flush "var " := ⟨_, _, rfl, by decide⟩
    rw [write]
    exact .start (hword.append name)
  | .binding name (some init) =>
    have hword : Text.Flush "var " := ⟨_, _, rfl, by decide⟩
    rw [write]
    exact ((Pen.Flush.start (hword.append name)).write (by decide)).expr
      (hs.expr List.mem_cons_self) depth
  | .branch test yes none =>
    have hword : Text.Flush "if " := ⟨_, _, rfl, by decide⟩
    have htest := (Pen.Flush.start hword).test (hs.expr List.mem_cons_self) depth
    rw [write]
    exact (htest.write (by decide)).block (hs.inside List.mem_cons_self) depth
  | .branch test yes (some no) =>
    have hword : Text.Flush "if " := ⟨_, _, rfl, by decide⟩
    have htest := (Pen.Flush.start hword).test (hs.expr List.mem_cons_self) depth
    have hyes := (htest.write (show '\n' ∉ ":".toList by decide)).block
      (hs.inside List.mem_cons_self) depth
    rw [write]
    exact ((hyes.freshLine depth).write (by decide)).block
      (hs.inside (List.mem_cons_of_mem _ List.mem_cons_self)) depth
  | .loop test body =>
    have hword : Text.Flush "while " := ⟨_, _, rfl, by decide⟩
    have htest := (Pen.Flush.start hword).test (hs.expr List.mem_cons_self) depth
    rw [write]
    exact (htest.write (by decide)).block (hs.inside List.mem_cons_self) depth
  | .ret none =>
    rw [write]
    exact .start ⟨_, _, rfl, by decide⟩
  | .ret (some value) =>
    have hword : Text.Flush "return" := ⟨_, _, rfl, by decide⟩
    rw [write]
    exact ((Pen.Flush.start hword).write (by decide)).expr (hs.expr List.mem_cons_self) depth
  | .expr e =>
    rw [write]
    exact e.flush_write depth (hs.expr List.mem_cons_self)
      (hn _ (.here List.mem_cons_self) e List.mem_cons_self)
  | .generate name params description =>
    have hword : Text.Flush "generate fn " := ⟨_, _, rfl, by decide⟩
    rw [write]
    exact .start (((hword.append _).append _).append _)
  | .optimize body =>
    have hword : Text.Flush "ai.optimize:" := ⟨_, _, rfl, by decide⟩
    rw [write]
    exact (Pen.Flush.start hword).block (hs.inside List.mem_cons_self) depth
  | .ask instruction none =>
    have hword : Text.Flush "ai" := ⟨_, _, rfl, by decide⟩
    rw [write]
    refine (Pen.Flush.start hword).instruction ?_
    rintro w ⟨⟩
    exact hwords w List.mem_cons_self
  | .ask instruction (some body) =>
    have hword : Text.Flush "ai" := ⟨_, _, rfl, by decide⟩
    have hinstruction : ∀ w ∈ instruction, '\n' ∉ w.toList := by
      rintro w ⟨⟩
      exact hwords w List.mem_cons_self
    rw [write]
    exact (((Pen.Flush.start hword).instruction hinstruction).write (by decide)).block
      (hs.inside List.mem_cons_self) depth
  | .load library =>
    have hword : Text.Flush "ai.import " := ⟨_, _, rfl, by decide⟩
    have hlibrary := hwords library List.mem_cons_self
    rw [write]
    refine (Pen.Flush.start hword).write ?_
    split
    · exact hlibrary
    · exact newline_notMem_quote hlibrary
  | .search query =>
    have hword : Text.Flush "ai.search " := ⟨_, _, rfl, by decide⟩
    rw [write]
    exact (Pen.Flush.start hword).write (newline_notMem_quote (hwords query List.mem_cons_self))
  | .inspect target =>
    have hword : Text.Flush "ai.inspect " := ⟨_, _, rfl, by decide⟩
    rw [write]
    exact (Pen.Flush.start hword).expr (hs.expr List.mem_cons_self) depth

/-- The indentation that the lines of a block have in common is that of its depth. -/
theorem dedent_blockLines {block : List Stmt} (hblock : Unbroken block) (hn : NamesFlush block)
    (depth : Nat) : Text.dedent (blockLines depth block) = blockLines 0 block := by
  rw [blockLines_moved hblock]
  refine Text.dedent_spaces ?_ (4 * depth)
  cases block with
  | nil => rintro line ⟨⟩
  | cons s ss =>
    have hfirst : NamesFlush [s] := fun t ht =>
      hn t (ht.mono fun _ hmem => List.mem_singleton.mp hmem ▸ List.mem_cons_self)
    exact (flush_write (hblock.mem List.mem_cons_self) hfirst 0).margin_head

end Stmt

end Splice
