import Splice.Compile
import Splice.Proofs.Tree.Fuel
import Splice.Proofs.Tree.Marks

/-! What a text compiles to.  Its program says what the text says; it is well formed, except that a
number with too many digits is infinite; and it is built inside the blocks and groups that may be
open. -/
namespace Splice

open Decimal (isLiteral)

theorem isPlainText_of_isPlainName {name : String} (h : isPlainName name = true) :
    isPlainText name = true := by
  have hpart {c : Char} (hc : c ∈ name.toList) :=
    Line.isWordPart_of_mem (Line.isWordText_of_isPlainName h).1 hc
  have hbreak : '\n' ∉ name.toList := fun hc => Bool.noConfusion (hpart hc)
  have hquote : '"' ∉ name.toList := fun hc => Bool.noConfusion (hpart hc)
  simp [isPlainText, hbreak, hquote]

theorem Word.isLiteral_of_isSpelled {text : String} (h : isSpelled (.number, text) = true)
    {value : Float} (hread : Decimal.read? text = some value) : isLiteral value = true := by
  have hdigits : (!text.toList.isEmpty && text.toList.all Char.isDigit) = true := h
  simp only [Bool.and_eq_true, Bool.not_eq_true', List.isEmpty_eq_false_iff,
    List.all_eq_true] at hdigits
  have hvalue := Decimal.read?_digits hdigits.1 hdigits.2
  rw [String.ofList_toList, hread] at hvalue
  cases hvalue
  exact Decimal.isLiteral_ofScientific _

namespace Parser

variable {α : Type} {n : Nat} {said : List Sense} {inside : Bool}

structure Rule.Ends (rule : Rule α) (s : Mark) (before : List Sense) (a : α) (t : Mark) : Prop where
  plain : t.isPlain = true
  depth : t.depth = s.depth
  said : t.said = before ++ rule.senses a
  makes : rule.Makes s a

@[simp] def start (n : Nat) (said : List Sense) (inside : Bool) : Mark :=
  ⟨n, said, none, inside, none⟩

theorem reaches_paramNames : Rule.paramNames.routine.Reaches (start n said inside)
    (Rule.paramNames.Ends (start n said inside) said) := by
  rw [Rule.routine]
  refine .expect Kind.noConfusion fun name hname => .accept Kind.noConfusion (fun _ _ => ?_) ?_
  · refine .call rfl rfl fun names hnames => .pure ⟨rfl, rfl, ?_, List.cons_ne_nil _ _, ?_⟩
    · simp [Rule.senses, Word.reading, Word.sense, Sense.names_cons, hnames.1]
    · rw [List.all_cons, Bool.and_eq_true]
      exact ⟨hname, hnames.2⟩
  · refine .pure ⟨rfl, rfl, rfl, List.cons_ne_nil _ _, ?_⟩
    rw [List.all_cons, Bool.and_eq_true]
    exact ⟨hname, rfl⟩

theorem reaches_operation (level : Nat) : (Rule.operation level).routine.Reaches
    (start n said inside) ((Rule.operation level).Ends (start n said inside) said) := by
  rw [Rule.routine]
  split
  · exact .last rfl rfl fun e he => ⟨rfl, rfl, rfl, he level⟩
  · refine .call rfl rfl fun left hleft => ?_
    refine .last rfl ⟨rfl, hleft.weaken (Nat.le_succ level)⟩ fun e he => ⟨rfl, rfl, rfl, he⟩

theorem reaches_operands (level : Nat) {left : Expr} (hleft : left.Proper n level) :
    (Rule.operands level left).routine.Reaches (start n (said ++ left.senses) inside)
      ((Rule.operands level left).Ends (start n (said ++ left.senses) inside) said) := by
  rw [Rule.routine]
  refine .operator? (fun op text => ?_) (.pure ⟨rfl, rfl, rfl, hleft⟩)
  dsimp only
  split
  next hprec =>
    obtain rfl := hprec
    refine .advance rfl Kind.noConfusion fun _ => .call rfl rfl fun right hright => ?_
    refine .last rfl ⟨?_, .binary hleft hright⟩ fun e he => ⟨rfl, rfl, rfl, he⟩
    simp [Word.reading, Rule.senses, Expr.senses]
  next => exact .pure ⟨rfl, rfl, rfl, hleft⟩

theorem reaches_primary : Rule.primary.routine.Reaches (start n said inside)
    (Rule.primary.Ends (start n said inside) said) := by
  rw [Rule.routine]
  refine .kind fun next text _ => ?_
  split
  next =>
    refine .advance rfl Kind.noConfusion fun hspelled => ?_
    unfold Routine.number
    split
    next value hread =>
      have hliteral := Word.isLiteral_of_isSpelled hspelled hread
      refine .pure ⟨rfl, rfl, ?_, fun _ => ⟨hliteral, .number⟩⟩
      simp [Rule.senses, Word.reading, Word.sense, Expr.senses, hread]
    next => exact .fail
  next =>
    refine .advance rfl Kind.noConfusion fun hspelled => ?_
    exact .pure ⟨rfl, rfl, rfl, fun _ => ⟨hspelled, .text⟩⟩
  next =>
    refine .advance rfl Kind.noConfusion fun hspelled => .isNext (fun _ => ?_) ?_
    · refine .call rfl rfl fun args hargs => .pure ⟨rfl, rfl, ?_, ?_⟩
      · simp [Rule.senses, Word.reading, Word.sense, Expr.senses]
      · exact fun _ => .call hspelled hargs.1 hargs.2
    · exact .pure ⟨rfl, rfl, rfl, fun _ => ⟨hspelled, .name⟩⟩
  next widget _ =>
    have hblock {s : Mark} {args : List Expr} (hplain : s.isPlain = true) (hdepth : s.depth = n)
        (hsaid : s.said = said ++ (Kind.widget widget).sense :: Sense.list (Expr.allSenses args))
        (hroom : args ≠ [] → n < maxNesting) (hargs : Expr.AllProper (n + 1) args) :
        Routine.Reaches
          (do if ← Step.accept .colon then return Expr.ui widget args (← Rule.children)
              else return Expr.ui widget args [])
          s (Rule.primary.Ends (start n said inside) said) := by
      refine .accept Kind.noConfusion (fun _ _ => .call rfl rfl fun children hchildren => ?_) ?_
      · obtain ⟨hne, hinside, hall⟩ := hchildren
        subst hdepth
        refine .pure ⟨rfl, rfl, ?_, fun _ => .ui (fun _ => hinside) hargs hall⟩
        -- The colon counts only with a child behind it, and there is one: no block is empty.
        rw [Rule.senses, Expr.senses, Sense.children_eq (Expr.allSenses_ne_nil hne)]
        simp [Rule.senses, Word.reading, hsaid]
      · refine .pure ⟨hplain, hdepth, ?_, fun _ => .ui (fun hne => hroom ?_) hargs .nil⟩
        · simp [hsaid, Rule.senses, Expr.senses, Sense.children, Expr.allSenses]
        · simpa using hne
    refine .advance rfl Kind.noConfusion fun _ => .isNext (fun _ => ?_) ?_
    · refine .call rfl rfl fun args hargs => hblock rfl rfl ?_ (fun _ => hargs.1) hargs.2
      simp [Rule.senses, Word.reading]
    · exact .pure_bind (hblock rfl rfl rfl (absurd rfl) .nil)
  next =>
    refine .enter fun hroom => .advance rfl Kind.noConfusion fun _ => ?_
    refine .call rfl rfl fun e he => .close Kind.noConfusion fun _ => ?_
    refine ⟨rfl, rfl, ?_, fun _ => .group hroom he⟩
    simp [Rule.senses, Word.reading]
  next => exact .fail

theorem reaches_arguments : Rule.arguments.routine.Reaches (start n said inside)
    (Rule.arguments.Ends (start n said inside) said) := by
  rw [Rule.routine]
  refine .enter fun hroom => .expect Kind.noConfusion fun _ _ => .isNext (fun _ => ?_) ?_
  · refine .pure_bind (.close Kind.noConfusion fun _ => ⟨rfl, rfl, ?_, hroom, .nil⟩)
    simp [Rule.senses, Word.reading, Sense.list, Expr.allSenses]
  · refine .call rfl rfl fun args hargs => .close Kind.noConfusion fun _ => ?_
    refine ⟨rfl, rfl, ?_, hroom, hargs.2⟩
    simp [Rule.senses, Word.reading]

theorem reaches_argumentList : Rule.argumentList.routine.Reaches (start n said inside)
    (Rule.argumentList.Ends (start n said inside) said) := by
  rw [Rule.routine]
  refine .call rfl rfl fun arg harg => .accept Kind.noConfusion (fun _ _ => ?_) ?_
  · refine .call rfl rfl fun args hargs => .pure ⟨rfl, rfl, ?_, List.cons_ne_nil _ _, ?_⟩
    · simp only [Rule.senses, Expr.allSenses, Sense.list_cons _ (Expr.allSenses_ne_nil hargs.1)]
      simp [Word.reading]
    · exact .cons harg hargs.2
  · refine .pure ⟨rfl, rfl, ?_, List.cons_ne_nil _ _, .cons harg .nil⟩
    simp [Rule.senses, Expr.allSenses, Sense.list, Sense.listTail]

theorem reaches_children : Rule.children.routine.Reaches (start n said inside)
    (Rule.children.Ends (start n said inside) said) := by
  rw [Rule.routine]
  refine .enter fun hroom => .openBlock (.call rfl rfl fun es hes => ?_)
  refine .close Kind.noConfusion fun _ => ⟨rfl, rfl, ?_, hes.1 rfl, hroom, hes.2⟩
  simp [Rule.senses, Word.reading, Sense.block]

theorem reaches_childList : Rule.childList.routine.Reaches (start n said inside)
    (Rule.childList.Ends (start n said inside) said) := by
  rw [Rule.routine]
  refine .skipNewlines rfl (.kind fun next _ hinside => ?_)
  split
  next hlast =>
    refine .pure ⟨rfl, rfl, ?_, fun hstart => ?_, .nil⟩
    · simp [Rule.senses, Expr.allSenses]
    · have hends := hinside hstart
      rcases hlast with rfl | rfl <;> cases hends
  next =>
    refine .call rfl rfl fun child hchild => .endStatement (.call rfl rfl fun more hmore => ?_)
    refine .pure ⟨rfl, rfl, ?_, fun _ => List.cons_ne_nil _ _, .cons hchild hmore.2⟩
    simp [Rule.senses, Expr.allSenses]

theorem reaches_params {s : Mark} {f : List String → Routine α} {goal : α → Mark → Prop}
    (h : ∀ names, names.all isPlainName = true → (f names).Reaches
      ⟨s.depth, s.said ++ Sense.names names, some .rightParen, false, none⟩ goal) :
    (Routine.params >>= f).Reaches s goal := by
  refine .bind (.expect Kind.noConfusion fun _ _ => .isNext (fun _ => ?_) ?_)
  · refine .pure_bind (.expect Kind.noConfusion fun _ _ => .pure ?_)
    simpa [Word.reading, Sense.names, Sense.list] using h [] rfl
  · refine .call rfl rfl fun names hnames => .expect Kind.noConfusion fun _ _ => .pure ?_
    simpa [Rule.senses, Word.reading] using h names hnames.2

theorem reaches_optionalText {s : Mark} {f : Option String → Routine α} {goal : α → Mark → Prop}
    (hplain : s.isPlain = true) (h : ∀ text t, text.all isPlainText = true → t.isPlain = true →
      t.depth = s.depth → t.said = s.said ++ Sense.instruction text → (f text).Reaches t goal) :
    (Routine.optionalText >>= f).Reaches s goal := by
  refine .bind (.isNext (fun text => ?_) (.pure ?_))
  · refine .advance rfl Kind.noConfusion fun hspelled => .pure ?_
    exact h (some text) _ hspelled rfl rfl rfl
  · exact h none _ rfl hplain rfl (List.append_nil _).symm

/-- The word for a function may be spelled in two ways behind the word for generating one. -/
theorem reaches_generated {s : Mark} (hdepth : s.depth = n)
    (hsaid : s.said = said ++ [(Kind.keyword .generate).sense])
    (hbehind : s.behind = some (.keyword .generate)) :
    Routine.generated.Reaches s (Rule.statementForm.Ends (start n said inside) said) := by
  refine .of_step trivial ?_
  rintro (_ | _) t ht
  · exact .fail
  obtain ⟨w, rfl, hw⟩ := ht
  have hread : s.read w = ⟨n, said ++ (Kind.keyword .generate).sense ::
      [(Kind.keyword .function).sense], some w.1, false, none⟩ := by
    obtain ⟨kind, text⟩ := w
    rcases hw with hw | hw <;> cases hw <;>
      simp [Word.reading, Word.sense, hbehind, hsaid, hdepth]
  have hend : w.1 ≠ .endOfInput := by
    rcases hw with hw | rfl
    · exact hw ▸ Kind.noConfusion
    · exact Kind.noConfusion
  have hcue : w.isCue = false := by
    rcases hw with hw | rfl
    · simp [Word.isCue, hw]
    · rfl
  refine .advance rfl hend fun _ => ?_
  change Routine.Reaches _ (s.read w) _
  rw [hread]
  refine .expect Kind.noConfusion fun name hname => reaches_params fun names hnames => ?_
  refine .expect Kind.noConfusion fun _ _ => .expect Kind.noConfusion fun _ _ => ?_
  refine .expect Kind.noConfusion fun description hdescription => .pure ⟨rfl, rfl, ?_, ?_⟩
  · have hsense : Word.sense (some w.1) (.ident, name) = .word .ident name :=
      Word.sense_of_not_cue hcue _
    simp [Word.reading, hsense, Rule.senses, Stmt.senses, Sense.heading]
    rfl
  · refine ⟨?_, Stmt.built_iff.mpr (by simp [Stmt.exprs, Stmt.blocks])⟩
    simp only [Stmt.wellFormed, Bool.and_eq_true]
    exact ⟨⟨hname, hnames⟩, hdescription⟩

theorem reaches_statementForm : Rule.statementForm.routine.Reaches (start n said inside)
    (Rule.statementForm.Ends (start n said inside) said) := by
  rw [Rule.routine]
  refine .kind fun next text _ => ?_
  split
  next =>
    refine .advance rfl Kind.noConfusion fun _ => .expect Kind.noConfusion
      fun name (hname : isPlainName name = true) => reaches_params fun names hnames => ?_
    refine .expect Kind.noConfusion fun _ _ => .call rfl rfl
      fun body (hbody : Stmt.ProperBlock n body) =>
        .pure ⟨rfl, rfl, ?_, .headed hbody ?_ Expr.allBuilt_nil rfl⟩
    · simp [Word.reading, Word.sense, Rule.senses, Stmt.senses, Sense.heading]
    · simp [Stmt.wellFormed, hname, hnames, hbody.nonempty, hbody.all.wellFormed]
  next =>
    refine .advance rfl Kind.noConfusion fun _ => .expect Kind.noConfusion
      fun name (hname : isPlainName name = true) => .accept Kind.noConfusion (fun _ _ => ?_) ?_
    · refine .call rfl rfl fun init (hinit : init.Proper n 1) =>
        .pure ⟨rfl, rfl, ?_, .ending hinit ?_ rfl rfl⟩
      · simp [Word.reading, Word.sense, Rule.senses, Stmt.senses]
      · simp [Stmt.wellFormed, hname, hinit.wellFormed]
    · refine .pure ⟨rfl, rfl, ?_, .leaf hname rfl rfl⟩
      simp [Word.reading, Word.sense, Rule.senses, Stmt.senses]
  next =>
    refine .advance rfl Kind.noConfusion fun _ => .ends fun found => ?_
    split
    next => exact .pure ⟨rfl, rfl, rfl, .leaf rfl rfl rfl⟩
    next =>
      refine .call rfl rfl fun value (hvalue : value.Proper n 1) =>
        .pure ⟨rfl, rfl, ?_, .ending hvalue hvalue.wellFormed rfl rfl⟩
      simp [Word.reading, Rule.senses, Stmt.senses]
  next =>
    refine .advance rfl Kind.noConfusion fun _ => .call rfl rfl
      fun test (htest : test.Proper n 1) => .expect Kind.noConfusion fun _ _ => ?_
    refine .call rfl rfl fun yes (hyes : Stmt.ProperBlock n yes) => .acceptOtherwise rfl ?_ ?_
    · refine .expect Kind.noConfusion fun _ _ => .call rfl rfl
        fun no (hno : Stmt.ProperBlock n no) => .pure ⟨rfl, rfl, ?_, ?_, ?_⟩
      · simp [Word.reading, Rule.senses, Stmt.senses]
      · simp [Stmt.wellFormed, htest.wellFormed, hyes.nonempty, hyes.all.wellFormed, hno.nonempty,
          hno.all.wellFormed]
      · simp [Stmt.built_iff, Stmt.exprs, Stmt.blocks, htest.built, hyes.room, hyes.all.built,
          hno.all.built]
    · refine .pure ⟨rfl, rfl, ?_, .headed hyes ?_ htest.single rfl⟩
      · simp [Word.reading, Rule.senses, Stmt.senses]
      · simp [Stmt.wellFormed, htest.wellFormed, hyes.nonempty, hyes.all.wellFormed]
  next =>
    refine .advance rfl Kind.noConfusion fun _ => .call rfl rfl
      fun test (htest : test.Proper n 1) => .expect Kind.noConfusion fun _ _ => ?_
    refine .call rfl rfl fun body (hbody : Stmt.ProperBlock n body) =>
      .pure ⟨rfl, rfl, ?_, .headed hbody ?_ htest.single rfl⟩
    · simp [Word.reading, Rule.senses, Stmt.senses]
    · simp [Stmt.wellFormed, htest.wellFormed, hbody.nonempty, hbody.all.wellFormed]
  next => exact .advance rfl Kind.noConfusion fun _ => reaches_generated rfl rfl rfl
  next =>
    refine .advance rfl Kind.noConfusion fun _ => .expect Kind.noConfusion fun _ _ => ?_
    refine .call rfl rfl fun body (hbody : Stmt.ProperBlock n body) =>
      .pure ⟨rfl, rfl, ?_, .headed hbody ?_ Expr.allBuilt_nil rfl⟩
    · simp [Word.reading, Rule.senses, Stmt.senses]
    · simp [Stmt.wellFormed, hbody.nonempty, hbody.all.wellFormed]
  next =>
    refine .advance rfl Kind.noConfusion fun _ => reaches_optionalText rfl
      fun instruction t hinstruction hplain hdepth hsaid => ?_
    replace hdepth : t.depth = n := hdepth
    subst hdepth
    refine .accept Kind.noConfusion (fun _ _ => .call rfl rfl fun body hbody => ?_) ?_
    · replace hbody : Stmt.ProperBlock t.depth body := hbody
      refine .pure ⟨rfl, rfl, ?_, .headed hbody ?_ Expr.allBuilt_nil rfl⟩
      · simp [Word.reading, Rule.senses, Stmt.senses, hsaid]
      · simp [Stmt.wellFormed, hinstruction, hbody.nonempty, hbody.all.wellFormed]
    · refine .pure ⟨hplain, rfl, ?_, .leaf hinstruction rfl rfl⟩
      simp [Word.reading, Rule.senses, Stmt.senses, hsaid]
  next =>
    refine .advance rfl Kind.noConfusion fun _ => .kind fun kind text _ => ?_
    split
    next hkind =>
      have hend : kind ≠ .endOfInput := by
        rcases hkind with rfl | rfl <;> exact Kind.noConfusion
      refine .advance rfl hend fun hspelled => .pure ?_
      rcases hkind with rfl | rfl
      · refine ⟨rfl, rfl, ?_, .leaf (isPlainText_of_isPlainName hspelled) rfl rfl⟩
        simp [Word.reading, Word.sense, Rule.senses, Stmt.senses]
      · refine ⟨rfl, rfl, ?_, .leaf hspelled rfl rfl⟩
        simp [Word.reading, Word.sense, Rule.senses, Stmt.senses]
    next => exact .fail
  next =>
    refine .advance rfl Kind.noConfusion fun _ => .expect Kind.noConfusion
      fun query hquery => .pure ⟨rfl, rfl, ?_, .leaf hquery rfl rfl⟩
    simp [Word.reading, Word.sense, Rule.senses, Stmt.senses]
  next =>
    refine .advance rfl Kind.noConfusion fun _ => .call rfl rfl
      fun target (htarget : target.Proper n 1) =>
        .pure ⟨rfl, rfl, ?_, .ending htarget htarget.wellFormed rfl rfl⟩
    simp [Word.reading, Rule.senses, Stmt.senses]
  next =>
    exact .call rfl rfl fun e (he : e.Proper n 1) =>
      .pure ⟨rfl, rfl, rfl, .ending he he.wellFormed rfl rfl⟩

theorem reaches_statement : Rule.statement.routine.Reaches (start n said inside)
    (Rule.statement.Ends (start n said inside) said) := by
  rw [Rule.routine]
  refine .call rfl rfl fun stmt hstmt => .endStatement (.pure ⟨rfl, rfl, rfl, hstmt⟩)

theorem reaches_block : Rule.block.routine.Reaches (start n said inside)
    (Rule.block.Ends (start n said inside) said) := by
  rw [Rule.routine]
  refine .enter fun hroom => .openBlock (.call rfl rfl fun stmts hstmts => ?_)
  refine .close Kind.noConfusion fun _ => ⟨rfl, rfl, ?_, hstmts.1 rfl, hroom, hstmts.2⟩
  simp [Rule.senses, Word.reading, Sense.block]

theorem reaches_statements (nested : Bool) : (Rule.statements nested).routine.Reaches
    (start n said inside) ((Rule.statements nested).Ends (start n said inside) said) := by
  rw [Rule.routine]
  refine .skipNewlines rfl (.kind fun next _ hinside => ?_)
  split
  next hlast =>
    refine .pure ⟨rfl, rfl, ?_, fun hstart => ?_, .nil⟩
    · simp [Rule.senses, Stmt.allSenses]
    · have hends := hinside hstart
      rcases hlast with rfl | ⟨-, rfl⟩ <;> cases hends
  next =>
    refine .call rfl rfl fun stmt hstmt => .call rfl rfl fun more hmore => ?_
    refine .pure ⟨rfl, rfl, ?_, fun _ => rfl, .cons hstmt hmore.2⟩
    simp [Rule.senses, Stmt.allSenses]

theorem reaches_routine (rule : Rule α) {s : Mark} {before : List Sense}
    (hbefore : rule.Follows s before) : rule.routine.Reaches (start s.depth s.said s.inside)
      (rule.Ends (start s.depth s.said s.inside) before) := by
  cases rule with
  | operands level left =>
    obtain ⟨hsaid, hleft⟩ := hbefore
    rw [hsaid]
    exact reaches_operands level hleft
  | paramNames => exact hbefore ▸ reaches_paramNames
  | operation level => exact hbefore ▸ reaches_operation level
  | primary => exact hbefore ▸ reaches_primary
  | arguments => exact hbefore ▸ reaches_arguments
  | argumentList => exact hbefore ▸ reaches_argumentList
  | children => exact hbefore ▸ reaches_children
  | childList => exact hbefore ▸ reaches_childList
  | statement => exact hbefore ▸ reaches_statement
  | statementForm => exact hbefore ▸ reaches_statementForm
  | block => exact hbefore ▸ reaches_block
  | statements nested => exact hbefore ▸ reaches_statements nested

theorem Rule.Follows.unique {rule : Rule α} {s : Mark} {before before' : List Sense}
    (h : rule.Follows s before) (h' : rule.Follows s before') : before = before' := by
  cases rule with
  | operands level left => exact List.append_cancel_right (h.1.symm.trans h'.1)
  | _ => exact h.symm.trans h'

theorem Rule.makes_start {rule : Rule α} {s : Mark} {a : α} :
    rule.Makes (start s.depth s.said s.inside) a ↔ rule.Makes s a := by
  cases rule <;> rfl

theorem Rule.parse_marked (all : List Sense) (fuel : Nat) (rule : Rule α) (s : Mark) (c : Cursor)
    (hs : marking.needs rule s) (hc : Mark.At all s c) :
    Lands (Mark.At all) (fun _ => True) (marking.gives rule s) (rule.parse fuel c) := by
  induction fuel generalizing α s c with
  | zero =>
    rw [rule.parse_zero]
    trivial
  | succ fuel ih =>
    obtain ⟨hplain, before, hbefore⟩ := hs
    rw [rule.parse_succ]
    refine (rule.routine.lands (sound_marking all) ih (reaches_routine rule hbefore)
      (hc.forget hplain)).mono fun a t c' hends ht => ?_
    refine ⟨.rest s.depth (before ++ rule.senses a), ⟨makes_start.mp hends.makes, ?_⟩, ?_⟩
    · intro before' hbefore'
      rw [hbefore.unique hbefore']
    · have hrest := ht.forget hends.plain
      rw [hends.depth, hends.said] at hrest
      exact ⟨hrest.legible, hrest.depth, hrest.said, Bool.noConfusion, hrest.next⟩

end Parser

open Splice.Parser in
theorem Program.proper_of_ofTokens {source : String} {tokens : List Token} {program : Program}
    (htokens : Token.ofSource source = .ok tokens)
    (hparse : Program.ofTokens tokens = .ok program) :
    Stmt.AllProper 0 program.body ∧ Word.senses none (tokens.map Token.word) = program.senses := by
  have hlegible := Cursor.legible_ofTokens htokens
  obtain ⟨c', hrun⟩ := (Program.ofTokens_eq_ok
    (Nat.le_refl (boundFor (Cursor.ofTokens tokens)))).mp hparse
  have hstart : Mark.At (Word.senses none (tokens.map Token.word)) (start 0 [] false)
      (Cursor.ofTokens tokens) := by
    refine ⟨hlegible, Cursor.nesting_ofTokens tokens, ?_, Bool.noConfusion, fun _ hw => by cases hw⟩
    rw [← Cursor.words_ofTokens (Token.ofSource_sound htokens)]
    rfl
  have hfollows : (Rule.statements false).Follows (start 0 [] false) [] := rfl
  have hlands := Rule.parse_marked _ (boundFor (Cursor.ofTokens tokens)) _ _ _
    ⟨rfl, [], hfollows⟩ hstart
  rw [Rule.parse, hrun] at hlands
  obtain ⟨t, ⟨hmakes, hsaid⟩, hend⟩ := hlands
  -- The statements stop at the end of input, and nothing comes behind it.
  have hwords : c'.words = [Kind.endOfInput.word] :=
    hend.legible.words.end (kind_of_statements hrun)
  refine ⟨hmakes.2, ?_⟩
  rw [hend.said, hsaid [] hfollows, hwords]
  rfl

theorem wellFormed_of_compile {source : String} {program : Program}
    (h : compile source = .ok program) : Stmt.allWellFormed program.body isLiteral = true := by
  obtain ⟨tokens, htokens, hparse⟩ := compile_eq_ok.mp h
  exact (Program.proper_of_ofTokens htokens hparse).1.wellFormed

theorem built_of_compile {source : String} {program : Program} (h : compile source = .ok program) :
    ∀ s ∈ program.body, s.Built 0 := by
  obtain ⟨tokens, htokens, hparse⟩ := compile_eq_ok.mp h
  exact (Program.proper_of_ofTokens htokens hparse).1.built

end Splice
