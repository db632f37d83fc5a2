import Splice.Proofs.Tree.Reading.Expr

/-! The words of a statement are read as that statement.  A statement ends with its line, or with
the blocks that its line opened; only then the next statement, the end of an outer block or the end
of the input may come. -/
namespace Splice

open Splice.Parser Spelling

theorem paramNames_read {param : String} {params : List String} {c c' : Cursor}
    (hpasses : c.Passes (list ((param :: params).map fun p => ⟨[(.ident, p)], 0⟩)) c')
    (hkind : c'.kind = .rightParen) : Yields paramNames c c' 0 (param :: params) := by
  induction params generalizing param c with
  | nil =>
    obtain ⟨hname, htext, hrest⟩ := hpasses.next (by decide)
    obtain rfl := hrest.nil
    refine .succ ?_
    simp only [paramNames]
    refine .expect hname (.decline (by simp [hkind]) ?_)
    simp only [htext]
    exact .pure _ _
  | cons next more ih =>
    obtain ⟨hname, htext, hrest⟩ := hpasses.next (by decide)
    obtain ⟨hcomma, -, hrest⟩ := hrest.next (by decide)
    refine .succ ?_
    simp only [paramNames]
    refine .expect hname (.accept hcomma ?_)
    simp only [htext]
    exact (ih hrest).map (param :: ·)

theorem params_read {params : List String} {c c' : Cursor}
    (hpasses : c.Passes (Kind.leftParen.word ::
      list (params.map fun p => ⟨[(.ident, p)], 0⟩) ++ [Kind.rightParen.word]) c') :
    Yields Parser.params c c' 0 params := by
  obtain ⟨hopen, -, hrest⟩ := hpasses.next (by decide)
  obtain ⟨mid, hlist, hclose⟩ := hrest.append
  obtain ⟨hparen, -, hlast⟩ := hclose.next (by decide)
  obtain rfl := hlast.nil
  unfold Parser.params
  refine .expect hopen (.kind ?_)
  cases params with
  | nil =>
    obtain rfl := hlist.nil
    simp only [hparen, if_true, pure_bind]
    exact .expect hparen (.pure _ _)
  | cons param params =>
    have hfirst : c.advance.kind = .ident := hlist.kind_eq (w := (.ident, param)) rfl
    simp only [hfirst, reduceCtorEq, if_false]
    exact (paramNames_read hlist hparen).andThen 0 (fun _ => .expect hparen (.pure _ _)) rfl

def StmtRead (s : Stmt) : Prop :=
  ∀ ⦃broken c c'⦄, c.nesting ≤ maxNesting →
    c.Passes (s.spelling.line ++ closing broken s.spelling.opens) c' →
      LineEnds s.spelling.opens c'.kind → Yields statementForm c c' (c.nesting + s.nesting) s

/-- Statements are read up to the end of their block, or of the input. -/
def StmtsRead (ss : List Stmt) : Prop :=
  ∀ (nested : Bool) ⦃first broken c c'⦄, c.nesting ≤ maxNesting →
    c.Passes (lineBreak first ++ (lines (Stmt.spellings ss)).ended broken) c' →
      (c'.kind = .endOfInput ∨ (nested = true ∧ c'.kind = .dedent)) →
        Yields (statements nested) c c' (c.nesting + Stmt.maxNesting ss) ss

theorem stmtsRead_nil : StmtsRead [] := by
  intro nested first broken c c' hdepth hpasses hlast
  have hne : c'.kind ≠ .newline := by
    intro hnewline
    rw [hnewline] at hlast
    simp at hlast
  have hskip : c.skipNewlines = c' := by
    refine hpasses.skipNewlines ?_ hne
    cases first <;> cases broken <;>
      simp [Stmt.spellings, lines, ended, lineBreak, dedents]
  refine .succ ?_
  simp only [statements]
  refine .of_ok rfl (.kind ?_)
  rw [hskip]
  simp only [hlast, if_true]
  exact (Yields.pure c' []).within (Nat.zero_le _) hdepth

theorem stmtsRead_cons {s : Stmt} {ss : List Stmt} (hs : StmtRead s) (hss : StmtsRead ss) :
    StmtsRead (s :: ss) := by
  intro nested first broken c c' hdepth hpasses hlast
  have hsame := hpasses.nesting
  obtain ⟨w, hw, hstart⟩ := s.line_starts
  have hne : w.1 ≠ .newline ∧ w.1 ≠ .dedent ∧ w.1 ≠ .endOfInput := by
    refine ⟨?_, ?_, ?_⟩ <;> intro heq <;> rw [heq] at hstart <;> cases hstart
  obtain ⟨hlines, hfirst⟩ := skip_lineBreak hpasses
    (w := w) (by simp [Stmt.spellings, lines, ended, Spelling.after, hw]) hne.1
  rw [Stmt.spellings] at hlines
  have hstarts : ∀ next ∈ (Stmt.spellings ss).head?,
      ∃ u, next.line.head? = some u ∧ u.1.startsLine = true := by
    cases ss with
    | nil => simp [Stmt.spellings]
    | cons next more =>
      rw [Stmt.spellings]
      rintro _ ⟨rfl⟩
      exact next.line_starts
  have hend : c'.kind = .dedent ∨ c'.kind = .endOfInput := by
    rcases hlast with hlast | ⟨-, hlast⟩
    · exact .inr hlast
    · exact .inl hlast
  obtain ⟨mid, b₁, b₂, again, hline, hrest, hends, hstop⟩ := next_line hlines hstarts hend
  have hinner := hlines.nesting
  have hinner' := hrest.nesting
  refine .succ ?_
  simp only [statements]
  refine .of_ok rfl (.kind ?_)
  simp only [hfirst, hne, and_false, or_self, if_false]
  have hstmt : Yields statement c.skipNewlines mid (c.nesting + s.nesting) s := by
    refine .succ ?_
    simp only [statement]
    exact (hs (by omega) hline hends).andThen 0 (fun _ => .of_ok hstop (.pure _ _)) (by omega)
  refine hstmt.andThen (c.nesting + Stmt.maxNesting ss) (fun _ => ?_) ?_
  · exact ((hss nested (by omega) hrest hlast).map (s :: ·)).congr (by omega)
  · simp only [Stmt.maxNesting]
    omega

theorem block_read {ss : List Stmt} (hss : StmtsRead ss) (hne : (!ss.isEmpty) = true)
    {broken : Bool} {c c' : Cursor}
    (hpasses : c.Passes ((Spelling.block (Stmt.spellings ss)).line ++
      closing broken (Spelling.block (Stmt.spellings ss)).opens) c') :
    Yields Parser.block c c' (c.nesting + (Stmt.maxNesting ss + 1)) ss := by
  obtain ⟨s, ss, rfl⟩ := List.exists_cons_of_ne_nil (show ss ≠ [] by rintro rfl; cases hne)
  rw [Stmt.spellings, block_words, ← Stmt.spellings] at hpasses
  have hsame := hpasses.nesting
  obtain ⟨start, hopen, hblock⟩ := (hpasses.within (c.nesting + 1)).openBlock
  have hinner := hblock.nesting
  rw [Cursor.nesting_within] at hinner
  obtain ⟨mid, hlines, hclose⟩ := hblock.append
  obtain ⟨hdedent, -, -⟩ := hclose.next (by decide)
  rw [← hsame] at hclose
  refine .succ ?_
  simp only [Parser.block]
  refine .enter (by omega) fun hdepth => .of_ok hopen ?_
  exact (hss true (by omega) hlines (.inr ⟨rfl, hdedent⟩)).andThen 0
    (fun _ => .close hclose (by decide)) (by omega)

theorem expr_read {e : Expr} (hwf : e.wellFormed = true) {broken : Bool} {c c' : Cursor}
    (hdepth : c.nesting ≤ maxNesting)
    (hpasses : c.Passes (e.spelling.line ++ closing broken e.spelling.opens) c')
    (hends : LineEnds e.spelling.opens c'.kind) :
    Yields expression c c' (c.nesting + e.nesting) e :=
  (e.readable hwf).takes 1 e.one_le_strength hdepth hpasses (hends.ends _ _)

theorem test_read {e : Expr} (hwf : e.wellFormed = true) {c c' : Cursor}
    (hdepth : c.nesting ≤ maxNesting) (hpasses : c.Passes e.testSpelling.settled c')
    (hcolon : c'.kind = .colon) : Yields expression c c' (c.nesting + e.testNesting) e := by
  have htest := (e.readable hwf).operand e.one_le_strength e.endsBare
  refine htest.takes 1 ?_ hdepth hpasses ?_
  · have hstrength := e.one_le_strength
    split <;> omega
  · rw [hcolon]
    exact ⟨by simp, by simp, by simp⟩

theorem function_read {name : String} {params : List String} {body : List Stmt}
    (hne : (!body.isEmpty) = true) (hbody : StmtsRead body) :
    StmtRead (.function name params body) := by
  intro broken c c' hdepth hpasses hends
  have hwords : (Stmt.spelling (.function name params body)).line ++
      closing broken (Stmt.spelling (.function name params body)).opens =
        (Kind.keyword .function).word :: (.ident, name) :: ((Kind.leftParen.word ::
          list (params.map fun p => ⟨[(.ident, p)], 0⟩) ++ [Kind.rightParen.word]) ++
          (Kind.colon.word :: ((Spelling.block (Stmt.spellings body)).line ++
            closing broken (Spelling.block (Stmt.spellings body)).opens))) := by
    simp [Stmt.spelling, Spelling.after, heading]
  rw [hwords] at hpasses
  have hsame := hpasses.nesting
  obtain ⟨hkind, -, hrest⟩ := hpasses.next (by decide)
  obtain ⟨hname, htext, hrest⟩ := hrest.next (by decide)
  obtain ⟨mid, hparams, hrest⟩ := hrest.append
  obtain ⟨hcolon, -, hblock⟩ := hrest.next (by decide)
  have hinner := hblock.nesting
  refine .succ ?_
  simp only [statementForm]
  refine .kind ?_
  simp only [hkind]
  refine .advance (.expect hname ?_)
  simp only [htext]
  have hrun := (block_read hbody hne hblock).map (Stmt.function name params)
  refine (params_read hparams).andThen _ (fun _ => .expect hcolon hrun) ?_
  simp only [Stmt.nesting]
  omega

theorem binding_read {name : String} {init : Option Expr}
    (hwf : (Stmt.binding name init).wellFormed = true) : StmtRead (.binding name init) := by
  intro broken c c' hdepth hpasses hends
  have hsame := hpasses.nesting
  cases init with
  | none =>
    obtain ⟨hkind, -, hrest⟩ := hpasses.next (by decide)
    obtain ⟨hname, htext, hrest⟩ := hrest.next (by decide)
    obtain rfl := hrest.nil
    have hassign : c.advance.advance.kind ≠ .assign := by
      intro heq
      rw [heq] at hends
      cases hends
    refine .succ ?_
    simp only [statementForm]
    refine .kind ?_
    simp only [hkind]
    refine .advance (.expect hname (.decline hassign ?_))
    simp only [htext]
    exact (Yields.pure _ _).within (Nat.zero_le _) hdepth
  | some init =>
    rw [Stmt.wellFormed, Bool.and_eq_true] at hwf
    rw [Stmt.spelling] at hpasses hends
    obtain ⟨hkind, -, hrest⟩ := hpasses.next (by decide)
    obtain ⟨hname, htext, hrest⟩ := hrest.next (by decide)
    obtain ⟨hassign, -, hrest⟩ := hrest.next (by decide)
    have hinner := hrest.nesting
    refine .succ ?_
    simp only [statementForm]
    refine .kind ?_
    simp only [hkind]
    refine .advance (.expect hname (.accept hassign ?_))
    simp only [htext]
    have hrun := (expr_read hwf.2 (by omega) hrest hends).map fun e => Stmt.binding name (some e)
    exact hrun.congr (by simp only [Stmt.nesting]; omega)

theorem opens_block {ss : List Stmt} (hne : (!ss.isEmpty) = true) :
    (Spelling.block (Stmt.spellings ss)).opens ≠ 0 := by
  cases ss with
  | nil => cases hne
  | cons s ss => simp [Stmt.spellings, Spelling.block]

theorem acceptOtherwise_decline {c : Cursor}
    (h : c.kind.startsLine = true ∨ c.kind = .dedent ∨ c.kind = .endOfInput) :
    acceptOtherwise c = .ok (false, c) := by
  have hkinds : c.kind ≠ .newline ∧ c.kind ≠ .keyword .otherwise := by
    refine ⟨?_, ?_⟩ <;> intro heq <;> rw [heq] at h <;> simp [Kind.startsLine, Kind.startsExpr] at h
  unfold acceptOtherwise
  rw [Cursor.skipNewlines_eq_self hkinds.1]
  simp [hkinds.2]

theorem branch_read {test : Expr} {yes : List Stmt} (htest : test.wellFormed = true)
    (hne : (!yes.isEmpty) = true) (hyes : StmtsRead yes) : StmtRead (.branch test yes none) := by
  intro broken c c' hdepth hpasses hends
  have hwords : (Stmt.spelling (.branch test yes none)).line ++
      closing broken (Stmt.spelling (.branch test yes none)).opens =
        (Kind.keyword .branch).word :: (test.testSpelling.settled ++
          (Kind.colon.word :: ((Spelling.block (Stmt.spellings yes)).line ++
            closing broken (Spelling.block (Stmt.spellings yes)).opens))) := by
    simp [Stmt.spelling, Spelling.after]
  rw [hwords] at hpasses
  have hsame := hpasses.nesting
  obtain ⟨hkind, -, hrest⟩ := hpasses.next (by decide)
  have hinner := hrest.nesting
  obtain ⟨mid, hexpr, hrest⟩ := hrest.append
  obtain ⟨hcolon, -, hblock⟩ := hrest.next (by decide)
  have hinner' := hblock.nesting
  have hlast : c'.kind.startsLine = true ∨ c'.kind = .dedent ∨ c'.kind = .endOfInput := by
    simpa [LineEnds, Stmt.spelling, Spelling.after, opens_block hne] using hends
  refine .succ ?_
  simp only [statementForm]
  refine .kind ?_
  simp only [hkind]
  refine .advance ?_
  have hrun : Yields (fun fuel => do
      let yes ← Parser.block fuel
      if ← acceptOtherwise then
        let _ ← expect .colon .otherwiseColon
        return Stmt.branch test yes (some (← Parser.block fuel))
      else
        return .branch test yes none) mid.advance c'
      (mid.advance.nesting + (Stmt.maxNesting yes + 1)) (.branch test yes none) :=
    (block_read hyes hne hblock).andThen 0
      (fun _ => .of_ok (acceptOtherwise_decline hlast) (.pure _ _)) (Nat.max_zero _)
  refine (test_read htest (by omega) hexpr hcolon).andThen _ (fun _ => .expect hcolon hrun) ?_
  simp only [Stmt.nesting]
  omega

theorem branch_else_read {test : Expr} {yes no : List Stmt} (htest : test.wellFormed = true)
    (hne : (!yes.isEmpty) = true) (hyes : StmtsRead yes) (hne' : (!no.isEmpty) = true)
    (hno : StmtsRead no) : StmtRead (.branch test yes (some no)) := by
  intro broken c c' hdepth hpasses hends
  have hwords : (Stmt.spelling (.branch test yes (some no))).line ++
      closing broken (Stmt.spelling (.branch test yes (some no))).opens =
        (Kind.keyword .branch).word :: (test.testSpelling.settled ++
          (Kind.colon.word :: (((Spelling.block (Stmt.spellings yes)).line ++
            closing true (Spelling.block (Stmt.spellings yes)).opens) ++
              ((Kind.keyword .otherwise).word :: Kind.colon.word ::
                ((Spelling.block (Stmt.spellings no)).line ++
                  closing broken (Spelling.block (Stmt.spellings no)).opens))))) := by
    have hended : (Spelling.block (Stmt.spellings yes)).ended true =
        (Spelling.block (Stmt.spellings yes)).line ++
          closing true (Spelling.block (Stmt.spellings yes)).opens := by
      rw [ended, closing, if_neg (opens_block hne), List.append_assoc]
    simp [Stmt.spelling, Spelling.after, hended]
  rw [hwords] at hpasses
  have hsame := hpasses.nesting
  obtain ⟨hkind, -, hrest⟩ := hpasses.next (by decide)
  have hinner := hrest.nesting
  obtain ⟨mid, hexpr, hrest⟩ := hrest.append
  obtain ⟨hcolon, -, hrest⟩ := hrest.next (by decide)
  have hinner' := hrest.nesting
  obtain ⟨last, hblock, hrest⟩ := hrest.append
  obtain ⟨helse, -, hrest⟩ := hrest.next (by decide)
  obtain ⟨hcolon', -, hblock'⟩ := hrest.next (by decide)
  have hinner'' := hblock'.nesting
  have hother : acceptOtherwise last = .ok (true, last.advance) := by
    unfold acceptOtherwise
    rw [Cursor.skipNewlines_eq_self (by simp [helse])]
    simp [helse]
  refine .succ ?_
  simp only [statementForm]
  refine .kind ?_
  simp only [hkind]
  refine .advance ?_
  have hno := (block_read hno hne' hblock').map fun no => Stmt.branch test yes (some no)
  have hrun : Yields (fun fuel => do
      let yes ← Parser.block fuel
      if ← acceptOtherwise then
        let _ ← expect .colon .otherwiseColon
        return Stmt.branch test yes (some (← Parser.block fuel))
      else
        return .branch test yes none) mid.advance c' _ (.branch test yes (some no)) :=
    (block_read hyes hne hblock).bind fun _ => .of_ok hother (.expect hcolon' hno)
  refine (test_read htest (by omega) hexpr hcolon).andThen _ (fun _ => .expect hcolon hrun) ?_
  simp only [Stmt.nesting]
  omega

theorem loop_read {test : Expr} {body : List Stmt} (htest : test.wellFormed = true)
    (hne : (!body.isEmpty) = true) (hbody : StmtsRead body) : StmtRead (.loop test body) := by
  intro broken c c' hdepth hpasses hends
  have hwords : (Stmt.spelling (.loop test body)).line ++
      closing broken (Stmt.spelling (.loop test body)).opens =
        (Kind.keyword .loop).word :: (test.testSpelling.settled ++
          (Kind.colon.word :: ((Spelling.block (Stmt.spellings body)).line ++
            closing broken (Spelling.block (Stmt.spellings body)).opens))) := by
    simp [Stmt.spelling, Spelling.after]
  rw [hwords] at hpasses
  have hsame := hpasses.nesting
  obtain ⟨hkind, -, hrest⟩ := hpasses.next (by decide)
  have hinner := hrest.nesting
  obtain ⟨mid, hexpr, hrest⟩ := hrest.append
  obtain ⟨hcolon, -, hblock⟩ := hrest.next (by decide)
  have hinner' := hblock.nesting
  refine .succ ?_
  simp only [statementForm]
  refine .kind ?_
  simp only [hkind]
  refine .advance ?_
  have hrun := (block_read hbody hne hblock).map (Stmt.loop test)
  refine (test_read htest (by omega) hexpr hcolon).andThen _ (fun _ => .expect hcolon hrun) ?_
  simp only [Stmt.nesting]
  omega

theorem ret_read {value : Option Expr} (hwf : (Stmt.ret value).wellFormed = true) :
    StmtRead (.ret value) := by
  intro broken c c' hdepth hpasses hends
  have hsame := hpasses.nesting
  cases value with
  | none =>
    obtain ⟨hkind, -, hrest⟩ := hpasses.next (by decide)
    obtain rfl := hrest.nil
    have hstop : c.advance.kind.endsStatement = true := hends
    refine .succ ?_
    simp only [statementForm]
    refine .kind ?_
    simp only [hkind]
    refine .advance (.kind ?_)
    simp only [hstop, if_true]
    exact (Yields.pure _ _).within (Nat.zero_le _) hdepth
  | some value =>
    rw [Stmt.wellFormed] at hwf
    rw [Stmt.spelling] at hpasses hends
    obtain ⟨hkind, -, hrest⟩ := hpasses.next (by decide)
    have hinner := hrest.nesting
    obtain ⟨w, hw, hstart⟩ := value.line_starts
    have hfirst : c.advance.kind = w.1 := hrest.kind_eq (by simp [hw])
    refine .succ ?_
    simp only [statementForm]
    refine .kind ?_
    simp only [hkind]
    refine .advance (.kind ?_)
    simp only [hfirst, Kind.endsStatement_of_startsExpr hstart]
    have hrun := (expr_read hwf (by omega) hrest hends).map fun e => Stmt.ret (some e)
    exact hrun.congr (by simp only [Stmt.nesting]; omega)

theorem exprStmt_read {e : Expr} (hwf : e.wellFormed = true) : StmtRead (.expr e) := by
  intro broken c c' hdepth hpasses hends
  rw [Stmt.spelling] at hpasses hends
  obtain ⟨w, hw, hstart⟩ := e.line_starts
  have hfirst : c.kind = w.1 := hpasses.kind_eq (by simp [hw])
  rw [← hfirst] at hstart
  have hrun : Yields (fun fuel => do return Stmt.expr (← expression fuel)) c c'
      (c.nesting + (Stmt.expr e).nesting) (.expr e) :=
    ((expr_read hwf hdepth hpasses hends).map Stmt.expr).congr (by simp only [Stmt.nesting])
  refine .succ ?_
  simp only [statementForm]
  refine .kind ?_
  cases hk : c.kind with
  | keyword word =>
    rw [hk] at hstart
    cases hstart
  | _ => exact hrun

theorem generate_read {name : String} {params : List String} {description : String} :
    StmtRead (.generate name params description) := by
  intro broken c c' hdepth hpasses hends
  have hwords : (Stmt.spelling (.generate name params description)).line ++
      closing broken (Stmt.spelling (.generate name params description)).opens =
        (Kind.keyword .generate).word :: (Kind.keyword .function).word :: (.ident, name) ::
          ((Kind.leftParen.word :: list (params.map fun p => ⟨[(.ident, p)], 0⟩) ++
            [Kind.rightParen.word]) ++
            [Kind.colon.word, (Kind.keyword .description).word, (.string, description)]) := by
    simp [Stmt.spelling, heading, closing]
  rw [hwords] at hpasses
  obtain ⟨hkind, -, hrest⟩ := hpasses.next (by decide)
  obtain ⟨hfunction, -, hrest⟩ := hrest.next (by decide)
  obtain ⟨hname, htext, hrest⟩ := hrest.next (by decide)
  obtain ⟨mid, hparams, hrest⟩ := hrest.append
  obtain ⟨hcolon, -, hrest⟩ := hrest.next (by decide)
  obtain ⟨hlabel, -, hrest⟩ := hrest.next (by decide)
  obtain ⟨hstring, hdescription, hrest⟩ := hrest.next (by decide)
  obtain rfl := hrest.nil
  have hopens : opensGenerated c.advance = .ok (true, c.advance) := by
    simp [opensGenerated, hfunction]
  refine .succ ?_
  simp only [statementForm]
  refine .kind ?_
  simp only [hkind]
  refine .advance ?_
  simp only [generated]
  refine .of_ok hopens (.advance (.expect hname ?_))
  simp only [htext]
  refine ((params_read hparams).andThen 0 (fun _ => ?_) (Nat.max_zero 0)).within
    (Nat.zero_le _) hdepth
  refine .expect hcolon (.expect hlabel (.expect hstring ?_))
  simp only [hdescription]
  exact .pure _ _

theorem optimize_read {body : List Stmt} (hne : (!body.isEmpty) = true) (hbody : StmtsRead body) :
    StmtRead (.optimize body) := by
  intro broken c c' hdepth hpasses hends
  rw [Stmt.spelling] at hpasses
  have hsame := hpasses.nesting
  obtain ⟨hkind, -, hrest⟩ := hpasses.next (by decide)
  obtain ⟨hcolon, -, hblock⟩ := hrest.next (by decide)
  have hinner := hblock.nesting
  refine .succ ?_
  simp only [statementForm]
  refine .kind ?_
  simp only [hkind]
  refine .advance (.expect hcolon ?_)
  exact ((block_read hbody hne hblock).map Stmt.optimize).congr (by simp only [Stmt.nesting]; omega)

theorem optionalText_read {instruction : Option String} {c c' : Cursor}
    (hpasses : c.Passes (Spelling.instruction instruction) c') (hkind : c'.kind ≠ .string) :
    optionalText c = .ok (instruction, c') := by
  cases instruction with
  | none =>
    obtain rfl := hpasses.nil
    unfold optionalText
    rw [bind_of_ok rfl, if_neg hkind]
    rfl
  | some text =>
    obtain ⟨hstring, htext, hrest⟩ := hpasses.next (by decide)
    obtain rfl := hrest.nil
    unfold optionalText
    rw [bind_of_ok rfl, if_pos hstring, bind_of_ok rfl, htext]
    rfl

theorem ask_read {instruction : Option String} : StmtRead (.ask instruction none) := by
  intro broken c c' hdepth hpasses hends
  rw [Stmt.spelling, closing, if_pos rfl, List.append_nil] at hpasses
  obtain ⟨hkind, -, hrest⟩ := hpasses.next (by decide)
  have hlast : c'.kind.endsStatement = true := hends
  have hkinds : c'.kind ≠ .string ∧ c'.kind ≠ .colon := by
    refine ⟨?_, ?_⟩ <;> intro heq <;> rw [heq] at hlast <;> cases hlast
  refine .succ ?_
  simp only [statementForm]
  refine .kind ?_
  simp only [hkind]
  refine .advance (.of_ok (optionalText_read hrest hkinds.1) (.decline hkinds.2 ?_))
  exact (Yields.pure _ _).within (Nat.zero_le _) hdepth

theorem ask_block_read {instruction : Option String} {body : List Stmt}
    (hne : (!body.isEmpty) = true) (hbody : StmtsRead body) :
    StmtRead (.ask instruction (some body)) := by
  intro broken c c' hdepth hpasses hends
  have hwords : (Stmt.spelling (.ask instruction (some body))).line ++
      closing broken (Stmt.spelling (.ask instruction (some body))).opens =
        (Kind.keyword .ai).word :: (Spelling.instruction instruction ++
          (Kind.colon.word :: ((Spelling.block (Stmt.spellings body)).line ++
            closing broken (Spelling.block (Stmt.spellings body)).opens))) := by
    simp [Stmt.spelling, Spelling.after]
  rw [hwords] at hpasses
  have hsame := hpasses.nesting
  obtain ⟨hkind, -, hrest⟩ := hpasses.next (by decide)
  obtain ⟨mid, hinstruction, hrest⟩ := hrest.append
  obtain ⟨hcolon, -, hblock⟩ := hrest.next (by decide)
  have hinner := hblock.nesting
  refine .succ ?_
  simp only [statementForm]
  refine .kind ?_
  simp only [hkind]
  refine .advance (.of_ok (optionalText_read hinstruction (by simp [hcolon])) (.accept hcolon ?_))
  have hrun := (block_read hbody hne hblock).map fun body => Stmt.ask instruction (some body)
  exact hrun.congr (by simp only [Stmt.nesting]; omega)

theorem load_read {library : String} : StmtRead (.load library) := by
  intro broken c c' hdepth hpasses hends
  rw [Stmt.spelling] at hpasses
  obtain ⟨hkind, -, hrest⟩ := hpasses.next (by decide)
  obtain ⟨hname, htext, hrest⟩ := hrest.next (by split <;> decide)
  obtain rfl := hrest.nil
  refine .succ ?_
  simp only [statementForm]
  refine .kind ?_
  simp only [hkind]
  refine .advance (.kind ?_)
  have hrun : Yields (fun _ => do return Stmt.load (← Parser.advance).text) c.advance
      c.advance.advance 0 (.load library) := by
    refine .advance ?_
    simp only [htext]
    exact .pure _ _
  split at hname <;> simp only [hname] <;> exact hrun.within (Nat.zero_le _) hdepth

theorem search_read {query : String} : StmtRead (.search query) := by
  intro broken c c' hdepth hpasses hends
  rw [Stmt.spelling] at hpasses
  obtain ⟨hkind, -, hrest⟩ := hpasses.next (by decide)
  obtain ⟨hstring, htext, hrest⟩ := hrest.next (by decide)
  obtain rfl := hrest.nil
  refine .succ ?_
  simp only [statementForm]
  refine .kind ?_
  simp only [hkind]
  refine .advance (.expect hstring ?_)
  simp only [htext]
  exact (Yields.pure _ _).within (Nat.zero_le _) hdepth

theorem inspect_read {target : Expr} (hwf : target.wellFormed = true) :
    StmtRead (.inspect target) := by
  intro broken c c' hdepth hpasses hends
  rw [Stmt.spelling] at hpasses hends
  have hsame := hpasses.nesting
  obtain ⟨hkind, -, hrest⟩ := hpasses.next (by decide)
  have hinner := hrest.nesting
  refine .succ ?_
  simp only [statementForm]
  refine .kind ?_
  simp only [hkind]
  refine .advance ?_
  have hrun := (expr_read hwf (by omega) hrest hends).map Stmt.inspect
  exact hrun.congr (by simp only [Stmt.nesting]; omega)

namespace Stmt

mutual

theorem read (s : Stmt) (hwf : s.wellFormed = true) : StmtRead s := by
  cases s with
  | function name params body =>
    simp only [wellFormed, Bool.and_eq_true] at hwf
    exact function_read hwf.1.2 (readAll body hwf.2)
  | binding name init => exact binding_read hwf
  | branch test yes no =>
    cases no with
    | none =>
      simp only [wellFormed, Bool.and_eq_true] at hwf
      exact branch_read hwf.1.1 hwf.1.2 (readAll yes hwf.2)
    | some no =>
      simp only [wellFormed, Bool.and_eq_true] at hwf
      obtain ⟨⟨⟨⟨htest, hne⟩, hyes⟩, hne'⟩, hno⟩ := hwf
      exact branch_else_read htest hne (readAll yes hyes) hne' (readAll no hno)
  | loop test body =>
    simp only [wellFormed, Bool.and_eq_true] at hwf
    exact loop_read hwf.1.1 hwf.1.2 (readAll body hwf.2)
  | ret value => exact ret_read hwf
  | expr e =>
    rw [wellFormed] at hwf
    exact exprStmt_read hwf
  | generate name params description => exact generate_read
  | optimize body =>
    simp only [wellFormed, Bool.and_eq_true] at hwf
    exact optimize_read hwf.1 (readAll body hwf.2)
  | ask instruction body =>
    cases body with
    | none => exact ask_read
    | some body =>
      simp only [wellFormed, Bool.and_eq_true] at hwf
      exact ask_block_read hwf.1.2 (readAll body hwf.2)
  | load library => exact load_read
  | search query => exact search_read
  | inspect target =>
    rw [wellFormed] at hwf
    exact inspect_read hwf

theorem readAll (ss : List Stmt) (hwf : allWellFormed ss = true) : StmtsRead ss := by
  cases ss with
  | nil => exact stmtsRead_nil
  | cons s ss =>
    rw [allWellFormed, Bool.and_eq_true] at hwf
    exact stmtsRead_cons (read s hwf.1) (readAll ss hwf.2)

end

end Stmt

end Splice
