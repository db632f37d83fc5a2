import Mathlib
import Splice.Proofs.Repl.Pieces
import Splice.Proofs.Session.Printed

/-! A dialogue is its pieces, one after another.  Its session is what running the sources among them
leads to.  For each piece it writes the prompts at which the piece is read and then, before it asks
for the next one, every line that the piece's source prints and a report if that does not
compile.  A piece whose run crashes is the last one. -/
namespace Splice.Repl

variable {settings : Settings} {s : Session} {source : String}

/-- The lines of a piece that are run, the first one without the blanks around it. -/
def Piece.code? : Piece → Option (List String)
  | .remark _ _ _ => none
  | .code line _ _ => some [Text.trim line]
  | .closed block _ _ | .unclosed block => some (Text.trim block.head :: block.body)

def Piece.source? (piece : Piece) : Option String :=
  piece.code?.map fun lines => "\n".intercalate lines ++ "\n"

/-- Run a source and take what it printed, or crash and leave the session as it stands. -/
def ran (settings : Settings) (s : Session) (source : String) : Except Session Session :=
  match s.runSource settings.fuel source with
  | (some (.error .crash), t) => .error t
  | (_, t) => .ok t.takeOutput.2

theorem ran_eq (settings : Settings) (s : Session) (source : String) :
    ran settings s source = .error (s.runSource settings.fuel source).2 ∨
      ran settings s source = .ok (s.runSource settings.fuel source).2.takeOutput.2 := by
  unfold ran
  rcases s.runSource settings.fuel source with ⟨result, t⟩
  dsimp only
  split
  next hcrash =>
    cases hcrash
    exact .inl rfl
  next hresult =>
    cases hresult
    exact .inr rfl

def standing : Except Session Session → Session
  | .ok s | .error s => s

def Piece.after (settings : Settings) (s : Session) (piece : Piece) : Except Session Session :=
  piece.source?.elim (.ok s) (ran settings s)

theorem foldlM_after (settings : Settings) (pieces : List Piece) (s : Session) :
    pieces.foldlM (Piece.after settings) s =
      (pieces.filterMap Piece.source?).foldlM (ran settings) s := by
  induction pieces generalizing s with
  | nil => rfl
  | cons piece pieces ih =>
    rw [List.foldlM_cons, funext ih, List.filterMap_cons, Piece.after]
    cases piece.source? with
    | none => rfl
    | some source => rw [List.foldlM_cons]; rfl

inductive Mark where
  | banner
  | prompt
  | continuation
  | help
  /-- The globals and functions of a session. -/
  | environment (s : Session)
  | drawing (drawing : Drawing)
  | line (text : String)
  | report (fault : CompileFault) (source : String)
  | farewell
  | lineEnd

def Mark.text (style : Report.Style) : Mark → String
  | .banner => Repl.banner
  | .prompt => Repl.prompt
  | .continuation => Repl.continuation
  | .help => helpText
  | .environment s => environmentText s
  | .drawing widget => drawingText widget
  | .line text => text ++ "\n"
  | .report fault source => Report.render style (.compile fault) source none
  | .farewell => "Goodbye!\n"
  | .lineEnd => "\n"

def shown (style : Report.Style) (marks : List Mark) : String :=
  String.join (marks.map (Mark.text style))

def linesIn (marks : List Mark) : List String :=
  marks.filterMap fun
    | .line text => some text
    | _ => none

def reportMarks (source : String) : List Mark :=
  match compile source with
  | .error (.fault fault) => [.report fault source]
  | _ => []

/-- What running a source writes: its drawings if they are shown and, unless the run crashes, the
lines that nobody has taken yet, then those that it prints, and a report. -/
def sourceMarks (settings : Settings) (s : Session) (source : String) : List Mark :=
  (if settings.drawings then
    ((s.runSource settings.fuel source).2.drawings.drop s.drawings.length).map .drawing else []) ++
  match ran settings s source with
  | .ok _ => (s.output.toList ++ s.linesOf settings.fuel source).map .line ++ reportMarks source
  | .error _ => []

def Remark.marks (s : Session) : Remark → List Mark
  | .blank => []
  | .help => [.help]
  | .environment => [.environment s]

/-- The prompts of a block: one for its head, one for each of its lines, and one for the blank line
or the end of the input behind it. -/
def Block.prompts (block : Block) : List Mark :=
  .prompt :: List.replicate (block.body.length + 1) .continuation

namespace Piece

def prompts : Piece → List Mark
  | .remark _ _ _ | .code _ _ _ => [.prompt]
  | .closed block _ _ | .unclosed block => block.prompts

def answer (settings : Settings) (s : Session) : Piece → List Mark
  | .remark _ what _ => what.marks s
  | piece => piece.source?.elim [] (sourceMarks settings s)

end Piece

def marks (settings : Settings) : List Piece → Session → List Mark
  | [], _ => []
  | piece :: later, s =>
    piece.prompts ++ piece.answer settings s ++
      match piece.after settings s with
      | .ok t => marks settings later t
      | .error _ => []

namespace Ending

def marks : Ending → List Mark
  | .finished => [.prompt, .lineEnd]
  | .left _ _ _ => [.prompt, .farewell]
  | .unreadable _ => [.prompt]
  | .brokenBlock block _ => block.prompts

def close : Ending → Close
  | .finished | .left _ _ _ => .finished
  | .unreadable _ | .brokenBlock _ _ => .unreadable

end Ending

/-- What becomes of a dialogue: an ending is reached if no run crashes. -/
def transcript (settings : Settings) (marks : List Mark) (ending : Ending) :
    Except Session Session → Transcript
  | .ok s => ⟨shown settings.style (marks ++ ending.marks), ending.close, s⟩
  | .error s => ⟨shown settings.style marks, .crashed, s⟩

@[simp] theorem shown_singleton (style : Report.Style) (mark : Mark) :
    shown style [mark] = mark.text style := by
  simp [shown]

@[simp] theorem shown_append (style : Report.Style) (front back : List Mark) :
    shown style (front ++ back) = shown style front ++ shown style back := by
  rw [shown, List.map_append, String.join_append]
  rfl

theorem sourceText_eq (head : String) (block : Option (List String)) :
    sourceText head block = "\n".intercalate (head :: block.getD []) ++ "\n" := by
  have hjoin (head : String) (body : List String) :
      head ++ String.join (body.map ("\n" ++ ·)) = "\n".intercalate (head :: body) := by
    induction body generalizing head with
    | nil => simp
    | cons line body ih =>
      rw [String.intercalate_cons_cons, ← ih, List.map_cons, String.join_cons]
      simp only [String.append_assoc]
  rw [sourceText, hjoin]

theorem shown_prompts (style : Report.Style) (block : Block) :
    shown style block.prompts = prompt ++ Entry.prompts.continuations (block.body.length + 1) := by
  rw [shown, Block.prompts, List.map_cons, String.join_cons, List.map_replicate,
    Entry.prompts.continuations, Mark.text, Mark.text]

/-- The answer behind which a session stands, whether or not its run crashed. -/
def answerOf (settings : Settings) (marks : List Mark) : Except Session Session → Answer
  | .ok s => ⟨shown settings.style marks, s, false⟩
  | .error s => ⟨shown settings.style marks, s, true⟩

theorem report_eq (settings : Settings) (source : String) (s : Session) :
    (match (s.runSource settings.fuel source).1 with
      | some (.error (.fault (.compile fault))) =>
        Report.render settings.style (.compile fault) source none
      | _ => "") = shown settings.style (reportMarks source) := by
  unfold Session.runSource reportMarks
  match compile source with
  | .error (.fault fault) => simp [shown, Mark.text, Halt.map]
  | .error .crash => rfl
  | .ok program =>
    dsimp only
    cases Run.evaluate settings.fuel program s with
    | mk result t =>
      match result with
      | .ok () | .error .outOfFuel | .error .crash | .error (.fault fault) => rfl

theorem answerSource_eq (settings : Settings) (source : String) (s : Session) :
    answerSource settings source s =
      answerOf settings (sourceMarks settings s source) (ran settings s source) := by
  have hreport := report_eq settings source s
  have houtput := (s.prints_linesOf settings.fuel source).output
  have hlines (lines : List String) :
      String.join (lines.map (· ++ "\n")) = shown settings.style (lines.map .line) := by
    rw [shown, List.map_map]
    rfl
  have hdrawn (drawings : List Drawing) :
      (if settings.drawings then String.join (drawings.map drawingText) else "") =
        shown settings.style (if settings.drawings then drawings.map .drawing else []) := by
    split
    · rw [shown, List.map_map]
      rfl
    · rfl
  rw [sourceMarks, ← houtput]
  unfold answerSource ran
  rcases hrun : s.runSource settings.fuel source with ⟨result, t⟩
  rw [hrun] at hreport
  match result with
  | some (.error .crash) =>
    simp only [answerOf, hdrawn, List.append_nil]
  | none | some (.ok ()) | some (.error (.fault (.compile _))) | some (.error (.fault (.run _))) =>
    simp only [answerOf, hdrawn, hlines, shown_append, ← hreport, String.append_assoc,
      String.append_empty]

theorem prompts_piece (style : Report.Style) (piece : Piece) :
    piece.entry.prompts = shown style piece.prompts := by
  cases piece with
  | remark line what h => cases what <;> exact (shown_singleton style .prompt).symm
  | code line hcode hplain => exact (shown_singleton style .prompt).symm
  | closed block blank h => exact (shown_prompts style block).symm
  | unclosed block => exact (shown_prompts style block).symm

theorem Piece.answer_eq {piece : Piece} (h : piece.source? = some source) :
    piece.answer settings s = sourceMarks settings s source := by
  cases piece with
  | remark line what hword => cases h
  | code | closed | unclosed => simp only [Piece.answer, h, Option.elim_some]

theorem Piece.after_eq {piece : Piece} (h : piece.source? = some source) :
    piece.after settings s = ran settings s source := by
  rw [Piece.after, h, Option.elim_some]

theorem answer_piece (settings : Settings) (piece : Piece) (s : Session) :
    answer settings piece.entry s =
      answerOf settings (piece.answer settings s) (piece.after settings s) := by
  have hsource {head : String} {block : Option (List String)}
      (hentry : piece.entry = .source head block)
      (h : piece.code? = some (head :: block.getD [])) :
      answer settings piece.entry s =
        answerOf settings (piece.answer settings s) (piece.after settings s) := by
    have h : piece.source? = some (sourceText head block) := by
      rw [Piece.source?, h, sourceText_eq, Option.map_some]
    rw [Piece.answer_eq h, Piece.after_eq h, hentry, answer, answerSource_eq]
  cases piece with
  | remark line what h =>
    cases what with
    | blank => rfl
    | help | environment =>
      rw [Piece.answer, Remark.marks, Piece.after, Piece.source?, Piece.code?, Option.map_none,
        Option.elim_none, answerOf, shown_singleton]
      rfl
  | code | closed | unclosed => exact hsource rfl rfl

theorem isBroken_piece (piece : Piece) : piece.entry.isBroken = false := by
  cases piece with
  | remark line what h => cases what <;> rfl
  | code | closed | unclosed => rfl

theorem answerAll_ending (settings : Settings) (ending : Ending) {ignored : List Entry}
    (h : ending.entry.isBroken = false → ignored = []) (written : String) (s : Session) :
    answerAll settings (ending.entry :: ignored) written s =
      ⟨written ++ shown settings.style ending.marks, ending.close, s⟩ := by
  have hpair (first second : Mark) : shown settings.style [first, second] =
      first.text settings.style ++ second.text settings.style := by
    simp [shown]
  cases ending with
  | finished =>
    rw [h rfl, Ending.marks, hpair, ← String.append_assoc]
    rfl
  | left line later =>
    rw [h rfl, Ending.marks, hpair, ← String.append_assoc]
    rfl
  | unreadable later =>
    rw [Ending.marks, shown_singleton, ← @String.append_empty (_ ++ _)]
    rfl
  | brokenBlock block later =>
    rw [Ending.marks, shown_prompts, ← @String.append_empty (_ ++ _)]
    rfl

theorem answerAll_pieces (settings : Settings) (pieces : List Piece) (ending : Ending)
    {ignored : List Entry} (h : ending.entry.isBroken = false → ignored = [])
    (before : List Mark) (s : Session) :
    answerAll settings (pieces.map Piece.entry ++ ending.entry :: ignored)
        (shown settings.style before) s =
      transcript settings (before ++ marks settings pieces s) ending
        (pieces.foldlM (Piece.after settings) s) := by
  induction pieces generalizing before s with
  | nil =>
    rw [List.map_nil, List.nil_append, answerAll_ending settings ending h, marks, List.append_nil,
      ← shown_append]
    rfl
  | cons piece pieces ih =>
    rw [List.map_cons, List.cons_append, answerAll, answer_piece, isBroken_piece,
      prompts_piece settings.style, List.foldlM_cons, marks]
    cases piece.after settings s with
    | ok t =>
      simp only [answerOf, ← shown_append, Bool.false_eq_true, if_false, ih, List.append_assoc]
      rfl
    | error t =>
      simp only [answerOf, ← shown_append, if_true, List.append_nil, List.append_assoc]
      rfl

@[simp] theorem linesIn_append (front back : List Mark) :
    linesIn (front ++ back) = linesIn front ++ linesIn back :=
  List.filterMap_append

@[simp] theorem linesIn_line (lines : List String) : linesIn (lines.map .line) = lines := by
  rw [linesIn, List.filterMap_map]
  exact List.filterMap_some

theorem linesIn_drawings (settings : Settings) (drawings : List Drawing) :
    linesIn (if settings.drawings then drawings.map .drawing else []) = [] := by
  split <;> simp [linesIn]

theorem linesIn_reportMarks (source : String) : linesIn (reportMarks source) = [] := by
  unfold reportMarks
  split <;> rfl

/-- Between two sessions just these lines are printed, and each that waited or was printed is
written by the marks or waits behind them. -/
structure Written (lines : List String) (marks : List Mark) (s t : Session) : Prop where
  printed : t.printed = s.printed ++ lines
  written : linesIn marks ++ t.output.toList = s.output.toList ++ lines

theorem written_source (settings : Settings) (s : Session) (source : String) :
    Written (s.linesOf settings.fuel source) (sourceMarks settings s source) s
      (standing (ran settings s source)) := by
  obtain ⟨hprinted, houtput⟩ := s.prints_linesOf settings.fuel source
  unfold sourceMarks
  obtain hran | hran := ran_eq settings s source
  · refine ⟨?_, ?_⟩
    · rw [hran]
      exact hprinted
    · rw [linesIn_append, linesIn_drawings, hran]
      exact houtput
  · refine ⟨?_, ?_⟩
    · rw [hran]
      exact hprinted
    · rw [hran, linesIn_append, linesIn_drawings, linesIn_append, linesIn_line, linesIn_reportMarks,
        List.nil_append, List.append_nil]
      exact List.append_nil _

@[simp] theorem linesIn_prompts (piece : Piece) : linesIn piece.prompts = [] := by
  have hblock (block : Block) : linesIn block.prompts = [] := by
    simp [linesIn, Block.prompts]
  cases piece with
  | remark | code => rfl
  | closed block | unclosed block => exact hblock block

theorem linesIn_remark {piece : Piece} (h : piece.source? = none) :
    linesIn (piece.answer settings s) = [] := by
  cases piece with
  | remark line what => cases what <;> rfl
  | code | closed | unclosed => cases h

theorem written_piece (settings : Settings) (piece : Piece) (s : Session) :
    ∃ lines, Written lines (piece.prompts ++ piece.answer settings s) s
      (standing (piece.after settings s)) := by
  cases hsource : piece.source? with
  | none =>
    have hafter : piece.after settings s = .ok s := by rw [Piece.after, hsource, Option.elim_none]
    refine ⟨[], ?_, ?_⟩
    · rw [hafter, List.append_nil]
      rfl
    · rw [hafter, linesIn_append, linesIn_prompts, linesIn_remark hsource, List.append_nil,
        List.append_nil]
      rfl
  | some source =>
    obtain ⟨hprinted, hwritten⟩ := written_source settings s source
    rw [Piece.after_eq hsource, Piece.answer_eq hsource]
    refine ⟨_, hprinted, ?_⟩
    rw [linesIn_append, linesIn_prompts, List.nil_append, hwritten]

/-- Each line that a dialogue prints is written once, unless nobody has taken it yet. -/
theorem written_marks (settings : Settings) (pieces : List Piece) (s : Session) :
    ∃ lines, Written lines (marks settings pieces s) s
      (standing (pieces.foldlM (Piece.after settings) s)) := by
  induction pieces generalizing s with
  | nil => exact ⟨[], (List.append_nil _).symm, (List.append_nil _).symm⟩
  | cons piece pieces ih =>
    obtain ⟨first, hfirst⟩ := written_piece settings piece s
    rw [List.foldlM_cons, marks]
    cases hafter : piece.after settings s with
    | error t =>
      rw [hafter] at hfirst
      rw [List.append_nil]
      exact ⟨first, hfirst⟩
    | ok t =>
      rw [hafter] at hfirst
      obtain ⟨lines, hprinted, hwritten⟩ := ih t
      refine ⟨first ++ lines, ?_, ?_⟩
      · rw [← List.append_assoc, ← hfirst.printed]
        exact hprinted
      · rw [linesIn_append, List.append_assoc, ← List.append_assoc s.output.toList,
          ← hfirst.written, List.append_assoc]
        exact congrArg (_ ++ ·) hwritten

theorem ran_of_fault {fault : CompileFault} (settings : Settings) (s : Session)
    (h : compile source = .error (.fault fault)) :
    ran settings s source = .ok { s with output := #[] } := by
  rw [ran, Session.runSource, h]
  rfl

theorem run_of_divides {pieces : List Piece} {ending : Ending} {rows : List Input}
    (settings : Settings) (s : Session) (h : Divides pieces ending rows) :
    run settings rows s =
      transcript settings (.banner :: marks settings pieces s) ending
        (pieces.foldlM (Piece.after settings) s) := by
  obtain ⟨ignored, hentries, hignored⟩ := h.entries
  rw [run, hentries]
  exact answerAll_pieces settings pieces ending hignored [.banner] s

theorem transcript_session (settings : Settings) (marks : List Mark) (ending : Ending)
    (result : Except Session Session) :
    (transcript settings marks ending result).session = standing result := by
  cases result <;> rfl

/-- A dialogue divides its input in just one way, runs the sources among the pieces in order and
takes what each of them prints, and answers every piece when it is complete.  Of the lines that are
printed each is written once.  A source that does not compile changes nothing, only that the lines
before it are taken. -/
theorem run_pieces (settings : Settings) (rows : List Input) (s : Session) :
    (∃! division : List Piece × Ending, Divides division.1 division.2 rows) ∧
    (∀ pieces ending, Divides pieces ending rows →
      run settings rows s = transcript settings (.banner :: marks settings pieces s) ending
        ((pieces.filterMap Piece.source?).foldlM (ran settings) s) ∧
      (∃ lines, (run settings rows s).session.printed = s.printed ++ lines ∧
        linesIn (marks settings pieces s) ++ (run settings rows s).session.output.toList =
          s.output.toList ++ lines) ∧
      ∀ piece ∈ pieces, ∀ n < piece.rows.length, awaitsMore (piece.rows.take (n + 1)) =
        (decide (n + 1 < piece.rows.length) || piece.isUnclosed)) ∧
    ∀ (t : Session) (source : String) (fault : CompileFault),
      compile source = .error (.fault fault) →
        ran settings t source = .ok { t with output := #[] } := by
  refine ⟨?_, fun pieces ending h => ?_, fun t source fault => ran_of_fault settings t⟩
  · obtain ⟨pieces, ending, h⟩ := exists_divides rows
    refine ⟨(pieces, ending), h, fun other hother => ?_⟩
    obtain ⟨hpieces, hending⟩ := hother.unique h
    exact Prod.ext hpieces hending
  · obtain ⟨lines, hprinted, hwritten⟩ := written_marks settings pieces s
    rw [run_of_divides settings s h, transcript_session, ← foldlM_after]
    exact ⟨rfl, ⟨lines, hprinted, hwritten⟩, fun piece _ n => awaitsMore_take piece⟩

/-- A function over two lines, a line that does not compile, and a call of the function. -/
theorem run_pieces_two :
    let settings : Settings := ⟨40, .minimal, false⟩
    let rows : List Input := ["fn two():", "    return 2", " ", " var = ", "help", "print(two())",
      "quit", "env"].map some
    let fault : ParseFault := ⟨.expected .variableName, ⟨1, 5, ⟨4, 5⟩⟩, .assign⟩
    let sources := ["fn two():\n    return 2\n", "var =\n", "print(two())\n"]
    (run settings rows {}).close = .finished ∧
      .ok (run settings rows {}).session = sources.foldlM (ran settings) {} ∧
      awaitsMore (rows.take 2) = true ∧ awaitsMore (rows.take 3) = false ∧
      compile "var =\n" = .error (.fault (.parse fault)) ∧
      ∀ t, ran settings t "var =\n" = .ok { t with output := #[] } := by
  intro settings rows fault sources
  obtain ⟨-, hpieces, hfault⟩ := run_pieces settings rows {}
  let pieces : List Piece :=
    [.closed
        ⟨"fn two():", ["    return 2"], by decide +kernel, by decide +kernel, by decide +kernel⟩
      " " (by decide +kernel),
      .code " var = " (by decide +kernel) (by decide +kernel),
      .remark "help" .help (by decide +kernel),
      .code "print(two())" (by decide +kernel) (by decide +kernel)]
  let ending : Ending := .left "quit" [some "env"] (by decide +kernel)
  have hdivides : Divides pieces ending rows :=
    ((((Divides.nil ending).cons (by rintro ⟨⟩)).cons (by rintro ⟨⟩)).cons (by rintro ⟨⟩)).cons
      (by rintro ⟨⟩)
  have hsources : pieces.filterMap Piece.source? = sources := by decide +kernel
  obtain ⟨hrun, -, hawaits⟩ := hpieces pieces ending hdivides
  have hblock := hawaits _ List.mem_cons_self
  have hcompile : compile "var =\n" = .error (.fault (.parse fault)) := by
    cbv
  have hok : (sources.foldlM (ran settings) {}).isOk = true := by decide +kernel
  cases hfinal : sources.foldlM (ran settings) {} with
  | error crashed =>
    rw [hfinal] at hok
    cases hok
  | ok final =>
    rw [hsources, hfinal] at hrun
    rw [hrun]
    exact ⟨rfl, rfl, hblock 1 (by decide), hblock 2 (by decide), hcompile,
      fun t => hfault t _ _ hcompile⟩

end Splice.Repl
