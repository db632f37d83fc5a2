import Splice.Proofs.Collaborator.Fence
import Splice.Proofs.Tree.Image
import Splice.Proofs.Tree.Parts
import Splice.Proofs.Tree.RoundTrip
import Splice.Session.Run

/-! A collaborator that sends a block back as it got it, in a fence or without one, changes nothing
but what it shows: the block runs as if it had never been sent. -/
namespace Splice

/-- The session in which the answer to a request for a better block is run.  The response is taken,
its prompt is recorded, and two lines and a note are shown. -/
def Session.optimized (s : Session) (later : List Completion) (prompts : Array Prompt)
    (sent code : String) (chunks : Nat) : Session :=
  { s with
    backend := .scripted later (prompts.push (Request.optimizeBlock sent).prompt)
    output := s.output ++ #["[AI] Optimizing block...", "[AI] Optimized Code:\n" ++ code]
    journal := s.journal ++ #[.printed "[AI] Optimizing block...",
      .noted ("optimize_block: received " ++ Run.sizeText code ++ " in " ++ toString chunks ++
        " chunk(s)"),
      .printed ("[AI] Optimized Code:\n" ++ code)] }

/-- Of a block in a program that compiles only the numbers can be in the way of printing it. -/
theorem Stmt.Within.optimize_wellFormed {source : String} {program : Program} {body : List Stmt}
    (hcompile : compile source = .ok program) (hwithin : (Stmt.optimize body).Within program.body)
    (hfinite : ∀ x ∈ Stmt.allNumbers body, x.isFinite = true) :
    body ≠ [] ∧ Stmt.allWellFormed body = true := by
  have hread := hwithin.wellFormed (wellFormed_of_compile hcompile)
  rw [Stmt.wellFormed, Bool.and_eq_true] at hread
  refine ⟨by simpa using hread.1, Stmt.allWellFormed_of_numbers body hread.2 ?_⟩
  exact fun x hx hliteral => Decimal.isNatural_of_isLiteral hliteral (hfinite x hx)

namespace Run

theorem say_bind {α : Type} (line : String) (f : Unit → Run α) (s : Session) :
    (say line >>= f) s = f () (s.say line) := rfl

theorem requestCode_scripted {s : Session} {response : Completion} {later : List Completion}
    {prompts : Array Prompt} (hbackend : s.backend = .scripted (response :: later) prompts)
    (r : Request) :
    requestCode r s = (.ok (unfence response.text),
      { s with backend := .scripted later (prompts.push r.prompt) }.note
        (r.operation ++ ": received " ++ sizeText (unfence response.text) ++ " in " ++
          toString response.chunks.length ++ " chunk(s)")) := by
  have hrequest : request r s =
      (.ok response, { s with backend := .scripted later (prompts.push r.prompt) }) := by
    unfold request
    rw [hbackend]
    rfl
  unfold requestCode
  rw [bind_apply, hrequest]
  rfl

theorem requestOptimized_scripted {s : Session} {response : Completion} {later : List Completion}
    {prompts : Array Prompt} (hbackend : s.backend = .scripted (response :: later) prompts)
    {code : String} (hcode : unfence response.text = code) {program : Program}
    (hcompile : compile code = .ok program) (body : List Stmt) :
    requestOptimized body s = (.ok program,
      s.optimized later prompts (Stmt.printAll body) code response.chunks.length) := by
  have hsaid : (s.say "[AI] Optimizing block...").backend =
      .scripted (response :: later) prompts := hbackend
  have hreceived := requestCode_scripted hsaid (.optimizeBlock (Stmt.printAll body))
  rw [hcode] at hreceived
  unfold requestOptimized
  rw [say_bind, bind_apply, hreceived]
  dsimp only
  rw [say_bind]
  unfold compileAnswer
  rw [hcompile]
  simp only [pure_apply, Session.say, Session.note, Session.optimized, Request.operation,
    Array.push_eq_append, Array.append_assoc]
  rfl

theorem exec_optimize_scripted {s : Session} {response : Completion} {later : List Completion}
    {prompts : Array Prompt} (hbackend : s.backend = .scripted (response :: later) prompts)
    {code : String} (hcode : unfence response.text = code) {program : Program}
    (hcompile : compile code = .ok program) (body : List Stmt) (fuel : Nat) :
    exec (fuel + 1) (.optimize body) s = execBlock fuel program.body
      (s.optimized later prompts (Stmt.printAll body) code response.chunks.length) := by
  rw [exec, bind_apply, requestOptimized_scripted hbackend hcode hcompile]

theorem exec_optimize_crash {s : Session} {response : Completion} {later : List Completion}
    {prompts : Array Prompt} (hbackend : s.backend = .scripted (response :: later) prompts)
    {code : String} (hcode : unfence response.text = code) (hcrash : compile code = .error .crash)
    (body : List Stmt) (fuel : Nat) : (exec (fuel + 1) (.optimize body) s).1 = .error .crash := by
  have hsaid : (s.say "[AI] Optimizing block...").backend =
      .scripted (response :: later) prompts := hbackend
  have hreceived := requestCode_scripted hsaid (.optimizeBlock (Stmt.printAll body))
  rw [hcode] at hreceived
  rw [exec, bind_apply, requestOptimized, say_bind, bind_apply, hreceived]
  dsimp only
  rw [say_bind, compileAnswer, hcrash]
  rfl

def nineFold : Expr :=
  Nat.repeat (fun e => .binary .add e (.name "x")) 8 (.name "x")

/-- A block with such a sum and a long name, written without spaces. -/
def tightBlock (length : Nat) : String :=
  "ai.optimize:" ++ "\n" ++ (" x+x+x+x+x+x+x+x+x" ++ "\n" ++ (" " ++ longName length))

theorem compile_tightBlock {length : Nat} (hlength : 0 < length)
    (hsize : 33 + length < Span.limit) :
    compile (tightBlock length) = .ok ⟨[.optimize (endingLong (.expr nineFold) length)]⟩ := by
  have hwords : Token.textWords (tightBlock length).toList =
      .ok (Stmt.words false [.optimize (endingLong (.expr nineFold) length)]) := by
    have hfirst : Token.lineWords {} "ai.optimize:".toList =
        .ok ([(.keyword .aiOptimize, "ai.optimize"), Kind.colon.word], {}) := by
      cbv
    have hsecond : Token.lineWords {} " x+x+x+x+x+x+x+x+x".toList =
        .ok (Kind.indent.word :: (nineFold.spelling.line), ⟨[1]⟩) := by
      cbv
    have hlast : '\n' ∉ ' ' :: (longName length).toList := by
      simp [newline_notMem_longName]
    have hcuts : Text.cut (tightBlock length).toList = ("ai.optimize:".toList,
        [" x+x+x+x+x+x+x+x+x".toList, ' ' :: (longName length).toList]) := by
      have hname : (" " ++ longName length).toList = ' ' :: (longName length).toList :=
        String.toList_append
      rw [tightBlock, Text.cut_first (by decide), Text.cut_first (by decide), hname,
        Text.cut_line hlast]
    rw [Token.textWords, hcuts]
    exact Token.linesWords_cons_eq_ok.mpr ⟨_, _, _, hfirst,
      Token.linesWords_cons_eq_ok.mpr ⟨_, _, _, hsecond,
        @Token.linesWords_longName ⟨[1]⟩ _ 1 hlength rfl 3, rfl⟩, rfl⟩
  have hbytes : (tightBlock length).utf8ByteSize = 33 + length := by
    simp only [tightBlock, String.utf8ByteSize_append, utf8ByteSize_longName]
    change 12 + 1 + (18 + 1 + (1 + length)) = 33 + length
    omega
  obtain ⟨tokens, htokens, hread⟩ :=
    Token.exists_tokens (Token.ofSource_ne_crash (hbytes.trans_lt hsize)) hwords
  have hwf : Stmt.allWellFormed [.optimize (endingLong (.expr nineFold) length)] = true := by
    simp only [Stmt.allWellFormed, Stmt.wellFormed,
      wellFormed_endingLong (show Stmt.wellFormed (.expr nineFold) = true by decide) hlength]
    rfl
  have hcompile := compile_words hwf htokens hread
  rwa [if_pos] at hcompile
  simp only [Stmt.maxNesting, Stmt.nesting, maxNesting_endingLong]
  decide

end Run

end Splice
