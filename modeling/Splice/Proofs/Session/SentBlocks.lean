import Splice.Proofs.Session.Exchanges
import Splice.Proofs.Tree.BlockLines

/-! Blocks that are sent to the collaborator.  The code that goes along with the request is the text
of the block as it stands in the text of the program, without the indentation that its lines have in
common there. -/
namespace Splice

/-- The block that a statement sends to the collaborator, if it has one to send. -/
def Stmt.sent? : Stmt → Option (List Stmt)
  | .optimize body => some body
  | .ask _ body => body
  | _ => none

def Request.code? : Request → Option String
  | .optimizeBlock source => some source
  | .process _ context => some context
  | _ => none

theorem Stmt.mem_blocks_of_sent {s : Stmt} {block : List Stmt} (h : s.sent? = some block) :
    block ∈ s.blocks := by
  match s with
  | .optimize body | .ask _ (some body) =>
    cases h
    exact List.mem_cons_self

namespace Run

theorem exchanges_of_sent {s : Stmt} {block : List Stmt} (h : s.sent? = some block) (fuel : Nat)
    (session : Session) : ∃ r later,
      (Task.exec s).exchanges (fuel + 1) session = session.exchange r :: later ∧
        r.code? = some (Stmt.printAll block) := by
  match s with
  | .optimize body =>
    cases h
    exact ⟨_, _, rfl, rfl⟩
  | .ask instruction (some body) =>
    cases h
    exact ⟨_, _, rfl, rfl⟩

/-- Wherever the statement runs, the first prompt of its run carries this code. -/
def Sends (s : Stmt) (code : String) : Prop :=
  ∀ (fuel : Nat) {session : Session} {queue : List Completion} {prompts : Array Prompt},
    session.backend = .scripted queue prompts →
      ∃ (r : Request) (left : List Completion) (later : Array Prompt), r.code? = some code ∧
        (exec (fuel + 1) s session).2.backend =
          .scripted left (prompts ++ #[r.prompt] ++ later)

theorem sends_of_sent {s : Stmt} {block : List Stmt} (h : s.sent? = some block) :
    Sends s (Stmt.printAll block) := by
  intro fuel session queue prompts hbackend
  obtain ⟨r, more, hexchanges, hcode⟩ := exchanges_of_sent h fuel session
  have hrun := (AllConduct.all (fuel + 1)).exec s session
  rw [Conducts, hbackend, hexchanges] at hrun
  obtain ⟨hleft, -⟩ := hrun.scripted
  refine ⟨r, queue.drop (more.length + 1), (more.map (·.request.prompt)).toArray, hcode, ?_⟩
  rw [hleft]
  refine congrArg (Backend.scripted _) (Array.toList_inj.mp ?_)
  simp [Session.exchange]

end Run

/-- A statement at a depth is the same lines moved to the right.  The lines of a block that is sent
follow each other among them, and the code that is sent is these lines without the indentation of
their depth, which is all that they have in common if the names in the block begin at the margin. -/
theorem print_shifted {s : Stmt} (hs : Stmt.Unbroken [s]) (depth : Nat) :
    Text.lines (s.print depth) = (Text.lines (s.print 0)).map (Pen.indentation depth ++ ·) ∧
      ∀ {t : Stmt} {level : Nat} {block : List Stmt}, t.StandsAt level [s] →
        t.sent? = some block →
          Stmt.blockLines (depth + level + 1) block <:+: Text.lines (s.print depth) ∧
            ∃ sent : List String,
              Stmt.blockLines (depth + level + 1) block =
                sent.map (Pen.indentation (depth + level + 1) ++ ·) ∧
              (Stmt.NamesFlush block →
                Text.dedent (Stmt.blockLines (depth + level + 1) block) = sent) ∧
              Run.Sends t ("\n".intercalate sent) := by
  refine ⟨Stmt.lines_print hs depth, ?_⟩
  intro t level block ht hsent
  have hinner := Stmt.mem_blocks_of_sent hsent
  have hstmt := ht.unbroken hs
  have hblock := hstmt.inside hinner
  refine ⟨?_, Stmt.blockLines 0 block, Stmt.blockLines_moved hblock _, ?_, ?_⟩
  · have hlines := ht.lines_isInfixOf hs depth
    rw [Stmt.blockLines, List.flatMap_singleton] at hlines
    exact (Stmt.blockLines_isInfixOf hstmt hinner _).trans hlines
  · exact fun hn => Stmt.dedent_blockLines hblock hn _
  · rw [Stmt.intercalate_blockLines]
    exact Run.sends_of_sent hsent

def boxed : Stmt :=
  .loop (.binary .less (.ui .box [] [.ui .text [] []]) (.number 3))
    [.optimize [.expr (.call "f" [.name "x"]), .ret none]]

theorem print_shifted_boxed :
    Stmt.Unbroken [boxed] ∧
      Text.lines (boxed.print 0) = ["while box():", "    text()", "< 3:", "    ai.optimize:",
        "        f(x)", "        return"] ∧
      Text.lines (boxed.print 1) = ["    while box():", "        text()", "    < 3:",
        "        ai.optimize:", "            f(x)", "            return"] ∧
      Text.dedent ["            f(x)", "            return"] = ["f(x)", "return"] ∧
      Run.Sends (.optimize [.expr (.call "f" [.name "x"]), .ret none]) "f(x)\nreturn" := by
  have hwf : Stmt.allWellFormed [boxed] Decimal.isLiteral = true := by decide +kernel
  have hunbroken := Stmt.unbroken_of_wellFormed hwf
  have hstart : Text.lines (boxed.print 0) = ["while box():", "    text()", "< 3:",
      "    ai.optimize:", "        f(x)", "        return"] := by
    decide +kernel
  have hown : Stmt.blockLines 3 [.expr (.call "f" [.name "x"]), .ret none] =
      ["            f(x)", "            return"] := by
    decide +kernel
  have hstands : (Stmt.optimize [.expr (.call "f" [.name "x"]), .ret none]).StandsAt 1 [boxed] :=
    .inside List.mem_cons_self List.mem_cons_self (.here List.mem_cons_self)
  have hnames : Stmt.NamesFlush [.expr (.call "f" [.name "x"]), .ret none] :=
    Stmt.namesFlush_of_wellFormed (by decide +kernel)
  obtain ⟨hlines, hblocks⟩ := print_shifted hunbroken 1
  obtain ⟨-, sent, -, hdedent, hsends⟩ := hblocks hstands rfl
  have hmoved : (["f(x)", "return"] : List String) =
      Text.dedent ["            f(x)", "            return"] := by
    decide +kernel
  rw [hstart] at hlines
  rw [← hdedent hnames, hown, ← hmoved] at hsends
  exact ⟨hunbroken, hstart, hlines.trans (by decide +kernel), hmoved.symm, hsends⟩

end Splice
