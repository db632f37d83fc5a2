import Splice.Proofs.Session.Alike

/-! How a response is cut into chunks is never noticed.  Code, answers and suggestions are made of
the text of a response; only notes for the curious give the number of its chunks. -/
namespace Splice

/-- Backends whose responses have the same texts, one by one, in chunks that may differ. -/
inductive Backend.SameTexts : Backend → Backend → Prop where
  | scripted {responses responses' : List Completion}
      (h : responses.map Completion.text = responses'.map Completion.text)
      (prompts : Array Prompt) :
      SameTexts (.scripted responses prompts) (.scripted responses' prompts)
  | refusing (fault : CollaboratorFault) : SameTexts (.refusing fault) (.refusing fault)

theorem Backend.SameTexts.answer {b c : Backend} (h : b.SameTexts c) (r : Request) :
    (b.answer r).1.map Completion.text = (c.answer r).1.map Completion.text ∧
      (b.answer r).2.SameTexts (c.answer r).2 := by
  cases h with
  | @scripted responses responses' h prompts =>
    match responses, responses' with
    | [], [] => exact ⟨rfl, .scripted h _⟩
    | x :: later, y :: later' =>
      obtain ⟨htext, hlater⟩ := List.cons.inj h
      exact ⟨congrArg Except.ok htext, .scripted hlater _⟩
    | [], _ :: _ | _ :: _, [] => cases h
  | refusing fault => exact ⟨rfl, .refusing fault⟩

theorem unnoticed_chunks : Unnoticed (· = ·) Backend.SameTexts where
  get? h name := by rw [h]
  put h name callable := by rw [h]
  answer h r := (h.answer r).1
  after h r := (h.answer r).2

/-- Sessions that are the same but for the chunks of the responses in the queue. -/
def Session.SameButChunks : Session → Session → Prop :=
  Session.Alike (· = ·) Backend.SameTexts

namespace Run

/-- From two sessions that are the same but for the chunks of queued responses, every run has one
outcome, and the sessions that it leaves are again the same but for the chunks of the responses
that are still queued. -/
theorem chunks_unnoticed {s t : Session} (hst : s.SameButChunks t) (fuel : Nat) :
    (∀ program, (evaluate fuel program s).1 = (evaluate fuel program t).1 ∧
      (evaluate fuel program s).2.SameButChunks (evaluate fuel program t).2) ∧
    (∀ source, (s.runSource fuel source).1 = (t.runSource fuel source).1 ∧
      (s.runSource fuel source).2.SameButChunks (t.runSource fuel source).2) ∧
    (∀ program, (runProgram fuel program s).1 = (runProgram fuel program t).1 ∧
      (runProgram fuel program s).2.SameButChunks (runProgram fuel program t).2) ∧
    (∀ stmt, (exec fuel stmt s).1 = (exec fuel stmt t).1 ∧
      (exec fuel stmt s).2.SameButChunks (exec fuel stmt t).2) ∧
    (∀ e, (eval fuel e s).1 = (eval fuel e t).1 ∧
      (eval fuel e s).2.SameButChunks (eval fuel e t).2) ∧
    ∀ name args, (call fuel name args s).1 = (call fuel name args t).1 ∧
      (call fuel name args s).2.SameButChunks (call fuel name args t).2 := by
  have hall := unnoticed_chunks.coupling.all fuel
  refine ⟨fun program => ?_, fun source => ?_, fun program => ?_, fun stmt => ?_, fun e => ?_,
    fun name args => ?_⟩
  · exact unnoticed_chunks.evaluate fuel program s t hst
  · exact Agree.runSource (unnoticed_chunks.evaluate fuel) source hst
  · exact hall.runProgram 0 program s t hst
  · exact hall.exec 0 stmt s t hst
  · exact hall.eval 0 e s t hst
  · exact hall.call 0 name args s t hst

theorem chunks_unnoticed_answer :
    let whole : Session := { backend := .ofResponses [⟨["yes"]⟩, ⟨["later"]⟩] }
    let pieces : Session := { backend := .ofResponses [⟨["y", "", "es"]⟩, ⟨["late", "r"]⟩] }
    let program : Program := ⟨[.expr (.call "print" [.call "ai_ask" [.text "now?"]])]⟩
    whole.SameButChunks pieces ∧
      (evaluate 20 program whole).2.SameButChunks (evaluate 20 program pieces).2 ∧
      (evaluate 20 program whole).2.output = #["[AI Asking]: now?", "yes"] ∧
      (evaluate 20 program pieces).2.backend.remaining? = some 1 := by
  intro whole pieces program
  have hst : whole.SameButChunks pieces :=
    ⟨rfl, rfl, rfl, rfl, rfl, rfl, .scripted (by decide) #[]⟩
  exact ⟨hst, ((chunks_unnoticed hst 20).1 program).2, by decide +kernel, by decide +kernel⟩

end Run

end Splice
