import Splice.Proofs.Session.Exchanges
import Splice.Proofs.Session.Isolation

/-! What a run leaves behind is only ever added to: printed lines, facts, drawings, prompts and the
names of functions.  Requests are accounted for one by one, since each of them adds one prompt and
takes one response from the queue. -/
namespace Splice

namespace Session

/-- All that the first session has recorded is where the second one's records begin. -/
structure Begins (s t : Session) : Prop where
  output : s.output.toList <+: t.output.toList
  facts : s.facts.toList <+: t.facts.toList
  drawings : s.drawings <+: t.drawings
  functions : s.functions.names <+: t.functions.names

theorem Begins.trans {s t u : Session} (hst : s.Begins t) (htu : t.Begins u) : s.Begins u where
  output := hst.output.trans htu.output
  facts := hst.facts.trans htu.facts
  drawings := hst.drawings.trans htu.drawings
  functions := hst.functions.trans htu.functions

/-- A session after a run with these exchanges, from a session with this queue of responses and
these prompts recorded.  One prompt is recorded for each exchange, so many responses are gone from
the queue as far as there were any, and the exchanges got these responses in order. -/
structure Accounted (s : Session) (queue : List Completion) (prompts : Array Prompt)
    (xs : List Exchange) (t : Session) : Prop where
  begins : s.Begins t
  backend : t.backend = .scripted (queue.drop xs.length) (prompts ++ xs.map (·.request.prompt))
  answers : ∀ (i : Nat) (x : Exchange), xs[i]? = some x →
    x.answer = Backend.scriptedAnswer x.request queue[i]?

end Session

namespace Run

open Session

theorem begins_discipline : Discipline Begins Begins where
  refl _ := ⟨List.prefix_refl _, List.prefix_refl _, List.prefix_refl _, List.prefix_refl _⟩
  trans _ _ _ := Begins.trans
  transStmt _ _ _ := Begins.trans
  weaken _ _ h := h
  say s line := ⟨by simp [Session.say], List.prefix_refl _, by simp, List.prefix_refl _⟩
  note s text := ⟨List.prefix_refl _, List.prefix_refl _, by simp, List.prefix_refl _⟩
  draw s drawing := ⟨List.prefix_refl _, List.prefix_refl _, by simp, List.prefix_refl _⟩
  remember s fact :=
    ⟨List.prefix_refl _, by simp [Session.remember], List.prefix_refl _, List.prefix_refl _⟩
  register s decl :=
    ⟨List.prefix_refl _, List.prefix_refl _, (s.drawings_note _).symm ▸ List.prefix_refl _,
      s.functions.names_prefix_put decl.name _⟩
  answer _ _ := ⟨List.prefix_refl _, List.prefix_refl _, List.prefix_refl _, List.prefix_refl _⟩
  define _ _ _ := ⟨List.prefix_refl _, List.prefix_refl _, List.prefix_refl _, List.prefix_refl _⟩
  call _ _ _ _ h := ⟨h.output, h.facts, h.drawings, h.functions⟩
  inline _ _ _ _ h := ⟨h.output, h.facts, h.drawings, h.functions⟩

theorem Conducts.accounted {α : Type} {x : Run α} {s : Session} {queue : List Completion}
    {prompts : Array Prompt} {xs : List Exchange} (hbackend : s.backend = .scripted queue prompts)
    (hx : Conducts x s xs) (hbegins : Preserves Begins x) :
    s.Accounted queue prompts xs (x s).2 := by
  unfold Conducts at hx
  rw [hbackend] at hx
  obtain ⟨hleft, hanswers⟩ := hx.scripted
  exact ⟨hbegins s, hleft, hanswers⟩

/-- However a run ends, from a session with a queue of responses: what had been printed,
remembered, drawn, asked and declared is still there, first and in order, and the requests of the
run are accounted for, that for a fix after a failure among them. -/
theorem journals_after_run {s : Session} {queue : List Completion} {prompts : Array Prompt}
    (hbackend : s.backend = .scripted queue prompts) (fuel : Nat) :
    (∀ stmt, s.Accounted queue prompts ((Task.exec stmt).exchanges fuel s)
      (exec fuel stmt s).2) ∧
    (∀ e, s.Accounted queue prompts ((Task.eval e).exchanges fuel s) (eval fuel e s).2) ∧
    (∀ name args, s.Accounted queue prompts ((Task.call name args).exchanges fuel s)
      (call fuel name args s).2) ∧
    (∀ program, s.Accounted queue prompts ((Task.run program).exchanges fuel s)
      (runProgram fuel program s).2) ∧
    ∀ program, s.Accounted queue prompts (evaluateExchanges fuel program s)
      (evaluate fuel program s).2 := by
  have hconduct := AllConduct.all fuel
  have hbegins := begins_discipline.all fuel
  refine ⟨fun stmt => ?_, fun e => ?_, fun name args => ?_, fun program => ?_, fun program => ?_⟩
  · exact (hconduct.exec stmt s).accounted hbackend (hbegins.exec stmt)
  · exact (hconduct.eval e s).accounted hbackend (hbegins.eval e)
  · exact (hconduct.call name args s).accounted hbackend (hbegins.call name args)
  · exact (hconduct.runProgram program s).accounted hbackend (hbegins.runProgram program)
  · exact (Conducts.evaluate fuel program s).accounted hbackend
      (begins_discipline.evaluate fuel program)

theorem journals_after_run_two_questions :
    let s : Session := { backend := .ofResponses [⟨["ye", "s"]⟩], facts := #["old"] }
    let program : Program :=
      ⟨[.expr (.call "ai_remember" [.call "ai_ask" [.text "first"]]),
        .expr (.call "ai_ask" [.text "second"])]⟩
    let xs := evaluateExchanges 20 program s
    s.backend = .scripted [⟨["ye", "s"]⟩] #[] ∧
      s.Accounted [⟨["ye", "s"]⟩] #[] xs (evaluate 20 program s).2 ∧
      xs.map (·.answer.toOption) = [some ⟨["ye", "s"]⟩, none, none] ∧
      (evaluate 20 program s).2.facts = #["old", "yes"] := by
  intro s program xs
  have hbackend : s.backend = .scripted [⟨["ye", "s"]⟩] #[] := rfl
  exact ⟨hbackend, (journals_after_run hbackend 20).2.2.2.2 program, by decide +kernel,
    by decide +kernel⟩

end Run

end Splice
