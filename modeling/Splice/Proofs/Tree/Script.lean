import Splice.Proofs.Tree.Moves

/-! The parsers, step by step.  A script says which single steps a parser takes, each chosen by what
the steps before it gave.  What holds of every step holds along a script: no step moves the cursor
back or beyond the end of input, and a run depends only on the tokens that its steps look at. -/
namespace Splice

namespace Cursor

variable {c d e : Cursor}

/-- Two cursors that have read the same tokens and agree on the tokens up to place `n`. -/
structure Alike (n : Nat) (c d : Cursor) : Prop where
  before : c.before = d.before
  nesting : c.nesting = d.nesting
  reach : c.position ≤ n
  ahead : (c.here :: c.after).take (n + 1 - c.position) =
    (d.here :: d.after).take (n + 1 - c.position)

namespace Alike

variable {n : Nat} (h : c.Alike n d)
include h

theorem here : c.here = d.here := by
  have hreach := h.reach
  have hahead := h.ahead
  rw [show n + 1 - c.position = (n - c.position) + 1 by omega, List.take_succ_cons,
    List.take_succ_cons] at hahead
  exact (List.cons.inj hahead).1

theorem kind_eq : c.kind = d.kind :=
  congrArg Token.kind h.here

theorem fault (cause : ParseFault.Cause) : c.fault cause = d.fault cause := by
  unfold Cursor.fault
  rw [h.kind_eq, h.here]

theorem nested (count : Nat) :
    Alike n { c with nesting := count } { d with nesting := count } :=
  ⟨h.before, rfl, h.reach, h.ahead⟩

theorem advance (hc : c.Ended) (hreach : c.advance.position ≤ n) : c.advance.Alike n d.advance := by
  by_cases hkind : c.kind = .endOfInput
  · rw [advance_of_atEnd hkind, advance_of_atEnd (h.kind_eq ▸ hkind)]
    exact h
  · obtain ⟨next, later, hafter⟩ := hc.exists_after hkind
    have hahead := h.ahead
    rw [advance_of_not_atEnd hkind hafter] at hreach ⊢
    have hroom : c.position + 1 ≤ n := hreach
    rw [show n + 1 - c.position = (n - c.position - 1) + 1 + 1 by omega, hafter,
      List.take_succ_cons, List.take_succ_cons] at hahead
    cases hother : d.after with
    | nil =>
      rw [hother] at hahead
      cases (List.cons.inj hahead).2
    | cons next' later' =>
      rw [hother] at hahead
      rw [advance_of_not_atEnd (h.kind_eq ▸ hkind) hother]
      refine ⟨by simp [h.before, h.here], h.nesting, hroom, ?_⟩
      have hplace : position { c with before := c.here :: c.before, here := next, after := later }
        = c.position + 1 := rfl
      rw [hplace, show n + 1 - (c.position + 1) = (n - c.position - 1) + 1 by omega]
      exact (List.cons.inj hahead).2

end Alike

theorem Alike.skipNewlines {n : Nat} {c d : Cursor} (h : c.Alike n d) (hc : c.Ended)
    (hreach : c.skipNewlines.position ≤ n) : c.skipNewlines.Alike n d.skipNewlines := by
  have hsame := h.kind_eq
  by_cases hkind : c.kind = .newline
  · have hless := hc.left_advance (by simp [hkind])
    have hother : d.kind = .newline := hsame ▸ hkind
    rw [← skipNewlines_advance hkind] at hreach ⊢
    rw [← skipNewlines_advance hother]
    have hnext := h.advance hc (Nat.le_trans (leads_skipNewlines _).position_le hreach)
    exact hnext.skipNewlines hc.advance hreach
  · have hother : ¬ d.kind = .newline := hsame ▸ hkind
    rw [skipNewlines_eq_self hkind, skipNewlines_eq_self hother]
    exact h
termination_by c.left

end Cursor

namespace Parser

variable {α β : Type} {n : Nat} {c d : Cursor}

/-- Two results that are alike: the same fault, or the same answer from cursors that agree up to
place `n` unless the first one has moved beyond it. -/
inductive SameWithin (n : Nat) : (_ _ : Except ParseFault (α × Cursor)) → Prop where
  | ok (a : α) {c d : Cursor} (h : c.position ≤ n → c.Alike n d) :
      SameWithin n (.ok (a, c)) (.ok (a, d))
  | error (fault : ParseFault) : SameWithin n (.error fault) (.error fault)

/-- The single steps that the parsers are made of.  Of a token that is read only the text counts. -/
inductive Step : Type → Type where
  | kind : Step Kind
  | isNext (wanted : Kind) : Step Bool
  | operator? : Step (Option Operator)
  | ends : Step Bool
  | advance : Step String
  | accept (wanted : Kind) : Step Bool
  | expect (wanted : Kind) (what : ParseFault.Expected) : Step String
  | breakLine : Step Unit
  | skipNewlines : Step Unit
  | enter : Step Unit
  | leave : Step Unit
  | endStatement : Step Unit
  | acceptOtherwise : Step Bool
  | opensGenerated : Step Bool

namespace Step

def run : Step α → Parser α
  | .kind => Parser.kind
  | .isNext wanted => return (← Parser.kind) = wanted
  | .operator? => return (← Parser.kind).operator?
  | .ends => return (← Parser.kind).endsStatement
  | .advance => return (← Parser.advance).text
  | .accept wanted => Parser.accept wanted
  | .expect wanted what => return (← Parser.expect wanted what).text
  | .breakLine => do let _ ← Parser.expect .newline .blockNewline
  | .skipNewlines => Parser.skipNewlines
  | .enter => Parser.enter
  | .leave => Parser.leave
  | .endStatement => Parser.endStatement
  | .acceptOtherwise => Parser.acceptOtherwise
  | .opensGenerated => Parser.opensGenerated

def sees : Step α → Cursor → Cursor
  | .skipNewlines, c => c.skipNewlines
  | .acceptOtherwise, c => c.skipNewlines
  | _, c => c

theorem leads_sees (step : Step α) (c : Cursor) : c.Leads (step.sees c) := by
  cases step with
  | skipNewlines => exact c.leads_skipNewlines
  | acceptOtherwise => exact c.leads_skipNewlines
  | _ => exact .refl c

/-- A step reads on, or it fails at the token under the cursor and has looked no further. -/
theorem run_cases (step : Step α) (c : Cursor) :
    (∃ a c', step.run c = .ok (a, c') ∧ c.Leads c') ∨
      ∃ cause, step.run c = .error (c.fault cause) ∧ step.sees c = c := by
  cases step with
  | kind | isNext | operator? | ends => exact .inl ⟨_, _, rfl, .refl c⟩
  | advance => exact .inl ⟨_, _, rfl, c.leads_advance⟩
  | accept wanted =>
    by_cases hkind : c.kind = wanted
    · exact .inl ⟨_, _, congrArg Except.ok (if_pos hkind), c.leads_advance⟩
    · exact .inl ⟨_, _, congrArg Except.ok (if_neg hkind), .refl c⟩
  | expect wanted what =>
    by_cases hkind : c.kind = wanted
    · exact .inl ⟨_, _, bind_of_ok (if_pos hkind), c.leads_advance⟩
    · exact .inr ⟨_, bind_of_error (if_neg hkind), rfl⟩
  | breakLine =>
    by_cases hkind : c.kind = .newline
    · exact .inl ⟨_, _, bind_of_ok (if_pos hkind), c.leads_advance⟩
    · exact .inr ⟨_, bind_of_error (if_neg hkind), rfl⟩
  | skipNewlines => exact .inl ⟨_, _, rfl, c.leads_skipNewlines⟩
  | enter =>
    by_cases hdeep : maxNesting ≤ c.nesting
    · exact .inr ⟨_, if_pos hdeep, rfl⟩
    · exact .inl ⟨_, _, if_neg hdeep, .refl c⟩
  | leave => exact .inl ⟨_, _, rfl, .refl c⟩
  | endStatement =>
    by_cases hends : c.before.head?.map (·.kind) = some .dedent ∨ c.kind.endsStatement
    · exact .inl ⟨_, _, if_pos hends, .refl c⟩
    · exact .inr ⟨_, if_neg hends, rfl⟩
  | acceptOtherwise =>
    by_cases hword : c.skipNewlines.kind = .keyword .otherwise
    · exact .inl ⟨_, _, congrArg Except.ok (if_pos hword),
        c.leads_skipNewlines.trans c.skipNewlines.leads_advance⟩
    · exact .inl ⟨_, _, congrArg Except.ok (if_neg hword), .refl c⟩
  | opensGenerated => exact .inl ⟨_, _, rfl, .refl c⟩

theorem leads_of_ok {step : Step α} {a : α} {c' : Cursor} (h : step.run c = .ok (a, c')) :
    c.Leads c' := by
  rcases step.run_cases c with ⟨_, _, hrun, hleads⟩ | ⟨_, hrun, -⟩
  · cases h.symm.trans hrun
    exact hleads
  · cases h.symm.trans hrun

theorem run_alike (step : Step α) (h : c.Alike n d) (hc : c.Ended)
    (hsees : (step.sees c).position ≤ n) : SameWithin n (step.run c) (step.run d) := by
  cases step with
  | kind =>
    simp only [run, Parser.kind]
    rw [← h.kind_eq]
    exact .ok _ fun _ => h
  | isNext wanted =>
    rw [show (isNext wanted).run d = .ok (decide (d.kind = wanted), d) from rfl, ← h.kind_eq]
    exact .ok _ fun _ => h
  | operator? =>
    rw [show operator?.run d = .ok (d.kind.operator?, d) from rfl, ← h.kind_eq]
    exact .ok _ fun _ => h
  | ends =>
    rw [show ends.run d = .ok (d.kind.endsStatement, d) from rfl, ← h.kind_eq]
    exact .ok _ fun _ => h
  | advance =>
    rw [show advance.run d = .ok (d.here.text, d.advance) from rfl, ← h.here]
    exact .ok _ (h.advance hc)
  | accept wanted =>
    simp only [run, Parser.accept]
    rw [← h.kind_eq]
    split
    · exact .ok _ (h.advance hc)
    · exact .ok _ fun _ => h
  | expect wanted what =>
    by_cases hkind : c.kind = wanted
    · have hother : d.kind = wanted := h.kind_eq ▸ hkind
      rw [run, bind_of_ok (if_pos hkind), bind_of_ok (if_pos hother), ← h.here]
      exact .ok _ (h.advance hc)
    · have hother : d.kind ≠ wanted := h.kind_eq ▸ hkind
      rw [run, bind_of_error (if_neg hkind), bind_of_error (if_neg hother), ← h.fault]
      exact .error _
  | breakLine =>
    by_cases hkind : c.kind = .newline
    · have hother : d.kind = .newline := h.kind_eq ▸ hkind
      rw [run, bind_of_ok (if_pos hkind), bind_of_ok (if_pos hother)]
      exact .ok _ (h.advance hc)
    · have hother : d.kind ≠ .newline := h.kind_eq ▸ hkind
      rw [run, bind_of_error (if_neg hkind), bind_of_error (if_neg hother), ← h.fault]
      exact .error _
  | skipNewlines => exact .ok _ (h.skipNewlines hc)
  | enter =>
    simp only [run, Parser.enter]
    rw [← h.nesting, ← h.fault]
    split
    · exact .error _
    · exact .ok _ fun _ => h.nested _
  | leave =>
    simp only [run, Parser.leave]
    rw [← h.nesting]
    exact .ok _ fun _ => h.nested _
  | endStatement =>
    simp only [run, Parser.endStatement]
    rw [← h.before, ← h.kind_eq, ← h.fault]
    split
    · exact .ok _ fun _ => h
    · exact .error _
  | acceptOtherwise =>
    have hahead := h.skipNewlines hc hsees
    simp only [run, Parser.acceptOtherwise]
    rw [← hahead.kind_eq]
    split
    · exact .ok _ (hahead.advance hc.skipNewlines.1)
    · exact .ok _ fun _ => h
  | opensGenerated =>
    simp only [run, Parser.opensGenerated]
    rw [← h.kind_eq, ← h.here]
    exact .ok _ fun _ => h

end Step

/-- What a parser does, step by step. -/
inductive Script (α : Type) : Type 1 where
  | done (a : α)
  | fail (cause : ParseFault.Cause)
  | step {β : Type} (first : Step β) (next : β → Script α)

namespace Script

variable {s : Script α}

def run : Script α → Parser α
  | done a => pure a
  | fail cause => Parser.fail cause
  | step first next => first.run >>= fun b => (next b).run

def bind : Script α → (α → Script β) → Script β
  | done a, f => f a
  | fail cause, _ => .fail cause
  | step first next, f => .step first fun b => (next b).bind f

theorem run_bind (s : Script α) (f : α → Script β) :
    (s.bind f).run = s.run >>= fun a => (f a).run := by
  induction s with
  | done a => rfl
  | fail cause => rfl
  | step first next ih =>
    simp only [bind, run, ih, bind_assoc]

/-- The run of a script from one cursor takes a step at another one. -/
inductive Meets : Script α → Cursor → {β : Type} → Step β → Cursor → Prop where
  | first {β : Type} {first : Step β} {next : β → Script α} {c : Cursor} :
      Meets (.step first next) c first c
  | later {β γ : Type} {first : Step β} {next : β → Script α} {step : Step γ} {b : β}
      {c c' d : Cursor} (hfirst : first.run c = .ok (b, c')) (h : Meets (next b) c' step d) :
      Meets (.step first next) c step d

/-- Where the run of a script ends, by itself or with a fault. -/
def last : Script α → Cursor → Cursor
  | .step first next, c =>
    match first.run c with
    | .ok (b, c') => (next b).last c'
    | .error _ => c
  | _, c => c

theorem last_of_ok {first : Step β} {next : β → Script α} {b : β} {c' : Cursor}
    (h : first.run c = .ok (b, c')) : (step first next).last c = (next b).last c' := by
  rw [last, h]

theorem last_of_error {first : Step β} {next : β → Script α} {fault : ParseFault}
    (h : first.run c = .error fault) : (step first next).last c = c := by
  rw [last, h]

theorem leads_last (s : Script α) (c : Cursor) : c.Leads (s.last c) := by
  induction s generalizing c with
  | done a => exact .refl c
  | fail cause => exact .refl c
  | step first next ih =>
    rcases first.run_cases c with ⟨b, c', hrun, hleads⟩ | ⟨cause, hrun, -⟩
    · rw [last_of_ok hrun]
      exact hleads.trans (ih b c')
    · rw [last_of_error hrun]
      exact .refl c

/-- A run ends with its answer at the last cursor, or with a fault at the token there. -/
theorem run_cases (s : Script α) (c : Cursor) :
    (∃ a, s.run c = .ok (a, s.last c)) ∨ ∃ cause, s.run c = .error ((s.last c).fault cause) := by
  induction s generalizing c with
  | done a => exact .inl ⟨a, rfl⟩
  | fail cause => exact .inr ⟨cause, rfl⟩
  | step first next ih =>
    rcases first.run_cases c with ⟨b, c', hrun, -⟩ | ⟨cause, hrun, -⟩
    · rw [last_of_ok hrun, run, bind_of_ok hrun]
      exact ih b c'
    · rw [last_of_error hrun, run, bind_of_error hrun]
      exact .inr ⟨cause, rfl⟩

theorem Meets.leads {step : Step β} (h : s.Meets c step d) : c.Leads d := by
  induction h with
  | first => exact .refl _
  | later hfirst _ ih => exact (Step.leads_of_ok hfirst).trans ih

/-- A run that fails does so alike from every cursor that agrees on what its steps look at. -/
theorem run_alike (s : Script α) {fault : ParseFault} (h : c.Alike n d) (hc : c.Ended)
    (hsees : ∀ {β : Type} (step : Step β) e, s.Meets c step e → (step.sees e).position ≤ n)
    (hlast : (s.last c).position ≤ n) (hrun : s.run c = .error fault) : s.run d = .error fault := by
  induction s generalizing c d with
  | done a => cases hrun
  | fail cause =>
    cases hrun
    exact congrArg Except.error (h.fault cause).symm
  | step first next ih =>
    have hstep := first.run_alike h hc (hsees first c .first)
    rcases first.run_cases c with ⟨b, c', hfirst, hleads⟩ | ⟨cause, hfirst, -⟩
    · rw [last_of_ok hfirst] at hlast
      rw [run, bind_of_ok hfirst] at hrun
      rw [hfirst] at hstep
      generalize hother : first.run d = other at hstep
      cases hstep with
      | ok _ hmoved =>
        have hnext := hmoved (Nat.le_trans ((next b).leads_last c').position_le hlast)
        rw [run, bind_of_ok hother]
        exact ih b hnext (hleads.ended hc)
          (fun step e hmeets => hsees step e (.later hfirst hmeets)) hlast hrun
    · rw [run, bind_of_error hfirst] at hrun
      rw [hfirst] at hstep
      generalize hother : first.run d = other at hstep
      cases hstep
      rw [run, bind_of_error hother]
      exact hrun

end Script

end Parser

end Splice
