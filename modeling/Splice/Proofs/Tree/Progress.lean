import Splice.Proofs.Tree.Discipline
import Splice.Proofs.Tree.Fuel

/-! Every parse is safe and moves on, whatever the tokens.  With fuel for the tokens left it is
settled without ever reaching the bound.  Each of its steps stands on a token of the sequence, not
beyond the first end of input, and looks at such a token only; no more groups are open than allowed,
and none is left that was not entered.  A parser that succeeds has read a token at least and stands
inside as many groups as before. -/
namespace Splice

namespace Token

variable {tokens : List Token}

/-- The tokens that a parse works on: an end of input follows unless the last token is one. -/
def completed (tokens : List Token) : List Token :=
  match tokens.getLast? with
  | none => [Cursor.emptyEnd]
  | some last => if last.kind = .endOfInput then tokens else tokens ++ [Cursor.endAfter last]

def firstEnd (tokens : List Token) : Nat :=
  tokens.findIdx (·.kind == .endOfInput)

theorem completed_cons (first next : Token) (later : List Token) :
    completed (first :: next :: later) = first :: completed (next :: later) := by
  unfold completed
  rw [List.getLast?_cons_cons, List.getLast?_eq_some_getLast (List.cons_ne_nil next later)]
  dsimp only
  split <;> rfl

theorem length_le_firstEnd (read rest : List Token) :
    read.length ≤ firstEnd (read ++ rest) ↔ ∀ token ∈ read, token.kind ≠ .endOfInput := by
  unfold firstEnd
  rw [List.findIdx_append]
  by_cases hend : ∃ token ∈ read, (token.kind == .endOfInput) = true
  · have hfound := List.findIdx_lt_length.mpr hend
    rw [if_pos hfound]
    simp only [beq_iff_eq] at hend
    simp [Nat.not_le.mpr hfound, hend]
  · rw [if_neg (mt List.findIdx_lt_length.mp hend)]
    simp only [beq_iff_eq] at hend
    simpa [not_exists] using hend

end Token

namespace Cursor

variable {tokens : List Token} {c d : Cursor}

theorem cons_closeAfter (first : Token) (later : List Token) :
    first :: closeAfter first later = Token.completed (first :: later) := by
  induction later generalizing first with
  | nil =>
    unfold closeAfter Token.completed
    rw [List.getLast?_singleton]
    dsimp only
    split <;> rfl
  | cons next later ih => rw [Token.completed_cons, ← ih, closeAfter]

theorem here_cons_after_completed (tokens : List Token) :
    (ofTokens tokens).here :: (ofTokens tokens).after = Token.completed tokens := by
  cases tokens with
  | nil => rfl
  | cons first later => exact cons_closeAfter first later

/-- The cursor stands on one of the tokens, at most on the first end of input. -/
structure On (tokens : List Token) (c : Cursor) : Prop where
  tokens_eq : c.before.reverse ++ c.here :: c.after = tokens
  position_le : c.position ≤ Token.firstEnd tokens

theorem on_ofTokens (tokens : List Token) : (ofTokens tokens).On (Token.completed tokens) := by
  have hbefore := before_ofTokens tokens
  refine ⟨?_, ?_⟩
  · rw [hbefore, here_cons_after_completed]
    rfl
  · simp [position, hbefore]

namespace On

theorem leads (h : c.On tokens) (hleads : c.Leads d) : d.On tokens := by
  obtain ⟨read, htokens, hbefore, hread⟩ := hleads
  have hsplit : d.before.reverse ++ d.here :: d.after = tokens := by
    rw [hbefore, List.reverse_append, List.reverse_reverse, List.append_assoc, ← htokens]
    exact h.tokens_eq
  refine ⟨hsplit, ?_⟩
  have hle := h.position_le
  rw [← h.tokens_eq] at hle
  rw [← hsplit]
  have hunread : ∀ token ∈ c.before.reverse, token.kind ≠ .endOfInput :=
    (Token.length_le_firstEnd _ _).mp (by simpa [position] using hle)
  have hall : ∀ token ∈ d.before.reverse, token.kind ≠ .endOfInput := by
    rw [hbefore, List.reverse_append, List.reverse_reverse]
    exact List.forall_mem_append.mpr ⟨hunread, hread⟩
  simpa [position] using (Token.length_le_firstEnd _ (d.here :: d.after)).mpr hall

theorem position_eq (h : c.On tokens) (hkind : c.kind = .endOfInput) :
    c.position = Token.firstEnd tokens := by
  refine Nat.le_antisymm h.position_le (Nat.le_of_not_lt fun hlt => ?_)
  rw [← h.tokens_eq, List.append_cons] at hlt
  have hread := (Token.length_le_firstEnd (c.before.reverse ++ [c.here]) c.after).mp
    (by simpa [position] using Nat.succ_le_of_lt hlt)
  exact hread c.here (by simp) hkind

theorem position_add_left (h : c.On tokens) : c.position + c.left + 1 = tokens.length := by
  rw [← h.tokens_eq, List.length_append, List.length_reverse, List.length_cons]
  rfl

theorem position_lt (h : c.On tokens) (hother : d.On tokens) (hleft : d.left < c.left) :
    c.position < d.position := by
  have hc := h.position_add_left
  have hd := hother.position_add_left
  omega

theorem ended (h : c.On (Token.completed tokens)) : c.Ended := by
  have hlast := ended_ofTokens tokens
  unfold Ended at hlast ⊢
  simp only [here_cons_after_completed, ← h.tokens_eq] at hlast
  simpa using hlast

end On

end Cursor

theorem Token.firstEnd_lt (tokens : List Token) :
    firstEnd (completed tokens) < (completed tokens).length := by
  have hlast := Cursor.ended_ofTokens tokens
  unfold Cursor.Ended at hlast
  simp only [Cursor.here_cons_after_completed] at hlast
  exact List.findIdx_lt_length.mpr ⟨_, List.getLast_mem _, by simpa using hlast⟩

namespace Parser

variable {α : Type} {tokens : List Token} {c c' : Cursor}

def Step.Leaves : Step α → Cursor → Prop
  | .leave, c => 0 < c.nesting
  | _, _ => True

/-- The steps of a run stand on the tokens and look at these only, inside no more groups than
allowed, and none of them leaves a group that is not open; so it is where the run ends. -/
structure Script.Inside (s : Script α) (tokens : List Token) (c : Cursor) : Prop where
  stands : ∀ {β : Type} {step : Step β} {d}, s.Meets c step d →
    d.On tokens ∧ (step.sees d).On tokens
  room : ∀ {β : Type} {step : Step β} {d}, s.Meets c step d → d.nesting ≤ maxNesting
  leaves : ∀ {β : Type} {step : Step β} {d}, s.Meets c step d → step.Leaves d
  ends : (s.last c).On tokens ∧ (s.last c).nesting ≤ maxNesting

/-- A parser that runs inside the tokens and the limits, and that does not feel its bound: with
fuel for the tokens left it never reaches it, and more fuel makes no difference. -/
structure Safe (p : Nat → Parser α) (tokens : List Token) (c : Cursor) : Prop where
  inside : ∀ fuel, ∃ s : Script α, s.run = p fuel ∧ s.Inside tokens c
  settled : ∀ fuel, boundFor c ≤ fuel → p fuel c = p (boundFor c) c ∧
    ∀ fault, p fuel c = .error fault → fault.cause ≠ .boundReached

/-- A safe parser that reads a token at least when it succeeds, and leaves what it has entered. -/
structure Progresses (p : Nat → Parser α) (tokens : List Token) (c : Cursor) : Prop
    extends Safe p tokens c where
  advances : ∀ fuel, boundFor c ≤ fuel → ∀ a c', p fuel c = .ok (a, c') →
    c.position < c'.position ∧ c'.On tokens ∧ c'.nesting = c.nesting

theorem Step.Allowed.leaves {step : Step α} {stage : Stage} {seen : Nat} (h : step.Allowed stage)
    (hstage : stage.Holds seen c) : step.Leaves c := by
  cases step with
  | leave => exact Nat.lt_of_lt_of_eq h.1 hstage.depth.symm
  | _ => trivial

theorem Stage.holds_start (h : c.nesting ≤ maxNesting) : Stage.Holds ⟨c.nesting, .fresh⟩ 0 c :=
  ⟨rfl, h, Nat.zero_le _⟩

namespace Rule

variable (rule : Rule α) (hc : c.On (Token.completed tokens)) (hroom : c.nesting ≤ maxNesting)

theorem obeys_fresh (fuel n : Nat) : (rule.script fuel).Obeys ⟨n, rule.leaves⟩ ⟨n, .fresh⟩ :=
  @obeys_script _ rule fuel ⟨n, .fresh⟩ (by cases rule <;> simp)

include hc hroom

theorem inside (fuel : Nat) : (rule.script fuel).Inside (Token.completed tokens) c := by
  have hobeys := rule.obeys_fresh fuel c.nesting
  have hstart := Stage.holds_start hroom
  refine ⟨fun hmeets => ?_, fun hmeets => ?_, fun hmeets => ?_, ?_⟩
  · have hd := hc.leads hmeets.leads
    exact ⟨hd, hd.leads (Step.leads_sees _ _)⟩
  · obtain ⟨_, _, -, hstage⟩ := hobeys.allowed hc.ended hstart hmeets
    exact hstage.room
  · obtain ⟨_, _, hallowed, hstage⟩ := hobeys.allowed hc.ended hstart hmeets
    exact hallowed.leaves hstage
  · obtain ⟨_, _, hstage⟩ := hobeys.holds_last hc.ended hstart
    exact ⟨hc.leads (Script.leads_last _ c), hstage.room⟩

theorem ends {fuel : Nat} {a : α} (hrun : rule.parse fuel c = .ok (a, c')) :
    c'.On (Token.completed tokens) ∧ c'.nesting = c.nesting := by
  rw [← rule.run_script] at hrun
  obtain ⟨seen, hgoal⟩ :=
    (rule.obeys_fresh fuel c.nesting).holds_goal hc.ended (Stage.holds_start hroom) hrun
  rcases (rule.script fuel).run_cases c with ⟨b, hlast⟩ | ⟨cause, hlast⟩
  · cases hrun.symm.trans hlast
    exact ⟨hc.leads (Script.leads_last _ c), hgoal.depth⟩
  · cases hrun.symm.trans hlast

theorem safe : Safe (fun fuel => rule.parse fuel) (Token.completed tokens) c where
  inside fuel := ⟨rule.script fuel, rule.run_script fuel, rule.inside hc hroom fuel⟩
  settled _ := rule.settled hc.ended

theorem progresses (hreads : rule.reads = true) :
    Progresses (fun fuel => rule.parse fuel) (Token.completed tokens) c where
  toSafe := rule.safe hc hroom
  advances fuel hfuel a c' hrun := by
    obtain ⟨hon, hnesting⟩ := rule.ends hc hroom hrun
    exact ⟨hc.position_lt hon (rule.left_lt hc.ended hfuel hreads hrun), hon, hnesting⟩

end Rule

/-- Whatever the tokens, a parse is safe; each parser of a statement, an expression, a block or a
list of arguments moves on wherever it starts; and a program goes on to the first end of input. -/
theorem parse_progress (tokens : List Token) :
    (Cursor.ofTokens tokens).On (Token.completed tokens) ∧
      (Cursor.ofTokens tokens).nesting = 0 ∧
      Token.firstEnd (Token.completed tokens) < (Token.completed tokens).length ∧
      (∀ c : Cursor, c.On (Token.completed tokens) → c.nesting ≤ maxNesting →
        Safe (statements false) (Token.completed tokens) c ∧
        Progresses statement (Token.completed tokens) c ∧
        Progresses expression (Token.completed tokens) c ∧
        Progresses block (Token.completed tokens) c ∧
        Progresses arguments (Token.completed tokens) c) ∧
      ∀ program, Program.ofTokens tokens = .ok program →
        ∃ c', statements false (boundFor (Cursor.ofTokens tokens)) (Cursor.ofTokens tokens) =
            .ok (program.body, c') ∧
          c'.position = Token.firstEnd (Token.completed tokens) ∧ c'.nesting = 0 := by
  refine ⟨Cursor.on_ofTokens tokens, Cursor.nesting_ofTokens tokens, Token.firstEnd_lt tokens,
    fun c hc hroom => ?_, fun program hprogram => ?_⟩
  · exact ⟨(Rule.statements false).safe hc hroom, Rule.statement.progresses hc hroom rfl,
      (Rule.operation 1).progresses hc hroom rfl, Rule.block.progresses hc hroom rfl,
      Rule.arguments.progresses hc hroom rfl⟩
  · obtain ⟨c', hrun⟩ := (Program.ofTokens_eq_ok le_rfl).mp hprogram
    have hstart := Cursor.on_ofTokens tokens
    have hnesting := Cursor.nesting_ofTokens tokens
    obtain ⟨hon, hend⟩ := @Rule.ends _ _ _ c' (.statements false) hstart
      (hnesting ▸ Nat.zero_le _) (boundFor (Cursor.ofTokens tokens)) _ hrun
    exact ⟨c', hrun, hon.position_eq (kind_of_statements hrun), hend.trans hnesting⟩

end Parser

end Splice
