import Mathlib.Order.Lattice
import Splice.Proofs.Tree.Logic

/-! The discipline that all parsers keep.  A group that is left was entered before, and every parser
leaves the groups that it enters.  A parser looks past the token under its cursor in one place only,
behind an `if` block, where line breaks may come before an `else`; and it moves past these line
breaks before it does anything that can fail. -/
namespace Splice.Parser

variable {α β : Type} {c c' : Cursor} {seen : Nat}

/-- What is known of the tokens before the cursor and of those that were looked at. -/
inductive Stance where
  /-- Nothing behind the cursor was looked at, unless the last token read is a dedent: then the
  line breaks that follow and the token behind them may have been. -/
  | owing
  /-- Nothing behind the cursor was looked at. -/
  | fresh
  /-- Nothing behind the cursor was looked at, and the last token read is a dedent. -/
  | dedented

def Stance.Holds (seen : Nat) (c : Cursor) : Stance → Prop
  | owing => seen ≤ c.position ∨ (c.AfterDedent ∧ seen ≤ c.skipNewlines.position)
  | fresh => seen ≤ c.position
  | dedented => seen ≤ c.position ∧ c.AfterDedent

@[simp] def Stance.strength : Stance → Nat
  | owing => 0
  | fresh => 1
  | dedented => 2

theorem Stance.Holds.weaken {strong weak : Stance} (h : strong.Holds seen c)
    (hle : weak.strength ≤ strong.strength) : weak.Holds seen c := by
  cases weak with
  | owing =>
    cases strong with
    | owing => exact h
    | fresh => exact .inl h
    | dedented => exact .inl h.1
  | fresh =>
    cases strong with
    | owing => exact absurd hle (by decide)
    | fresh => exact h
    | dedented => exact h.1
  | dedented =>
    cases strong with
    | owing | fresh => exact absurd hle (by decide)
    | dedented => exact h

/-- A point of a script: how many groups are open and what is known there. -/
structure Stage where
  depth : Nat
  stance : Stance

structure Stage.Holds (stage : Stage) (seen : Nat) (c : Cursor) : Prop where
  depth : c.nesting = stage.depth
  room : c.nesting ≤ maxNesting
  stance : stage.stance.Holds seen c

/-- At as many open groups no less is known. -/
structure Stage.AtLeast (weak strong : Stage) : Prop where
  depth : strong.depth = weak.depth
  stance : weak.stance.strength ≤ strong.stance.strength

@[simp] theorem Stage.atLeast_iff (weak strong : Stage) : weak.AtLeast strong ↔
    strong.depth = weak.depth ∧ weak.stance.strength ≤ strong.stance.strength :=
  ⟨fun h => ⟨h.depth, h.stance⟩, fun h => ⟨h.1, h.2⟩⟩

theorem Stage.AtLeast.trans {weak mid strong : Stage} (h : weak.AtLeast mid)
    (h' : mid.AtLeast strong) : weak.AtLeast strong :=
  ⟨h'.depth.trans h.depth, Nat.le_trans h.stance h'.stance⟩

theorem Stage.Holds.weaken {weak strong : Stage} (h : strong.Holds seen c)
    (hle : weak.AtLeast strong) : weak.Holds seen c :=
  ⟨h.depth.trans hle.depth, h.room, h.stance.weaken hle.stance⟩

@[simp] def Step.Allowed : Step β → Stage → Prop
  | .skipNewlines, _ | .endStatement, _ => True
  | .leave, stage => 0 < stage.depth ∧ stage.stance ≠ .owing
  | .acceptOtherwise, stage => stage.stance = .dedented
  | _, stage => stage.stance ≠ .owing

@[simp] def Step.after (stage : Stage) : Step β → β → Stage
  | .expect wanted _, _ => ⟨stage.depth, if wanted = .dedent then .dedented else .fresh⟩
  | .enter, _ => ⟨stage.depth + 1, .fresh⟩
  | .leave, _ => ⟨stage.depth - 1, stage.stance⟩
  | .endStatement, _ => stage
  | .acceptOtherwise, found => ⟨stage.depth, if found then .fresh else .owing⟩
  | _, _ => ⟨stage.depth, .fresh⟩

/-- What is known behind a parser.  Behind a statement line breaks may still be to be moved past;
the next statement, or the end of the block, stands behind them. -/
@[simp] def Rule.leaves : Rule α → Stance
  | .statementForm | .statement => .owing
  | .block => .dedented
  | _ => .fresh

@[simp] def Rule.Starts : Rule α → Stage → Prop
  | .statements _, _ => True
  | _, stage => stage.stance ≠ .owing

def discipline : Logic Stage where
  allows := Step.Allowed
  leads step stage a t := t = step.after stage a
  fails _ stage := stage.stance ≠ .owing
  needs := Rule.Starts
  gives rule stage _ t := t = ⟨stage.depth, rule.leaves⟩

/-- A fresh point behind tokens that were looked at no further than they were read. -/
theorem Stage.Holds.read {n : Nat} (h : Stage.Holds ⟨n, .fresh⟩ seen c)
    (hnesting : c'.nesting = c.nesting) (hmoved : c.position ≤ c'.position) :
    Stage.Holds ⟨n, .fresh⟩ (max seen c.position) c' :=
  ⟨hnesting.trans h.depth, hnesting.trans_le h.room, max_le (h.stance.trans hmoved) hmoved⟩

theorem Stage.Holds.advance {n : Nat} (h : Stage.Holds ⟨n, .fresh⟩ seen c) :
    Stage.Holds ⟨n, .fresh⟩ (max seen c.position) c.advance :=
  h.read c.nesting_advance c.leads_advance.position_le

theorem Stage.Holds.stay {n : Nat} (h : Stage.Holds ⟨n, .fresh⟩ seen c) :
    Stage.Holds ⟨n, .fresh⟩ (max seen c.position) c :=
  h.read rfl le_rfl

theorem Stance.Holds.position_le {stance : Stance} (h : stance.Holds seen c) :
    seen ≤ c.skipNewlines.position := by
  have hskip := c.leads_skipNewlines.position_le
  cases stance with
  | owing =>
    rcases h with hseen | ⟨-, hseen⟩
    · exact hseen.trans hskip
    · exact hseen
  | fresh => exact Nat.le_trans h hskip
  | dedented => exact h.1.trans hskip

theorem Stance.Holds.look {stance : Stance} (h : stance.Holds seen c) :
    stance.Holds (max seen c.position) c := by
  cases stance with
  | owing =>
    rcases h with hseen | ⟨hlast, hseen⟩
    · exact .inl (max_le hseen le_rfl)
    · exact .inr ⟨hlast, max_le hseen c.leads_skipNewlines.position_le⟩
  | fresh => exact max_le h le_rfl
  | dedented => exact ⟨max_le h.1 le_rfl, h.2⟩

section Steps

variable {step : Step β} {stage : Stage}

theorem Stage.Holds.fresh (h : stage.Holds seen c) (hstance : stage.stance ≠ .owing) :
    Stage.Holds ⟨stage.depth, .fresh⟩ seen c := by
  refine h.weaken ⟨rfl, ?_⟩
  cases hcase : stage.stance with
  | owing => exact absurd hcase hstance
  | fresh | dedented => simp

theorem Step.holds_after (h : step.Allowed stage) (hc : c.Ended) (hstage : stage.Holds seen c)
    {b : β} (hrun : step.run c = .ok (b, c')) :
    (step.after stage b).Holds (max seen (step.sees c).position) c' := by
  cases step with
  | kind | isNext | operator? | ends | opensGenerated =>
    cases hrun
    exact (hstage.fresh h).stay
  | advance =>
    cases hrun
    exact (hstage.fresh h).advance
  | accept wanted =>
    simp only [run, Parser.accept] at hrun
    split at hrun
    · cases hrun
      exact (hstage.fresh h).advance
    · cases hrun
      exact (hstage.fresh h).stay
  | expect wanted what =>
    by_cases hkind : c.kind = wanted
    · rw [run, bind_of_ok (if_pos hkind)] at hrun
      cases hrun
      have hnext := (hstage.fresh h).advance
      refine ⟨hnext.depth, hnext.room, ?_⟩
      dsimp only [after]
      split
      next hdedent =>
        have hlast := (Cursor.afterDedent_advance hc (by simp [hkind, hdedent])).mpr
          (hkind.trans hdedent)
        exact ⟨hnext.stance, hlast⟩
      next => exact hnext.stance
    · rw [run, bind_of_error (if_neg hkind)] at hrun
      cases hrun
  | breakLine =>
    by_cases hkind : c.kind = .newline
    · rw [run, bind_of_ok (if_pos hkind)] at hrun
      cases hrun
      exact (hstage.fresh h).advance
    · rw [run, bind_of_error (if_neg hkind)] at hrun
      cases hrun
  | enter =>
    simp only [run, Parser.enter] at hrun
    split at hrun
    next => cases hrun
    next hroom =>
      cases hrun
      exact ⟨congrArg (· + 1) hstage.depth, Nat.lt_of_not_le hroom, (hstage.fresh h).stay.stance⟩
  | leave =>
    cases hrun
    refine ⟨congrArg (· - 1) hstage.depth, (Nat.sub_le _ _).trans hstage.room, ?_⟩
    have hlook := hstage.stance.look
    have hstance := h.2
    dsimp only [after]
    generalize stage.stance = stance at hlook hstance ⊢
    cases stance with
    | owing => exact absurd rfl hstance
    | fresh | dedented => exact hlook
  | skipNewlines =>
    cases hrun
    have hnesting := c.nesting_skipNewlines
    exact ⟨hnesting.trans hstage.depth, hnesting.trans_le hstage.room,
      max_le hstage.stance.position_le le_rfl⟩
  | endStatement =>
    simp only [run, Parser.endStatement] at hrun
    split at hrun
    · cases hrun
      exact ⟨hstage.depth, hstage.room, hstage.stance.look⟩
    · cases hrun
  | acceptOtherwise =>
    have hnesting := c.nesting_skipNewlines
    have hseen := hstage.stance.position_le
    have hstance := hstage.stance
    rw [show stage.stance = .dedented from h] at hstance
    simp only [run, Parser.acceptOtherwise] at hrun
    split at hrun
    · cases hrun
      have hmoved := c.skipNewlines.leads_advance.position_le
      have hmore := c.skipNewlines.nesting_advance.trans hnesting
      exact ⟨hmore.trans hstage.depth, hmore.trans_le hstage.room,
        max_le (hseen.trans hmoved) hmoved⟩
    · cases hrun
      exact ⟨hstage.depth, hstage.room, .inr ⟨hstance.2, max_le hseen le_rfl⟩⟩

theorem Step.position_le (h : step.Allowed stage) (hstage : stage.Holds seen c)
    {fault : ParseFault} (hrun : step.run c = .error fault) : seen ≤ c.position := by
  cases step with
  | expect | breakLine | enter => exact (hstage.fresh h).stance
  | endStatement =>
    simp only [run, Parser.endStatement] at hrun
    split at hrun
    next => cases hrun
    next hends =>
      have hstance := hstage.stance
      cases hcase : stage.stance with
      | owing =>
        rw [hcase] at hstance
        exact hstance.resolve_right fun hlast => hends (.inl hlast.1)
      | fresh | dedented => exact (hstage.fresh (by simp [hcase])).stance
  | kind | isNext | operator? | ends | advance | accept | skipNewlines | leave | acceptOtherwise
  | opensGenerated => cases hrun

theorem Step.Allowed.mono {strong : Stage} (h : step.Allowed stage) (hle : stage.AtLeast strong) :
    step.Allowed strong ∧ ∀ b, (step.after stage b).AtLeast (step.after strong b) := by
  obtain ⟨n, stance⟩ := stage
  obtain ⟨m, strength⟩ := strong
  obtain ⟨rfl, hle⟩ := hle
  cases step <;> cases stance <;> cases strength <;> simp_all

end Steps

/-- A script keeps the discipline from one point and ends at another one, unless it fails. -/
def Script.Obeys (goal : Stage) : Script α → Stage → Prop
  | .done _, stage => goal.AtLeast stage
  | .fail cause, stage => cause = .boundReached ∨ stage.stance ≠ .owing
  | .step first next, stage =>
    first.Allowed stage ∧ ∀ b, (next b).Obeys goal (first.after stage b)

namespace Script.Obeys

variable {s : Script α} {start goal : Stage} {d : Cursor}

theorem mono {strong : Stage} (h : s.Obeys goal start) (hle : start.AtLeast strong) :
    s.Obeys goal strong := by
  induction s generalizing start strong with
  | done a => exact Stage.AtLeast.trans h hle
  | fail cause =>
    refine h.imp_right fun hstance hstrong => ?_
    have hweak := hle.stance
    rw [hstrong] at hweak
    cases hcase : start.stance <;> simp [hcase] at hweak hstance
  | step first next ih =>
    obtain ⟨hallowed, hafter⟩ := h.1.mono hle
    exact ⟨hallowed, fun b => ih b (h.2 b) (hafter b)⟩

theorem bind {f : α → Script β} {last : Stage} (h : s.Obeys goal start)
    (hf : ∀ a, (f a).Obeys last goal) : (s.bind f).Obeys last start := by
  induction s generalizing start with
  | done a => exact (hf a).mono h
  | fail cause => exact h
  | step first next ih => exact ⟨h.1, fun b => ih b (h.2 b)⟩

theorem allowed (h : s.Obeys goal start) (hc : c.Ended) (hstart : start.Holds seen c)
    {step : Step β} (hmeets : s.Meets c step d) :
    ∃ stage seen', step.Allowed stage ∧ stage.Holds seen' d := by
  induction s generalizing c seen start with
  | done a => cases hmeets
  | fail cause => cases hmeets
  | step first next ih =>
    cases hmeets with
    | first => exact ⟨_, _, h.1, hstart⟩
    | later hrun hmeets =>
      exact ih _ (h.2 _) ((Step.leads_of_ok hrun).ended hc) (Step.holds_after h.1 hc hstart hrun)
        hmeets

/-- Where a run ends, with its answer or with a fault, is a point of the discipline too. -/
theorem holds_last (h : s.Obeys goal start) (hc : c.Ended) (hstart : start.Holds seen c) :
    ∃ (stage : Stage) (seen' : Nat), stage.Holds seen' (s.last c) := by
  induction s generalizing c seen start with
  | done a => exact ⟨_, seen, hstart⟩
  | fail cause => exact ⟨_, seen, hstart⟩
  | step first next ih =>
    rcases first.run_cases c with ⟨b, d, hstep, hleads⟩ | ⟨cause, hstep, -⟩
    · rw [last_of_ok hstep]
      exact ih b (h.2 b) (hleads.ended hc) (Step.holds_after h.1 hc hstart hstep)
    · rw [last_of_error hstep]
      exact ⟨_, seen, hstart⟩

theorem holds_goal (h : s.Obeys goal start) (hc : c.Ended) (hstart : start.Holds seen c) {a : α}
    (hrun : s.run c = .ok (a, c')) : ∃ seen', goal.Holds seen' c' := by
  induction s generalizing c seen start with
  | done b =>
    cases hrun
    exact ⟨seen, hstart.weaken h⟩
  | fail cause => cases hrun
  | step first next ih =>
    obtain ⟨b, d, hstep, hrest⟩ := exists_of_bind_eq_ok hrun
    exact ih b (h.2 b) ((Step.leads_of_ok hstep).ended hc) (Step.holds_after h.1 hc hstart hstep)
      hrest

theorem position_le (h : s.Obeys goal start) (hc : c.Ended) (hstart : start.Holds seen c)
    {fault : ParseFault} (hrun : s.run c = .error fault) (hcause : fault.cause ≠ .boundReached) :
    seen ≤ (s.last c).position ∧ ∀ {β : Type} (step : Step β) d, s.Meets c step d →
      (step.sees d).position ≤ (s.last c).position := by
  induction s generalizing c seen start with
  | done a => cases hrun
  | fail cause =>
    cases hrun
    refine ⟨(hstart.fresh (h.resolve_left hcause)).stance, fun _ _ hmeets => ?_⟩
    cases hmeets
  | step first next ih =>
    rcases first.run_cases c with ⟨b, d, hstep, hleads⟩ | ⟨cause, hstep, hsees⟩
    · rw [run, bind_of_ok hstep] at hrun
      obtain ⟨hseen, hlater⟩ :=
        ih b (h.2 b) (hleads.ended hc) (Step.holds_after h.1 hc hstart hstep) hrun
      rw [last_of_ok hstep]
      refine ⟨(le_max_left _ _).trans hseen, fun step e hmeets => ?_⟩
      cases hmeets with
      | first => exact (le_max_right _ _).trans hseen
      | later hother hmeets =>
        cases hstep.symm.trans hother
        exact hlater step e hmeets
    · rw [run, bind_of_error hstep] at hrun
      rw [last_of_error hstep]
      refine ⟨Step.position_le h.1 hstart hstep, fun step e hmeets => ?_⟩
      cases hmeets with
      | first => exact Nat.le_of_eq (congrArg Cursor.position hsees)
      | later hother => cases hstep.symm.trans hother

end Script.Obeys

open Routine in
theorem Rule.wp_discipline (rule : Rule α) (stage : Stage) (h : rule.Starts stage) :
    rule.routine.wp discipline stage
      fun _ t => Stage.AtLeast ⟨stage.depth, rule.leaves⟩ t := by
  obtain ⟨n, stance⟩ := stage
  cases rule with
  | operands level left =>
    simp only [routine, wp_bind, wp_step]
    refine ⟨h, ?_⟩
    rintro next _ rfl
    split <;> simp [discipline]
  | primary =>
    simp only [routine, wp_bind, wp_step]
    refine ⟨h, ?_⟩
    rintro next _ rfl
    split <;> simp [discipline]
  | statementForm =>
    simp only [routine, wp_bind, wp_step]
    refine ⟨h, ?_⟩
    rintro next _ rfl
    split <;> simp [discipline, Routine.params, Routine.generated, Routine.optionalText]
  | statements nested => simp [routine, discipline]
  | _ =>
    have hstance : stance ≠ .owing := h
    simp [routine, discipline, Routine.openBlock, hstance]

theorem Routine.obeys_script {scripts : ∀ {β : Type}, Rule β → Script β}
    (hcall : ∀ {β : Type} (rule : Rule β) stage, rule.Starts stage →
      (scripts rule).Obeys ⟨stage.depth, rule.leaves⟩ stage)
    (r : Routine α) {start goal : Stage} (h : r.wp discipline start fun _ t => goal.AtLeast t) :
    (r.script scripts).Obeys goal start := by
  induction r generalizing start with
  | done a => exact h
  | fail cause => exact .inr h
  | step first next ih => exact ⟨h.1, fun b => ih b (h.2 b _ rfl)⟩
  | call rule next ih => exact (hcall rule start h.1).bind fun b => ih b (h.2 b _ rfl)

theorem Rule.obeys_script (rule : Rule α) (fuel : Nat) {stage : Stage} (h : rule.Starts stage) :
    (rule.script fuel).Obeys ⟨stage.depth, rule.leaves⟩ stage := by
  induction fuel generalizing α stage with
  | zero => exact .inl rfl
  | succ fuel ih =>
    exact Routine.obeys_script (fun rule _ => ih rule) rule.routine (rule.wp_discipline stage h)

end Splice.Parser
