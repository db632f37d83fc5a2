import Splice.Proofs.Tree.Routine

/-! Reasoning about routines.  A logic says, state by state, where a step may be taken or a parser
be called and what is known behind it.  If its states are those of the runs and every routine keeps
what the logic promises of its parser, then so does every parse. -/
namespace Splice.Parser

variable {α β : Type}

/-- What is asked for before, and known behind, each step and each call of a parser. -/
structure Logic (σ : Type) where
  allows {β : Type} : Step β → σ → Prop
  leads {β : Type} : Step β → σ → β → σ → Prop
  fails : ParseFault.Cause → σ → Prop
  needs {β : Type} : Rule β → σ → Prop
  gives {β : Type} : Rule β → σ → β → σ → Prop

namespace Routine

variable {σ : Type} (L : Logic σ)

def wp : Routine α → σ → (α → σ → Prop) → Prop
  | done a, s, goal => goal a s
  | fail cause, s, _ => L.fails cause s
  | step first next, s, goal =>
    L.allows first s ∧ ∀ b t, L.leads first s b t → (next b).wp t goal
  | call rule next, s, goal =>
    L.needs rule s ∧ ∀ b t, L.gives rule s b t → (next b).wp t goal

variable {L} {s : σ} {goal : α → σ → Prop}

@[simp] theorem wp_pure (a : α) : (pure a : Routine α).wp L s goal ↔ goal a s :=
  Iff.rfl

@[simp] theorem wp_fail (cause : ParseFault.Cause) :
    (fail cause : Routine α).wp L s goal ↔ L.fails cause s :=
  Iff.rfl

@[simp] theorem wp_step (first : Step α) : (liftM first : Routine α).wp L s goal ↔
    L.allows first s ∧ ∀ a t, L.leads first s a t → goal a t :=
  Iff.rfl

@[simp] theorem wp_call (rule : Rule α) : (liftM rule : Routine α).wp L s goal ↔
    L.needs rule s ∧ ∀ a t, L.gives rule s a t → goal a t :=
  Iff.rfl

@[simp] theorem wp_bind (r : Routine α) (f : α → Routine β) {goal : β → σ → Prop} :
    (r >>= f).wp L s goal ↔ r.wp L s fun a t => (f a).wp L t goal := by
  change (r.bind f).wp L s goal ↔ _
  induction r generalizing s with
  | done a => rfl
  | fail cause => rfl
  | step first next ih => simp only [bind, wp, ih]
  | call rule next ih => simp only [bind, wp, ih]

@[simp] theorem wp_ite {p : Prop} [Decidable p] (r r' : Routine α) :
    (if p then r else r').wp L s goal ↔ (p → r.wp L s goal) ∧ (¬ p → r'.wp L s goal) := by
  split <;> simp_all

@[simp] theorem wp_number (text : String) {goal : Expr → σ → Prop} :
    (number text).wp L s goal ↔
      (∀ value, Decimal.read? text = some value → goal (.number value) s) ∧
        (Decimal.read? text = none → L.fails (.invalidNumber text) s) := by
  unfold number
  cases Decimal.read? text <;> simp

end Routine

/-- What a run comes to: an answer at a state that was asked for, or a fault that may be. -/
def Lands {σ : Type} (At : σ → Cursor → Prop) (fine : ParseFault.Cause → Prop)
    (goal : α → σ → Prop) : Except ParseFault (α × Cursor) → Prop
  | .ok (a, c) => ∃ s, goal a s ∧ At s c
  | .error fault => fine fault.cause

/-- The steps of a logic are the steps of the parsers. -/
structure Logic.Sound {σ : Type} (L : Logic σ) (At : σ → Cursor → Prop)
    (fine : ParseFault.Cause → Prop) : Prop where
  step {β : Type} (step : Step β) {s : σ} {c : Cursor} (hs : L.allows step s) (hc : At s c) :
    Lands At fine (L.leads step s) (step.run c)
  fail {cause : ParseFault.Cause} {s : σ} (hs : L.fails cause s) : fine cause

section Runs

variable {σ : Type} {L : Logic σ} {At : σ → Cursor → Prop} {fine : ParseFault.Cause → Prop}
  {s : σ} {c : Cursor}

theorem Lands.mono {τ : Type} {At' : τ → Cursor → Prop} {goal : α → σ → Prop}
    {goal' : α → τ → Prop} {result : Except ParseFault (α × Cursor)}
    (h : Lands At fine goal result)
    (hgoal : ∀ a s c, goal a s → At s c → ∃ t, goal' a t ∧ At' t c) :
    Lands At' fine goal' result := by
  cases result with
  | error fault => exact h
  | ok pair =>
    obtain ⟨s, hs, hc⟩ := h
    exact hgoal pair.1 s pair.2 hs hc

theorem Lands.bind {p : Parser α} {f : α → Parser β} {mid : α → σ → Prop} {goal : β → σ → Prop}
    (hp : Lands At fine mid (p c))
    (hf : ∀ a t c', mid a t → At t c' → Lands At fine goal (f a c')) :
    Lands At fine goal ((p >>= f) c) := by
  cases hrun : p c with
  | error fault =>
    rw [hrun] at hp
    rw [bind_of_error hrun]
    exact hp
  | ok pair =>
    rw [hrun] at hp
    obtain ⟨t, hmid, hc'⟩ := hp
    rw [bind_of_ok hrun]
    exact hf pair.1 t pair.2 hmid hc'

theorem Routine.lands (hL : L.Sound At fine) {parse : ∀ {β : Type}, Rule β → Parser β}
    (hcall : ∀ {β : Type} (rule : Rule β) s c, L.needs rule s → At s c →
      Lands At fine (L.gives rule s) (parse rule c))
    (r : Routine α) {goal : α → σ → Prop} (h : r.wp L s goal) (hc : At s c) :
    Lands At fine goal (r.run parse c) := by
  induction r generalizing s c with
  | done a => exact ⟨s, h, hc⟩
  | fail cause => exact hL.fail h
  | step first next ih =>
    exact (hL.step first h.1 hc).bind fun b t c' ht hc' => ih b (h.2 b t ht) hc'
  | call rule next ih =>
    exact (hcall rule s c h.1 hc).bind fun b t c' ht hc' => ih b (h.2 b t ht) hc'

end Runs

end Splice.Parser
