import Splice.Proofs.Session.Isolation

/-! Sessions that may differ in how they keep their functions and in where their answers come from.
`Unnoticed` lists what such differences have to satisfy so that no run can notice them: runs from
two sessions that are alike otherwise have one outcome and leave sessions that are alike again. -/
namespace Splice

@[simp] theorem Session.drawings_register (s : Session) (decl : Function) :
    (s.register decl).drawings = s.drawings :=
  s.drawings_note _

/-- Differences between function tables and between backends that stay hidden from runs.  The
answers of two backends need to have the same texts only. -/
structure Unnoticed (F : Table Callable → Table Callable → Prop) (B : Backend → Backend → Prop) :
    Prop where
  get? : ∀ {f g}, F f g → ∀ name, f.get? name = g.get? name
  put : ∀ {f g}, F f g → ∀ name callable, F (f.put name callable) (g.put name callable)
  answer : ∀ {b c}, B b c → ∀ r,
    (b.answer r).1.map Completion.text = (c.answer r).1.map Completion.text
  after : ∀ {b c}, B b c → ∀ r, B (b.answer r).2 (c.answer r).2

/-- Alike in all that an onlooker can see, but for functions and backends that stand in `F` and
`B`. -/
structure Session.Alike (F : Table Callable → Table Callable → Prop)
    (B : Backend → Backend → Prop) (s t : Session) : Prop where
  config : s.config = t.config
  frames : s.frames = t.frames
  facts : s.facts = t.facts
  output : s.output = t.output
  drawings : s.drawings = t.drawings
  functions : F s.functions t.functions
  backend : B s.backend t.backend

namespace Session.Alike

variable {F : Table Callable → Table Callable → Prop} {B : Backend → Backend → Prop}
  {s t : Session} (h : s.Alike F B t)
include h

theorem say (line : String) : (s.say line).Alike F B (t.say line) :=
  { h with
    output := congrArg (·.push line) h.output
    drawings := by simp [h.drawings] }

theorem note {text text' : String} : (s.note text).Alike F B (t.note text') :=
  { h with drawings := by simp [h.drawings] }

theorem draw (drawing : Drawing) : (s.draw drawing).Alike F B (t.draw drawing) :=
  { h with drawings := by simp [h.drawings] }

theorem remember (fact : String) : (s.remember fact).Alike F B (t.remember fact) :=
  { h with facts := congrArg (·.push fact) h.facts }

theorem withFrames {f g : Frames} (hfg : f = g) :
    { s with frames := f }.Alike F B { t with frames := g } :=
  { h with frames := hfg }

theorem withBackend {b c : Backend} (hbc : B b c) :
    { s with backend := b }.Alike F B { t with backend := c } :=
  { h with backend := hbc }

end Session.Alike

namespace Unnoticed

open Session
open Run (Agree)

variable {β : Type} {F : Table Callable → Table Callable → Prop} {B : Backend → Backend → Prop}
  (U : Unnoticed F B)
include U

theorem answer_cases {b c : Backend} (hbc : B b c) (r : Request) :
    (∃ x y b' c', b.answer r = (.ok x, b') ∧ c.answer r = (.ok y, c') ∧ x.text = y.text ∧
      B b' c') ∨
    ∃ fault b' c', b.answer r = (.error fault, b') ∧ c.answer r = (.error fault, c') ∧ B b' c' := by
  have hanswer := U.answer hbc r
  have hafter := U.after hbc r
  match hb : b.answer r, hc : c.answer r with
  | (.ok x, b'), (.ok y, c') =>
    rw [hb, hc] at hanswer hafter
    exact .inl ⟨x, y, b', c', rfl, rfl, Except.ok.inj hanswer, hafter⟩
  | (.error fault, b'), (.error fault', c') =>
    rw [hb, hc] at hanswer hafter
    cases Except.error.inj hanswer
    exact .inr ⟨fault, b', c', rfl, rfl, hafter⟩
  | (.ok _, _), (.error _, _) | (.error _, _), (.ok _, _) =>
    rw [hb, hc] at hanswer
    cases hanswer

theorem request_bind (r : Request) {f g : Completion → Run β}
    (hfg : ∀ c d, c.text = d.text → Agree (Alike F B) (f c) (g d)) :
    Agree (Alike F B) (Run.request r >>= f) (Run.request r >>= g) := by
  intro s t hst
  rw [Run.bind_apply, Run.bind_apply]
  unfold Run.request
  rcases U.answer_cases hst.backend r with
    ⟨x, y, b, c, hs, ht, htext, hbc⟩ | ⟨fault, b, c, hs, ht, hbc⟩
  · rw [hs, ht]
    exact hfg x y htext _ _ (hst.withBackend hbc)
  · rw [hs, ht]
    exact ⟨rfl, hst.withBackend hbc⟩

theorem suggestFix (fault : RunFault) :
    Agree (Alike F B) (Run.reportFailure.suggestFix fault)
      (Run.reportFailure.suggestFix fault) := by
  intro s t hst
  unfold Run.reportFailure.suggestFix
  rcases U.answer_cases hst.backend (.process ("Fix this error: " ++ fault.message) "") with
    ⟨x, y, b, c, hs, ht, htext, hbc⟩ | ⟨reason, b, c, hs, ht, hbc⟩
  · rw [hs, ht]
    dsimp only
    rw [htext]
    exact ⟨rfl, (hst.withBackend hbc).say _⟩
  · rw [hs, ht]
    exact ⟨rfl, (hst.withBackend hbc).say _⟩

omit U in
theorem note {text text' : String} : Agree (Alike F B) (Run.note text) (Run.note text') :=
  .modify fun _ _ h => h.note

theorem coupling : Run.Coupling fun _ => Alike F B where
  get? h name := by rw [h.frames]
  depth h := by rw [h.frames]
  functions h := U.get? h.functions
  config h := h.config
  facts h := h.facts
  say h := h.say
  draw h := h.draw
  remember h := h.remember
  register h decl :=
    { h with
      drawings := by simp [h.drawings]
      functions := U.put h.functions _ _ }
  define h name value := h.withFrames (by rw [h.frames])
  requestCode _ r := U.request_bind r fun c d htext => by
    rw [htext]
    exact Agree.bind note fun _ => .pure _
  requestAnswer _ r := U.request_bind r fun c d htext => by
    rw [htext]
    exact Agree.bind note fun _ => .pure _
  ask _ args :=
    Agree.bind (.modify fun _ _ h => h.say _) fun _ => U.request_bind _ fun c d htext => by
      rw [htext]
      exact Agree.bind note fun _ => .pure _
  pushCall h params args := h.withFrames (by rw [h.frames])
  pushInline h params args := h.withFrames (by rw [h.frames])
  pop h := h.withFrames (by rw [h.frames])

theorem reportFailure (fault : RunFault) :
    Agree (Alike F B) (Run.reportFailure fault) (Run.reportFailure fault) :=
  U.coupling.reportFailure 0 fault (U.suggestFix fault)

theorem evaluate (fuel : Nat) (program : Program) :
    Agree (Alike F B) (Run.evaluate fuel program) (Run.evaluate fuel program) :=
  .evaluate ((U.coupling.all fuel).runProgram 0 program) U.reportFailure

end Unnoticed

end Splice
