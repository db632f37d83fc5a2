import Splice.Proofs.Session.FrameDiscipline
import Splice.Proofs.Session.Visits

/-! The limit on active calls.  Nothing but a call of an entry of the function table changes the
number of frames, and such a call asks for the limit first; so the limit holds in all sessions that
a run comes through, and where it is reached a call ends before it has begun. -/
namespace Splice

namespace Frames

@[simp] theorem depth_define (f : Frames) (name : String) (value : Value) :
    (f.define name value).depth = f.depth :=
  (Grows.define f name value).depth

@[simp] theorem depth_pop (f : Frames) : f.pop.depth = f.depth - 1 :=
  List.length_tail

end Frames

@[simp] theorem Callable.depth_enter (c : Callable) (args : List Value) (f : Frames) :
    (c.enter args f).depth = f.depth + 1 := by
  cases c <;> rfl

namespace Session

/-- As many active calls as before, and the limit on them is as it was. -/
structure SameDepth (s t : Session) : Prop where
  depth : t.frames.depth = s.frames.depth
  config : t.config = s.config

theorem SameDepth.leave {s t : Session} {frames : Frames}
    (hdepth : frames.depth = s.frames.depth + 1) (h : SameDepth { s with frames := frames } t) :
    s.SameDepth { t with frames := t.frames.pop } where
  depth := by simp only [Frames.depth_pop, h.depth, hdepth, Nat.add_sub_cancel]
  config := h.config

end Session

namespace Run

open Session

theorem sameDepth_discipline : Discipline SameDepth SameDepth where
  refl _ := ⟨rfl, rfl⟩
  trans _ _ _ hst htu := ⟨htu.depth.trans hst.depth, htu.config.trans hst.config⟩
  transStmt _ _ _ hst htu := ⟨htu.depth.trans hst.depth, htu.config.trans hst.config⟩
  weaken _ _ h := h
  say _ _ := ⟨rfl, rfl⟩
  note _ _ := ⟨rfl, rfl⟩
  draw _ _ := ⟨rfl, rfl⟩
  remember _ _ := ⟨rfl, rfl⟩
  register _ _ := ⟨rfl, rfl⟩
  answer _ _ := ⟨rfl, rfl⟩
  define s name value := ⟨s.frames.depth_define name value, rfl⟩
  call _ _ _ _ h := h.leave rfl
  inline _ _ _ _ h := h.leave rfl

/-- A run in a frame of its own, with a result made of its outcome, stops early as it would have
stopped without the frame. -/
theorem stopped_inFrame_bind {α β : Type} {enter : Frames → Frames} {x : Run α} {f : α → Run β}
    {s : Session} (hf : ∀ a t, ∃ b, f a t = (.ok b, t)) :
    (Task.ends.stopped ((inFrame enter x >>= f) s)).1 =
      (Task.ends.stopped (x { s with frames := enter s.frames })).1 := by
  rw [bind_apply]
  unfold inFrame
  cases x { s with frames := enter s.frames } with
  | mk result t =>
    cases result with
    | ok a =>
      obtain ⟨b, hb⟩ := hf a { t with frames := t.frames.pop }
      dsimp only
      rw [hb]
      rfl
    | error stop => rfl

section Call

variable {s : Session} {name : String} {c : Callable} (args : List Value) (fuel : Nat)
  (hget : s.functions.get? name = some c)
include hget

theorem call_of_limit_le (hdepth : s.config.maxCallDepth ≤ s.frames.depth) :
    call (fuel + 1) name args s =
      (.error (.fault (.callDepthExceeded s.config.maxCallDepth)), s) := by
  simp only [call, bind_apply, get, hget, if_pos hdepth, fail]

theorem starts_of_limit_le (hdepth : s.config.maxCallDepth ≤ s.frames.depth) :
    (Task.call name args).starts fuel s = [] := by
  simp only [Task.starts, hget, if_pos hdepth]

theorem starts_of_lt_limit (hdepth : s.frames.depth < s.config.maxCallDepth) :
    (Task.call name args).starts fuel s =
      [(.block c.decl.body, { s with frames := c.enter args s.frames })] := by
  simp only [Task.starts, hget, if_neg (Nat.not_le_of_lt hdepth)]

theorem stop_of_lt_limit (hdepth : s.frames.depth < s.config.maxCallDepth) :
    ((Task.call name args).ends (fuel + 1) s).1 =
      ((Task.block c.decl.body).ends fuel { s with frames := c.enter args s.frames }).1 := by
  simp only [Task.ends]
  unfold call
  rw [bind_apply]
  dsimp only [get]
  rw [hget]
  dsimp only
  rw [if_neg (Nat.not_le_of_lt hdepth)]
  cases c with
  | function decl => exact stopped_inFrame_bind fun flow _ => by cases flow <;> exact ⟨_, rfl⟩
  | inline decl => exact stopped_inFrame_bind fun flow _ => by cases flow <;> exact ⟨_, rfl⟩

end Call

/-- From a session within its limit on active calls every run stays within it, in all sessions that
it comes through.  A call of an entry of the function table that is made at the limit fails at once,
in the session that it was made in and without starting anything; one that is made below the limit
starts the entry's body one frame deeper, and stops early only as the body does. -/
theorem depth_le_limit {s : Session} (hlimit : s.frames.depth ≤ s.config.maxCallDepth)
    (fuel : Nat) :
    (∀ task : Task, ∀ visit ∈ task.visits fuel s,
      (∀ t ∈ visit.sessions, t.frames.depth ≤ s.config.maxCallDepth) ∧
      ∀ left name args c, visit.fuel = left + 1 → visit.task = .call name args →
        visit.session.functions.get? name = some c →
        (visit.session.frames.depth = s.config.maxCallDepth →
          call visit.fuel name args visit.session =
            (.error (.fault (.callDepthExceeded s.config.maxCallDepth)), visit.session) ∧
          visit.task.starts left visit.session = []) ∧
        (visit.session.frames.depth < s.config.maxCallDepth →
          ∃ body ∈ task.visits fuel s,
            visit.task.starts left visit.session = [(body.task, body.session)] ∧
            body.task = .block c.decl.body ∧
            body.session = { visit.session with
              frames := c.enter args visit.session.frames } ∧
            body.session.frames.depth = visit.session.frames.depth + 1 ∧
            visit.stop? = body.stop?)) ∧
    ∀ program, (evaluate fuel program s).2.frames.depth ≤ s.config.maxCallDepth := by
  have hvisits (task : Task) : ∀ visit ∈ task.visits fuel s, ∀ t ∈ visit.sessions,
      t.frames.depth ≤ s.config.maxCallDepth ∧ t.config = s.config := by
    refine sameDepth_discipline.visits ?_ ?_ ⟨hlimit, rfl⟩
    · rintro t u hsame ⟨hdepth, hconfig⟩
      exact ⟨hsame.depth ▸ hdepth, hsame.config.trans hconfig⟩
    · rintro t name c args - hdepth ⟨-, hconfig⟩
      rw [hconfig] at hdepth
      exact ⟨by rw [c.depth_enter]; exact hdepth, hconfig⟩
  refine ⟨fun task visit hvisit => ⟨fun t ht => (hvisits task visit hvisit t ht).1, ?_⟩, ?_⟩
  · intro left name args c hfuel htask hget
    have hconfig := (hvisits task visit hvisit visit.session List.mem_cons_self).2
    refine ⟨fun hdepth => ?_, fun hdepth => ?_⟩
    · have hreached : visit.session.config.maxCallDepth ≤ visit.session.frames.depth :=
        Nat.le_of_eq ((congrArg Config.maxCallDepth hconfig).trans hdepth.symm)
      rw [hfuel, htask, call_of_limit_le args left hget hreached, hconfig]
      exact ⟨rfl, starts_of_limit_le args left hget hreached⟩
    · rw [← hconfig] at hdepth
      have hstarts := starts_of_lt_limit args left hget hdepth
      rw [← htask] at hstarts
      refine ⟨_, Task.mem_visits_of_starts hvisit hfuel (hstarts ▸ List.mem_cons_self), hstarts,
        rfl, rfl, c.depth_enter args _, ?_⟩
      rw [Task.Visit.stop?, htask, hfuel]
      exact stop_of_lt_limit args left hget hdepth
  · intro program
    rw [(sameDepth_discipline.evaluate fuel program s).depth]
    exact hlimit

/-- A function and an inline function that call each other without an end, three calls deep at
most. -/
theorem depth_le_limit_endless :
    let start : Session := { config := { Config.quiet with maxCallDepth := 3 } }
    let s := start.registerInline ⟨"back", [], [.expr (.call "forth" [])]⟩
    let program : Program :=
      ⟨[.function "forth" [] [.expr (.call "back" [])], .expr (.call "forth" [])]⟩
    s.frames.depth = 0 ∧
      (∀ visit ∈ (Task.run program).visits 30 s, ∀ t ∈ visit.sessions, t.frames.depth ≤ 3) ∧
      (∃ visit ∈ (Task.run program).visits 30 s, visit.session.frames.depth = 3) ∧
      (runProgram 30 program s).1 = .error (.fault (.callDepthExceeded 3)) := by
  intro start s program
  refine ⟨rfl, fun visit hvisit => ?_, by decide +kernel, rfl⟩
  exact ((depth_le_limit (s := s) (by decide) 30).1 (.run program) visit hvisit).1

end Run

end Splice
