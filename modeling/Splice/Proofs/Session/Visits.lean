import Splice.Proofs.Session.Preserved
import Splice.Proofs.Session.Task

/-! The sessions of a run, from its first to its last.  Functions and frames change only where a
task starts or ends, and where a task registers functions one after another; a visit of a task has
all these sessions.  A discipline says how the sessions of a visit stand to its first one, and what
the tasks find that a visit starts. -/
namespace Splice

namespace Run

theorem exists_of_mem_followed {α β : Type} {outcome : Except Stop α × Session}
    {next : α → Session → List β} {b : β} (h : b ∈ followed outcome next) :
    ∃ a s, outcome = (.ok a, s) ∧ b ∈ next a s := by
  obtain ⟨result, s⟩ := outcome
  cases result with
  | ok a => exact ⟨a, s, rfl, h⟩
  | error stop => cases h

/-- The code for a function that is asked for, before anything of it is registered. -/
def requestFunction (name : String) (params : List String) (description : String) :
    Run Program := do
  say ("[AI] Generating function '" ++ name ++ "'...")
  let code ← requestCode (.generateFunction name params description)
  say ("[AI] Generated:\n" ++ code)
  compileAnswer code

theorem bind_assoc {α β γ : Type} (x : Run α) (f : α → Run β) (g : β → Run γ) :
    (x >>= f) >>= g = x >>= fun a => f a >>= g := by
  funext s
  simp only [bind_apply]
  cases x s with
  | mk result t => cases result <;> rfl

theorem generate_eq (name : String) (params : List String) (description : String) :
    generate name params description = (requestFunction name params description >>= fun program =>
      modify fun s => program.functions.foldl generate.announce s) := by
  simp only [requestFunction, bind_assoc, generate]

end Run

namespace Task

open Run (followed)

/-- How a run stops early, if it does, and the session that it leaves. -/
def ends (fuel : Nat) (s : Session) : Task → Option Stop × Session
  | .exec stmt => stopped (Run.exec fuel stmt s)
  | .block stmts => stopped (Run.execBlock fuel stmts s)
  | .loop test body => stopped (Run.execLoop fuel test body s)
  | .run program => stopped (Run.runProgram fuel program s)
  | .eval e => stopped (Run.eval fuel e s)
  | .evalAll es => stopped (Run.evalAll fuel es s)
  | .call name args => stopped (Run.call fuel name args s)
where
  stopped {α : Type} : Except Stop α × Session → Option Stop × Session
    | (.ok _, s) => (none, s)
    | (.error stop, s) => (some stop, s)

def stages : Nat → Session → Task → List Session
  | _ + 1, s, .run program => program.functions.scanl Session.register s
  | _ + 1, s, .exec (.generate name params description) =>
    followed (Run.requestFunction name params description s) fun program t =>
      program.functions.scanl Run.generate.announce t
  | _, _, _ => []

/-- A task inside a run, with the fuel and the session that it starts with. -/
structure Visit where
  fuel : Nat
  task : Task
  session : Session

namespace Visit

def stop? (visit : Visit) : Option Stop :=
  (visit.task.ends visit.fuel visit.session).1

def sessions (visit : Visit) : List Session :=
  visit.session :: (visit.task.stages visit.fuel visit.session ++
    [(visit.task.ends visit.fuel visit.session).2])

end Visit

def visits : Nat → Task → Session → List Visit :=
  collect fun fuel task s => some ⟨fuel, task, s⟩

/-- What every task passes on to the tasks that it starts holds of all tasks in a run. -/
theorem forall_visits {P : Task → Session → Prop}
    (hstarts : ∀ fuel task s, P task s → ∀ inner t, (inner, t) ∈ task.starts fuel s → P inner t)
    {fuel : Nat} {task : Task} {s : Session} (h : P task s) :
    ∀ visit ∈ task.visits fuel s, P visit.task visit.session := by
  induction fuel generalizing task s with
  | zero =>
    intro visit hvisit
    cases List.mem_singleton.mp hvisit
    exact h
  | succ fuel ih =>
    intro visit hvisit
    rcases List.mem_append.mp hvisit with hself | hinner
    · cases List.mem_singleton.mp hself
      exact h
    · obtain ⟨⟨inner, t⟩, hstart, hvisit⟩ := List.mem_flatMap.mp hinner
      exact ih (hstarts fuel task s h inner t hstart) visit hvisit

theorem mem_visits_of_starts {fuel left : Nat} {task inner : Task} {s t : Session} {visit : Visit}
    (hvisit : visit ∈ task.visits fuel s) (hfuel : visit.fuel = left + 1)
    (hstart : (inner, t) ∈ visit.task.starts left visit.session) :
    ⟨left, inner, t⟩ ∈ task.visits fuel s := by
  induction fuel generalizing task s with
  | zero =>
    cases List.mem_singleton.mp hvisit
    cases hfuel
  | succ fuel ih =>
    refine List.mem_append_right _ ?_
    rcases List.mem_append.mp hvisit with hself | hinner
    · cases List.mem_singleton.mp hself
      cases hfuel
      exact List.mem_flatMap.mpr ⟨_, hstart, mem_collect_of_look rfl⟩
    · obtain ⟨first, hfirst, hvisit⟩ := List.mem_flatMap.mp hinner
      exact List.mem_flatMap.mpr ⟨first, hfirst, ih hvisit⟩

@[simp] theorem stopped_snd {α : Type} (outcome : Except Stop α × Session) :
    (ends.stopped outcome).2 = outcome.2 := by
  obtain ⟨result, s⟩ := outcome
  cases result <;> rfl

end Task

namespace Run

variable {Q R : Session → Session → Prop}

theorem Preserves.forall_mem_followed {α β : Type} {x : Run α} {s : Session}
    {next : α → Session → List β} {good : β → Prop} (hx : Preserves R x)
    (h : ∀ a t, R s t → ∀ b ∈ next a t, good b) : ∀ b ∈ followed (x s) next, good b := by
  intro b hb
  obtain ⟨a, t, hrun, hb⟩ := exists_of_mem_followed hb
  have hst := hx s
  rw [hrun] at hst
  exact h a t hst b hb

namespace Discipline

variable (D : Discipline Q R) {fuel : Nat} {s : Session}
include D

theorem requestFunction (name : String) (params : List String) (description : String) :
    Preserves Q (Run.requestFunction name params description) :=
  D.bind (D.sayRun _) fun _ => D.bind (D.requestCode _) fun _ => D.bind (D.sayRun _) fun _ =>
    D.compileAnswer _

theorem scanl {step : Session → Function → Session} (hstep : ∀ s f, Q s (step s f))
    (fs : List Function) (s : Session) : ∀ t ∈ fs.scanl step s, Q s t := by
  induction fs generalizing s with
  | nil => simpa using D.refl s
  | cons f fs ih =>
    rw [List.scanl_cons, List.forall_mem_cons]
    exact ⟨D.refl s, fun t ht => D.trans _ _ _ (hstep s f) (ih _ t ht)⟩

theorem stages (task : Task) : ∀ t ∈ task.stages fuel s, R s t := by
  unfold Task.stages
  split
  · exact fun t ht => D.weaken _ _ (D.scanl D.register _ _ t ht)
  · refine (D.requestFunction _ _ _).forall_mem_followed fun program t hst u hu => ?_
    have hstep (s : Session) (f : Function) : Q s (generate.announce s f) :=
      D.trans _ _ _ (D.register s f) (D.say _ _)
    exact D.weaken _ _ (D.trans _ _ _ hst (D.scanl hstep _ _ u hu))
  · exact List.forall_mem_nil _

theorem ends (task : Task) : R s (task.ends fuel s).2 := by
  have hall := D.all fuel
  cases task with
  | exec stmt => simpa [Task.ends] using hall.exec stmt s
  | block stmts => simpa [Task.ends] using hall.execBlock stmts s
  | loop test body => simpa [Task.ends] using hall.execLoop test body s
  | run program => simpa [Task.ends] using hall.runProgram program s
  | eval e => simpa [Task.ends] using D.lift (hall.eval e) s
  | evalAll es => simpa [Task.ends] using D.lift (hall.evalAll es) s
  | call name args => simpa [Task.ends] using D.lift (hall.call name args) s

theorem starts_exec (stmt : Stmt) : ∀ start ∈ (Task.exec stmt).starts fuel s, R s start.2 := by
  have hall := D.all fuel
  have hhere : R s s := D.weaken s s (D.refl s)
  match stmt with
  | .binding _ (some e) | .ret (some e) | .expr e | .inspect e | .loop e _ =>
    exact List.forall_mem_singleton.mpr hhere
  | .branch test yes no =>
    refine List.forall_mem_cons.mpr ⟨hhere, ?_⟩
    refine (D.lift (hall.eval test)).forall_mem_followed fun value t hst => ?_
    split
    · exact List.forall_mem_singleton.mpr hst
    · cases no with
      | none => exact List.forall_mem_nil _
      | some no => exact List.forall_mem_singleton.mpr hst
  | .optimize body =>
    exact (D.lift (D.requestOptimized body)).forall_mem_followed fun _ _ hst =>
      List.forall_mem_singleton.mpr hst
  | .ask instruction body =>
    exact (D.lift (D.requestInstructed instruction body)).forall_mem_followed fun _ _ hst =>
      List.forall_mem_singleton.mpr hst
  | .load library =>
    exact (D.lift (D.requestModule library)).forall_mem_followed fun _ _ hst =>
      List.forall_mem_singleton.mpr hst
  | .function .. | .binding _ none | .ret none | .generate .. | .search _ =>
    exact List.forall_mem_nil _

theorem starts_eval (e : Expr) : ∀ start ∈ (Task.eval e).starts fuel s, Q s start.2 := by
  have hall := D.all fuel
  match e with
  | .binary op left right =>
    refine List.forall_mem_cons.mpr ⟨D.refl s, ?_⟩
    exact (hall.eval left).forall_mem_followed fun _ _ hst =>
      List.forall_mem_singleton.mpr hst
  | .call callee args =>
    refine List.forall_mem_cons.mpr ⟨D.refl s, ?_⟩
    exact (hall.evalAll args).forall_mem_followed fun _ _ hst =>
      List.forall_mem_singleton.mpr hst
  | .ui widget args children =>
    refine List.forall_mem_cons.mpr ⟨D.refl s, ?_⟩
    refine (hall.evalAll args).forall_mem_followed fun values t hst => ?_
    refine (D.callBound widget.name values).forall_mem_followed fun _ u htu => ?_
    exact List.forall_mem_singleton.mpr (D.trans _ _ _ hst htu)
  | .name _ | .number _ | .text _ => exact List.forall_mem_nil _

/-- A task other than a call starts others where a change along `R` leads; a call runs the body of
an entry of the function table in a frame of its own. -/
theorem starts {P : Session → Prop} (hkeep : ∀ t, R s t → P t)
    (henter : ∀ name c args, s.functions.get? name = some c →
      s.frames.depth < s.config.maxCallDepth → P { s with frames := c.enter args s.frames })
    (task : Task) : ∀ start ∈ task.starts fuel s, P start.2 := by
  have hall := D.all fuel
  have hhere : P s := hkeep s (D.weaken s s (D.refl s))
  match task with
  | .exec stmt => exact fun start h => hkeep _ (D.starts_exec stmt start h)
  | .eval e => exact fun start h => hkeep _ (D.weaken _ _ (D.starts_eval e start h))
  | .block [] | .evalAll [] => exact List.forall_mem_nil _
  | .block (stmt :: later) =>
    refine List.forall_mem_cons.mpr ⟨hhere, (hall.exec stmt).forall_mem_followed ?_⟩
    intro flow t hst
    split
    · exact List.forall_mem_singleton.mpr (hkeep t hst)
    · exact List.forall_mem_nil _
  | .loop test body =>
    refine List.forall_mem_cons.mpr ⟨hhere, (D.lift (hall.eval test)).forall_mem_followed ?_⟩
    intro value t hst
    split
    · refine List.forall_mem_cons.mpr ⟨hkeep t hst, (hall.execBlock body).forall_mem_followed ?_⟩
      intro flow u htu
      split
      · exact List.forall_mem_singleton.mpr (hkeep u (D.transStmt _ _ _ hst htu))
      · exact List.forall_mem_nil _
    · exact List.forall_mem_nil _
  | .run program =>
    have hregistered := hkeep _ (D.weaken _ _ (D.registerAll program.functions s))
    unfold Task.starts
    dsimp only
    split
    · exact List.forall_mem_singleton.mpr hregistered
    · exact List.forall_mem_singleton.mpr hregistered
  | .evalAll (e :: es) =>
    refine List.forall_mem_cons.mpr ⟨hhere, (D.lift (hall.eval e)).forall_mem_followed ?_⟩
    exact fun _ t hst => List.forall_mem_singleton.mpr (hkeep t hst)
  | .call name args =>
    simp only [Task.starts]
    split
    · rename_i c hget
      split
      · exact List.forall_mem_nil _
      · rename_i hdepth
        exact List.forall_mem_singleton.mpr (henter name c args hget (Nat.lt_of_not_le hdepth))
    · exact List.forall_mem_nil _

/-- What withstands the changes of a discipline, and entering a frame where a call may, holds in
all sessions of a run. -/
theorem visits {P : Session → Prop} (hkeep : ∀ s t, R s t → P s → P t)
    (henter : ∀ s name c args, s.functions.get? name = some c →
      s.frames.depth < s.config.maxCallDepth → P s →
        P { s with frames := c.enter args s.frames })
    {task : Task} (hs : P s) :
    ∀ visit ∈ task.visits fuel s, ∀ t ∈ visit.sessions, P t := by
  intro visit hvisit
  have hvisited : P visit.session := by
    refine Task.forall_visits (P := fun _ s => P s) ?_ hs visit hvisit
    intro fuel task s hs inner t hstart
    exact D.starts (fun t hst => hkeep s t hst hs)
      (fun name c args hget hdepth => henter s name c args hget hdepth hs) task _ hstart
  intro t ht
  rcases List.mem_cons.mp ht with rfl | ht
  · exact hvisited
  · rcases List.mem_append.mp ht with ht | ht
    · exact hkeep _ _ (D.stages visit.task t ht) hvisited
    · cases List.mem_singleton.mp ht
      exact hkeep _ _ (D.ends visit.task) hvisited

end Discipline

end Run

end Splice
