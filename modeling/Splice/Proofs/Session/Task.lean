import Splice.Session.Run

/-! What happens inside a run.  A run is a task with some fuel in some session; it starts other
tasks, with one unit of fuel less, in the sessions that their turn finds.  From that follow the
numbers that a run computes and the results of the calls that it makes, its own among them. -/
namespace Splice

/-- What a run is asked to do. -/
inductive Task where
  | exec (stmt : Stmt)
  | block (stmts : List Stmt)
  | loop (test : Expr) (body : List Stmt)
  | run (program : Program)
  | eval (e : Expr)
  | evalAll (es : List Expr)
  | call (name : String) (args : List Value)

/-- The frames in which the body of an entry of the function table runs. -/
def Callable.enter (args : List Value) : Callable → Frames → Frames
  | .function decl, f => f.pushCall decl.params args
  | .inline decl, f => f.pushInline decl.params args

namespace Run

def followed {α β : Type} (outcome : Except Stop α × Session) (next : α → Session → List β) :
    List β :=
  match outcome with
  | (.ok a, s) => next a s
  | (.error _, _) => []

theorem mem_followed {α β : Type} {outcome : Except Stop α × Session}
    {next : α → Session → List β} {a : α} {s : Session} {b : β} (h : outcome = (.ok a, s))
    (hb : b ∈ next a s) : b ∈ followed outcome next := by
  subst h
  exact hb

theorem exists_of_bind_eq_ok {α β : Type} {x : Run α} {f : α → Run β} {b : β} {s u : Session}
    (h : (x >>= f) s = (.ok b, u)) : ∃ a t, x s = (.ok a, t) ∧ f a t = (.ok b, u) := by
  rw [bind_apply] at h
  split at h
  · exact ⟨_, _, ‹_›, h⟩
  · cases h

theorem binary_of_apply {op : Operator} {left right value : Value} {s t : Session}
    (h : apply op left right s = (.ok value, t)) :
    Value.binary op left right = .ok value ∧ s = t := by
  unfold apply at h
  cases hbinary : Value.binary op left right with
  | ok value =>
    rw [hbinary] at h
    cases h
    exact ⟨rfl, rfl⟩
  | error fault =>
    rw [hbinary] at h
    cases h

theorem exists_of_inFrame {α : Type} {enter : Frames → Frames} {x : Run α} {a : α}
    {s t : Session} (h : inFrame enter x s = (.ok a, t)) :
    ∃ u, x { s with frames := enter s.frames } = (.ok a, u) ∧
      t = { u with frames := u.frames.pop } := by
  unfold inFrame at h
  cases hx : x { s with frames := enter s.frames } with
  | mk result u =>
    rw [hx] at h
    cases h
    exact ⟨u, rfl, rfl⟩

theorem exists_of_call {fuel : Nat} {name : String} {args : List Value} {f : Function}
    {value : Value} {s t : Session} (hget : s.functions.get? name = some (.function f))
    (h : call (fuel + 1) name args s = (.ok value, t)) :
    ¬ s.config.maxCallDepth ≤ s.frames.depth ∧ ∃ flow u,
      execBlock fuel f.body { s with frames := s.frames.pushCall f.params args } =
        (.ok flow, u) ∧
      t = { u with frames := u.frames.pop } ∧
      value = match flow with
        | .normal => .undefined
        | .ret value => value := by
  simp only [call] at h
  obtain ⟨_, _, ⟨⟩, h⟩ := exists_of_bind_eq_ok h
  simp only [hget] at h
  by_cases hdepth : s.config.maxCallDepth ≤ s.frames.depth
  · rw [if_pos hdepth] at h
    cases h
  · rw [if_neg hdepth] at h
    obtain ⟨flow, _, hframe, h⟩ := exists_of_bind_eq_ok h
    obtain ⟨u, hbody, rfl⟩ := exists_of_inFrame hframe
    refine ⟨hdepth, flow, u, hbody, ?_⟩
    cases flow with
    | normal =>
      cases h
      exact ⟨rfl, rfl⟩
    | ret value =>
      cases h
      exact ⟨rfl, rfl⟩

end Run

namespace Task

open Run (followed)

/-- The tasks that a task starts itself, with the sessions that they start in; `fuel` is what is
left for each of them. -/
def starts (fuel : Nat) (s : Session) : Task → List (Task × Session)
  | .exec (.binding _ (some e)) | .exec (.ret (some e)) | .exec (.expr e) | .exec (.inspect e) =>
    [(.eval e, s)]
  | .exec (.branch test yes no) =>
    (.eval test, s) :: followed (Run.eval fuel test s) fun value t =>
      if value.holds then [(.block yes, t)] else (no.map fun no => (.block no, t)).toList
  | .exec (.loop test body) => [(.loop test body, s)]
  | .exec (.optimize body) =>
    followed (Run.requestOptimized body s) fun program t => [(.block program.body, t)]
  | .exec (.ask instruction body) =>
    followed (Run.requestInstructed instruction body s) fun program t => [(.block program.body, t)]
  | .exec (.load library) =>
    followed (Run.requestModule library s) fun program t => [(.run program, t)]
  | .exec _ => []
  | .block [] => []
  | .block (stmt :: later) =>
    (.exec stmt, s) :: followed (Run.exec fuel stmt s) fun flow t =>
      if flow = .normal then [(.block later, t)] else []
  | .loop test body =>
    (.eval test, s) :: followed (Run.eval fuel test s) fun value t =>
      if value.holds then
        (.block body, t) :: followed (Run.execBlock fuel body t) fun flow u =>
          if flow = .normal then [(.loop test body, u)] else []
      else []
  | .run program =>
    let s := program.functions.foldl Session.register s
    if program.functions.any (·.name == "main") then [(.call "main" [], s)]
    else [(.block (program.body.filter (·.function?.isNone)), s)]
  | .eval (.binary _ left right) =>
    (.eval left, s) :: followed (Run.eval fuel left s) fun _ t => [(.eval right, t)]
  | .eval (.call callee args) =>
    (.evalAll args, s) :: followed (Run.evalAll fuel args s) fun values t =>
      [(.call callee values, t)]
  | .eval (.ui widget args children) =>
    (.evalAll args, s) :: followed (Run.evalAll fuel args s) fun values t =>
      followed (Run.callBound widget.name values t) fun _ u => [(.evalAll children, u)]
  | .eval _ => []
  | .evalAll [] => []
  | .evalAll (e :: es) =>
    (.eval e, s) :: followed (Run.eval fuel e s) fun _ t => [(.evalAll es, t)]
  | .call name args =>
    match s.functions.get? name with
    | some callable =>
      if s.config.maxCallDepth ≤ s.frames.depth then []
      else [(.block callable.decl.body, { s with frames := callable.enter args s.frames })]
    | none => []

section Starts

variable {fuel : Nat} {s t u : Session} {e test left right : Expr} {es args : List Expr}
  {stmt : Stmt} {yes no body later : List Stmt} {value : Value}

theorem mem_starts_yes {otherwise : Option (List Stmt)} (h : Run.eval fuel test s = (.ok value, t))
    (hholds : value.holds = true) :
    (Task.block yes, t) ∈ (Task.exec (.branch test yes otherwise)).starts fuel s := by
  refine List.mem_cons_of_mem _ (Run.mem_followed h ?_)
  rw [if_pos hholds]
  exact List.mem_cons_self

theorem mem_starts_no (h : Run.eval fuel test s = (.ok value, t)) (hholds : ¬ value.holds = true) :
    (Task.block no, t) ∈ (Task.exec (.branch test yes (some no))).starts fuel s := by
  refine List.mem_cons_of_mem _ (Run.mem_followed h ?_)
  rw [if_neg hholds]
  exact List.mem_cons_self

theorem mem_starts_later (h : Run.exec fuel stmt s = (.ok .normal, t)) :
    (Task.block later, t) ∈ (Task.block (stmt :: later)).starts fuel s :=
  List.mem_cons_of_mem _ (Run.mem_followed h List.mem_cons_self)

theorem mem_starts_round (h : Run.eval fuel test s = (.ok value, t))
    (hholds : value.holds = true) :
    (Task.block body, t) ∈ (Task.loop test body).starts fuel s := by
  refine List.mem_cons_of_mem _ (Run.mem_followed h ?_)
  rw [if_pos hholds]
  exact List.mem_cons_self

theorem mem_starts_again (h : Run.eval fuel test s = (.ok value, t))
    (hholds : value.holds = true) (hbody : Run.execBlock fuel body t = (.ok .normal, u)) :
    (Task.loop test body, u) ∈ (Task.loop test body).starts fuel s := by
  refine List.mem_cons_of_mem _ (Run.mem_followed h ?_)
  rw [if_pos hholds]
  exact List.mem_cons_of_mem _ (Run.mem_followed hbody List.mem_cons_self)

theorem mem_starts_right {op : Operator} (h : Run.eval fuel left s = (.ok value, t)) :
    (Task.eval right, t) ∈ (Task.eval (.binary op left right)).starts fuel s :=
  List.mem_cons_of_mem _ (Run.mem_followed h List.mem_cons_self)

theorem mem_starts_call {callee : String} {values : List Value}
    (h : Run.evalAll fuel args s = (.ok values, t)) :
    (Task.call callee values, t) ∈ (Task.eval (.call callee args)).starts fuel s :=
  List.mem_cons_of_mem _ (Run.mem_followed h List.mem_cons_self)

theorem mem_starts_rest (h : Run.eval fuel e s = (.ok value, t)) :
    (Task.evalAll es, t) ∈ (Task.evalAll (e :: es)).starts fuel s :=
  List.mem_cons_of_mem _ (Run.mem_followed h List.mem_cons_self)

theorem mem_starts_body {name : String} {values : List Value} {f : Function}
    (hget : s.functions.get? name = some (.function f))
    (hdepth : ¬ s.config.maxCallDepth ≤ s.frames.depth) :
    (Task.block f.body, { s with frames := s.frames.pushCall f.params values }) ∈
      (Task.call name values).starts fuel s := by
  simp only [starts, hget, if_neg hdepth]
  exact List.mem_cons_self

end Starts

/-- What can be seen in a task and in all that happens in it. -/
def collect {α : Type} (look : Nat → Task → Session → Option α) : Nat → Task → Session → List α
  | 0, task, s => (look 0 task s).toList
  | fuel + 1, task, s =>
    (look (fuel + 1) task s).toList ++
      (task.starts fuel s).flatMap fun (inner, t) => inner.collect look fuel t

def number? (fuel : Nat) (task : Task) (s : Session) : Option Float :=
  match task with
  | .eval e =>
    match Run.eval fuel e s with
    | (.ok (.number x), _) => some x
    | _ => none
  | _ => none

def result? (fuel : Nat) (task : Task) (s : Session) : Option (String × Value) :=
  match task with
  | .call name args =>
    match Run.call fuel name args s with
    | (.ok value, _) => some (name, value)
    | _ => none
  | _ => none

def numbers : Nat → Task → Session → List Float :=
  collect number?

def results : Nat → Task → Session → List (String × Value) :=
  collect result?

variable {α : Type} {look : Nat → Task → Session → Option α} {fuel : Nat} {task inner : Task}
  {s t : Session}

theorem mem_collect_of_look {a : α} (h : look fuel task s = some a) :
    a ∈ collect look fuel task s := by
  cases fuel <;> simp [collect, h]

theorem collect_subset_of_mem_starts (h : (inner, t) ∈ task.starts fuel s) :
    collect look fuel inner t ⊆ collect look (fuel + 1) task s :=
  fun _ ha => List.mem_append_right _ (List.mem_flatMap.mpr ⟨_, h, ha⟩)

theorem mem_numbers_of_eval {e : Expr} {x : Float} (h : Run.eval fuel e s = (.ok (.number x), t)) :
    x ∈ (Task.eval e).numbers fuel s := by
  apply mem_collect_of_look
  simp only [number?, h]

theorem mem_results_of_call {name : String} {args : List Value} {value : Value}
    (h : Run.call fuel name args s = (.ok value, t)) :
    (name, value) ∈ (Task.call name args).results fuel s := by
  apply mem_collect_of_look
  simp only [result?, h]

end Task

end Splice
