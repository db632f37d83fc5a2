import Splice.Proofs.Session.Visits

/-! What a run and its collaborator say to each other.  The exchanges of a run follow from the tasks
that it starts, in the order in which they come to pass; the backend that a run leaves is the one
that has served these exchanges and no others. -/
namespace Splice

/-- A request and the answer that it got. -/
structure Exchange where
  request : Request
  answer : Except CollaboratorFault Completion

namespace Backend

/-- A backend that answers requests one after another, and the backend that is left of it. -/
inductive Serves : Backend → List Exchange → Backend → Prop where
  | done (b : Backend) : Serves b [] b
  | next {b c : Backend} {r : Request} {later : List Exchange}
      (h : Serves (b.answer r).2 later c) : Serves b (⟨r, (b.answer r).1⟩ :: later) c

theorem Serves.append {b c d : Backend} {xs ys : List Exchange} (hxs : b.Serves xs c)
    (hys : c.Serves ys d) : b.Serves (xs ++ ys) d := by
  induction hxs with
  | done b => exact hys
  | next _ ih => exact .next (ih hys)

/-- The answer to a request with the next response, if there is one. -/
def scriptedAnswer (r : Request) : Option Completion → Except CollaboratorFault Completion
  | some response => .ok response
  | none => .error (.exhausted r.operation)

theorem answer_scripted (queue : List Completion) (prompts : Array Prompt) (r : Request) :
    (scripted queue prompts).answer r =
      (scriptedAnswer r queue.head?, .scripted queue.tail (prompts.push r.prompt)) := by
  cases queue <;> rfl

/-- Each exchange takes one response from the queue, as long as there is one, and records one
prompt. -/
theorem Serves.scripted {queue : List Completion} {prompts : Array Prompt} {xs : List Exchange}
    {c : Backend} (h : Serves (.scripted queue prompts) xs c) :
    c = .scripted (queue.drop xs.length) (prompts ++ xs.map (·.request.prompt)) ∧
      ∀ (i : Nat) (x : Exchange), xs[i]? = some x →
        x.answer = scriptedAnswer x.request queue[i]? := by
  induction xs generalizing queue prompts with
  | nil =>
    cases h
    exact ⟨by simp, fun i x hx => by simp at hx⟩
  | cons first later ih =>
    cases h with
    | next h =>
      rw [answer_scripted] at h ⊢
      obtain ⟨hc, hanswers⟩ := ih h
      refine ⟨by simpa using hc, fun i x hx => ?_⟩
      cases i with
      | zero =>
        cases hx
        rw [List.head?_eq_getElem?]
      | succ i =>
        rw [hanswers i x hx, List.getElem?_tail]

end Backend

namespace Session

def exchange (s : Session) (r : Request) : Exchange :=
  ⟨r, (s.backend.answer r).1⟩

/-- The exchange that a call of a bound name leads to, if it is bound to the builtin that asks. -/
def asked (s : Session) (name : String) (args : List Value) : List Exchange :=
  match s.frames.get? name with
  | some (.builtin .ask) => [s.exchange (.process ((Run.firstText args).getD "") "")]
  | _ => []

end Session

namespace Task

open Run (followed)

def opening (s : Session) : Task → List Exchange
  | .exec (.generate name params description) =>
    [s.exchange (.generateFunction name params description)]
  | .exec (.optimize body) => [s.exchange (.optimizeBlock (Stmt.printAll body))]
  | .exec (.ask instruction body) =>
    let words := instruction.getD s.config.defaultInstruction
    [s.exchange (.process (Run.withFacts words s.facts) ((body.map Stmt.printAll).getD ""))]
  | .exec (.load library) => [s.exchange (.generateModule library)]
  | .exec (.search query) => [s.exchange (.search query s.facts.toList)]
  | .call name args => if (s.functions.get? name).isNone then s.asked name args else []
  | _ => []

/-- All exchanges of a run, in order.  Most tasks make a request, if any, before they start others;
an inspection asks about a value that it has found, and a widget is drawn before its children. -/
def exchanges : Nat → Task → Session → List Exchange
  | 0, _, _ => []
  | fuel + 1, task, s =>
    match task with
    | .exec (.inspect e) =>
      exchanges fuel (.eval e) s ++ followed (Run.eval fuel e s) fun value t =>
        [t.exchange (.inspect value)]
    | .eval (.ui widget args children) =>
      exchanges fuel (.evalAll args) s ++ followed (Run.evalAll fuel args s) fun values t =>
        t.asked widget.name values ++ followed (Run.callBound widget.name values t) fun _ u =>
          exchanges fuel (.evalAll children) u
    | task =>
      task.opening s ++ (task.starts fuel s).flatMap fun start => exchanges fuel start.1 start.2

end Task

namespace Run

variable {α β : Type} {x : Run α} {f : α → Run β} {s : Session} {xs : List Exchange}

def Silent (x : Run α) : Prop :=
  Preserves (fun s t => t.backend = s.backend) x

def Conducts (x : Run α) (s : Session) (xs : List Exchange) : Prop :=
  s.backend.Serves xs (x s).2.backend

theorem Silent.conducts (h : Silent x) : Conducts x s [] := by
  unfold Conducts
  rw [h s]
  exact .done _

theorem Conducts.bind {next : α → Session → List Exchange} (hx : Conducts x s xs)
    (hf : ∀ a t, Conducts (f a) t (next a t)) :
    Conducts (x >>= f) s (xs ++ followed (x s) next) := by
  unfold Conducts at hx ⊢
  rw [bind_apply]
  revert hx
  cases x s with
  | mk result t =>
    intro hx
    cases result with
    | ok a => exact hx.append (hf a t)
    | error stop => simpa [followed] using hx

theorem Conducts.andThen (hx : Conducts x s xs) (hf : ∀ a, Silent (f a)) :
    Conducts (x >>= f) s xs := by
  unfold Conducts at hx ⊢
  rw [bind_apply]
  revert hx
  cases x s with
  | mk result t =>
    intro hx
    cases result with
    | ok a => exact (hf a t).symm ▸ hx
    | error stop => exact hx

theorem Conducts.bind_starts {fuel : Nat} {next : α → Session → List (Task × Session)}
    (hx : Conducts x s xs)
    (hf : ∀ a t, Conducts (f a) t
      ((next a t).flatMap fun start => start.1.exchanges fuel start.2)) :
    Conducts (x >>= f) s
      (xs ++ (followed (x s) next).flatMap fun start => start.1.exchanges fuel start.2) := by
  have hfollowed : ((followed (x s) next).flatMap fun start => start.1.exchanges fuel start.2) =
      followed (x s) fun a t => (next a t).flatMap fun start => start.1.exchanges fuel start.2 := by
    unfold followed
    split <;> rfl
  rw [hfollowed]
  exact hx.bind hf

theorem Silent.pure (a : α) : Silent (Pure.pure a : Run α) :=
  fun _ => rfl

theorem Silent.fail (fault : RunFault) : Silent (Run.fail fault : Run α) :=
  fun _ => rfl

theorem Silent.modify {g : Session → Session} (h : ∀ s, (g s).backend = s.backend) :
    Silent (Run.modify g) :=
  h

theorem Silent.say (line : String) : Silent (Run.say line) :=
  .modify fun _ => rfl

theorem Silent.note (text : String) : Silent (Run.note text) :=
  .modify fun _ => rfl

theorem Silent.bind (hx : Silent x) (hf : ∀ a, Silent (f a)) : Silent (x >>= f) :=
  Preserves.bind (fun _ _ _ hst htu => htu.trans hst) hx hf

theorem Silent.compileAnswer (code : String) : Silent (Run.compileAnswer code) := by
  unfold Run.compileAnswer
  split
  · exact .pure _
  · exact .fail _
  · exact fun _ => rfl

theorem Silent.apply (op : Operator) (left right : Value) : Silent (Run.apply op left right) := by
  unfold Run.apply
  split
  · exact .pure _
  · exact .fail _

theorem Silent.lookup (name : String) : Silent (Run.lookup name) := by
  refine Silent.bind (fun _ => rfl) fun s => ?_
  split
  · exact .pure _
  · exact .fail _

theorem backend_foldl (step : Session → Function → Session)
    (hstep : ∀ s decl, (step s decl).backend = s.backend) (decls : List Function) (s : Session) :
    (decls.foldl step s).backend = s.backend := by
  induction decls generalizing s with
  | nil => rfl
  | cons decl decls ih => exact (ih _).trans (hstep s decl)

theorem Conducts.modify_bind {change : Session → Session} {g : Unit → Run β}
    (hchange : (change s).backend = s.backend) (h : Conducts (g ()) (change s) xs) :
    Conducts (Run.modify change >>= g) s xs := by
  unfold Conducts at h ⊢
  rw [← hchange]
  exact h

theorem Conducts.say_bind {line : String} {g : Unit → Run β} (h : Conducts (g ()) (s.say line) xs) :
    Conducts (Run.say line >>= g) s xs :=
  .modify_bind rfl h

theorem Conducts.get_bind {g : Session → Run β} (h : Conducts (g s) s xs) :
    Conducts (Run.get >>= g) s xs :=
  h

theorem Conducts.inFrame {enter : Frames → Frames}
    (h : Conducts x { s with frames := enter s.frames } xs) :
    Conducts (Run.inFrame enter x) s xs :=
  h

theorem Conducts.of_answer {r : Request} (h : (x s).2.backend = (s.backend.answer r).2) :
    Conducts x s [s.exchange r] := by
  unfold Conducts
  rw [h]
  exact .next (.done _)

theorem request_eq (r : Request) (s : Session) :
    Run.request r s =
      ((s.exchange r).answer.mapError fun fault => .fault (.collaborator fault),
        { s with backend := (s.backend.answer r).2 }) := by
  unfold Run.request Session.exchange
  split <;> rename_i heq <;> rw [heq] <;> rfl

theorem Conducts.request (r : Request) : Conducts (Run.request r) s [s.exchange r] :=
  .of_answer (by rw [request_eq])

theorem Conducts.requestCode (r : Request) : Conducts (Run.requestCode r) s [s.exchange r] :=
  (Conducts.request r).andThen fun _ => (Silent.note _).bind fun _ => .pure _

theorem Conducts.requestAnswer (r : Request) : Conducts (Run.requestAnswer r) s [s.exchange r] :=
  (Conducts.request r).andThen fun _ => (Silent.note _).bind fun _ => .pure _

theorem Silent.callBuiltin {builtin : Builtin} (hask : builtin ≠ .ask) (args : List Value) :
    Silent (Run.callBuiltin builtin args) := by
  have hmodify (g : Session → Session) (hg : ∀ s, (g s).backend = s.backend) :
      Silent (do Run.modify g; return Value.undefined) :=
    (Silent.modify hg).bind fun _ => .pure _
  unfold Run.callBuiltin
  cases builtin with
  | print => exact hmodify _ fun _ => rfl
  | draw widget =>
    cases widget with
    | box => exact hmodify _ fun _ => rfl
    | text =>
      dsimp only
      split
      · exact hmodify _ fun _ => rfl
      · exact .pure _
    | button => exact hmodify _ fun _ => rfl
  | ask => exact absurd rfl hask
  | remember => exact (Silent.say _).bind fun _ => hmodify _ fun _ => rfl

theorem Conducts.callBound (name : String) (args : List Value) :
    Conducts (Run.callBound name args) s (s.asked name args) := by
  refine .get_bind ?_
  unfold Session.asked
  match s.frames.get? name with
  | some (.builtin .ask) =>
    exact .say_bind ((Conducts.request _).andThen fun _ => (Silent.note _).bind fun _ => .pure _)
  | some (.builtin .print) | some (.builtin (.draw _)) | some (.builtin .remember) =>
    exact Silent.conducts (Silent.callBuiltin (by simp) args)
  | some (.number _) | some (.text _) | some (.bool _) | some .null | some .undefined | none =>
    exact (Silent.fail _).conducts

theorem Conducts.generate (name : String) (params : List String) (description : String) :
    Conducts (Run.generate name params description) s
      [s.exchange (.generateFunction name params description)] :=
  .say_bind ((Conducts.requestCode _).andThen fun _ => (Silent.say _).bind fun _ =>
    (Silent.compileAnswer _).bind fun program =>
      .modify (backend_foldl generate.announce (fun _ _ => rfl) program.functions))

theorem Conducts.requestOptimized (body : List Stmt) :
    Conducts (Run.requestOptimized body) s [s.exchange (.optimizeBlock (Stmt.printAll body))] :=
  .say_bind ((Conducts.requestCode _).andThen fun _ => (Silent.say _).bind fun _ =>
    .compileAnswer _)

theorem Conducts.requestInstructed (instruction : Option String) (body : Option (List Stmt)) :
    Conducts (Run.requestInstructed instruction body) s
      ((Task.exec (.ask instruction body)).opening s) := by
  refine .get_bind (.say_bind (.get_bind ((Conducts.requestCode _).andThen fun code => ?_)))
  refine (Silent.say _).bind fun _ => ?_
  split
  · exact .pure _
  · exact .compileAnswer code

theorem Conducts.requestModule (library : String) :
    Conducts (Run.requestModule library) s [s.exchange (.generateModule library)] :=
  .say_bind ((Conducts.requestCode _).andThen fun _ => .compileAnswer _)

theorem Conducts.search (query : String) :
    Conducts (Run.search query) s [s.exchange (.search query s.facts.toList)] :=
  .get_bind ((Conducts.requestAnswer _).andThen fun _ => .say _)

theorem Conducts.inspect (value : Value) :
    Conducts (Run.inspect value) s [s.exchange (.inspect value)] :=
  (Conducts.requestAnswer _).andThen fun _ => .say _

/-- Every run with so much fuel conducts its exchanges. -/
structure AllConduct (fuel : Nat) : Prop where
  exec : ∀ stmt s, Conducts (Run.exec fuel stmt) s ((Task.exec stmt).exchanges fuel s)
  execBlock : ∀ stmts s, Conducts (Run.execBlock fuel stmts) s ((Task.block stmts).exchanges fuel s)
  execLoop : ∀ test body s,
    Conducts (Run.execLoop fuel test body) s ((Task.loop test body).exchanges fuel s)
  runProgram : ∀ program s,
    Conducts (Run.runProgram fuel program) s ((Task.run program).exchanges fuel s)
  eval : ∀ e s, Conducts (Run.eval fuel e) s ((Task.eval e).exchanges fuel s)
  evalAll : ∀ es s, Conducts (Run.evalAll fuel es) s ((Task.evalAll es).exchanges fuel s)
  call : ∀ name args s,
    Conducts (Run.call fuel name args) s ((Task.call name args).exchanges fuel s)

namespace AllConduct

variable {fuel : Nat} (ih : AllConduct fuel)
include ih

theorem exec_succ (stmt : Stmt) (s : Session) :
    Conducts (Run.exec (fuel + 1) stmt) s ((Task.exec stmt).exchanges (fuel + 1) s) := by
  cases stmt with
  | function name params body =>
    exact (Silent.bind (.modify fun _ => rfl) fun _ => .pure Flow.normal).conducts
  | binding name init =>
    have hdefine (value : Value) :
        Silent (do Run.modify (·.define name value); return Flow.normal) :=
      Silent.bind (.modify fun _ => rfl) fun _ => .pure _
    cases init with
    | none => exact (hdefine _).conducts
    | some init =>
      simp only [Task.exchanges, Task.opening, Task.starts, List.flatMap_cons, List.flatMap_nil,
        List.append_nil, List.nil_append]
      exact (ih.eval init s).andThen hdefine
  | branch test yes no =>
    simp only [Task.exchanges, Task.opening, Task.starts, List.flatMap_cons, List.nil_append]
    refine (ih.eval test s).bind_starts fun value t => ?_
    split
    · simpa using ih.execBlock yes t
    · cases no with
      | none => exact (Silent.pure _).conducts
      | some no => simpa using ih.execBlock no t
  | loop test body =>
    simpa [Task.exchanges, Task.opening, Task.starts, Run.exec] using ih.execLoop test body s
  | ret value =>
    cases value with
    | none => exact (Silent.pure _).conducts
    | some value =>
      simp only [Task.exchanges, Task.opening, Task.starts, List.flatMap_cons, List.flatMap_nil,
        List.append_nil, List.nil_append]
      exact (ih.eval value s).andThen fun _ => .pure _
  | expr e =>
    simp only [Task.exchanges, Task.opening, Task.starts, List.flatMap_cons, List.flatMap_nil,
      List.append_nil, List.nil_append]
    exact (ih.eval e s).andThen fun _ => .pure _
  | generate name params description =>
    exact (Conducts.generate name params description).andThen fun _ => .pure _
  | optimize body =>
    refine (Conducts.requestOptimized body).bind_starts fun program t => ?_
    simpa using ih.execBlock program.body t
  | ask instruction body =>
    refine (Conducts.requestInstructed instruction body).bind_starts fun program t => ?_
    simpa using ih.execBlock program.body t
  | load library =>
    refine (Conducts.requestModule library).bind_starts fun program t => ?_
    simpa using (ih.runProgram program t).andThen fun _ => .pure Flow.normal
  | search query => exact (Conducts.search query).andThen fun _ => .pure _
  | inspect target =>
    -- What follows the value is a request and no task.
    refine (ih.eval target s).bind fun value t => ?_
    exact (Conducts.inspect value).andThen fun _ => .pure _

theorem execBlock_succ (stmts : List Stmt) (s : Session) :
    Conducts (Run.execBlock (fuel + 1) stmts) s ((Task.block stmts).exchanges (fuel + 1) s) := by
  cases stmts with
  | nil => exact (Silent.pure _).conducts
  | cons stmt later =>
    simp only [Task.exchanges, Task.opening, Task.starts, List.flatMap_cons, List.nil_append]
    refine (ih.exec stmt s).bind_starts fun flow t => ?_
    cases flow with
    | normal => simpa using ih.execBlock later t
    | ret value => exact (Silent.pure _).conducts

theorem execLoop_succ (test : Expr) (body : List Stmt) (s : Session) :
    Conducts (Run.execLoop (fuel + 1) test body) s
      ((Task.loop test body).exchanges (fuel + 1) s) := by
  simp only [Task.exchanges, Task.opening, Task.starts, List.flatMap_cons, List.nil_append]
  refine (ih.eval test s).bind_starts fun value t => ?_
  split
  · rw [List.flatMap_cons]
    refine (ih.execBlock body t).bind_starts fun flow u => ?_
    cases flow with
    | normal => simpa using ih.execLoop test body u
    | ret value => exact (Silent.pure _).conducts
  · exact (Silent.pure _).conducts

theorem runProgram_succ (program : Program) (s : Session) :
    Conducts (Run.runProgram (fuel + 1) program) s
      ((Task.run program).exchanges (fuel + 1) s) := by
  have hregister := backend_foldl Session.register (fun _ _ => rfl) program.functions s
  simp only [Task.exchanges, Task.opening, Task.starts, List.nil_append]
  refine .modify_bind hregister ?_
  split
  · simpa using (ih.call "main" [] _).andThen fun _ => .pure _
  · simpa using (ih.execBlock _ _).andThen fun _ => .pure _

theorem eval_succ (e : Expr) (s : Session) :
    Conducts (Run.eval (fuel + 1) e) s ((Task.eval e).exchanges (fuel + 1) s) := by
  cases e with
  | number value => exact (Silent.pure _).conducts
  | text value => exact (Silent.pure _).conducts
  | name n => exact (Silent.lookup n).conducts
  | binary op left right =>
    simp only [Task.exchanges, Task.opening, Task.starts, List.flatMap_cons, List.nil_append]
    refine (ih.eval left s).bind_starts fun value t => ?_
    simpa using (ih.eval right t).andThen fun _ => .apply op value _
  | call callee args =>
    simp only [Task.exchanges, Task.opening, Task.starts, List.flatMap_cons, List.nil_append]
    refine (ih.evalAll args s).bind_starts fun values t => ?_
    simpa using ih.call callee values t
  | ui widget args children =>
    refine (ih.evalAll args s).bind fun values t => ?_
    refine (Conducts.callBound widget.name values).bind fun _ u => ?_
    exact (ih.evalAll children u).andThen fun _ => .pure _

theorem evalAll_succ (es : List Expr) (s : Session) :
    Conducts (Run.evalAll (fuel + 1) es) s ((Task.evalAll es).exchanges (fuel + 1) s) := by
  cases es with
  | nil => exact (Silent.pure _).conducts
  | cons e es =>
    simp only [Task.exchanges, Task.opening, Task.starts, List.flatMap_cons, List.nil_append]
    refine (ih.eval e s).bind_starts fun value t => ?_
    simpa using (ih.evalAll es t).andThen fun _ => .pure _

theorem call_succ (name : String) (args : List Value) (s : Session) :
    Conducts (Run.call (fuel + 1) name args) s
      ((Task.call name args).exchanges (fuel + 1) s) := by
  simp only [Task.exchanges, Task.opening, Task.starts, Run.call]
  refine .get_bind ?_
  cases s.functions.get? name with
  | none => simpa using Conducts.callBound name args
  | some callable =>
    dsimp only
    split
    · exact (Silent.fail _).conducts
    · simp only [Option.isNone_some, Bool.false_eq_true, if_false, List.nil_append,
        List.flatMap_cons, List.flatMap_nil, List.append_nil]
      refine Conducts.andThen ?_ fun flow => ?_
      · -- Frames come and go, the backend is the same in all of them.
        cases callable with
        | function decl => exact .inFrame (ih.execBlock decl.body _)
        | inline decl => exact .inFrame (ih.execBlock decl.body _)
      · cases flow <;> exact .pure _

omit ih in
theorem all (fuel : Nat) : AllConduct fuel := by
  induction fuel with
  | zero =>
    exact ⟨fun _ _ => .done _, fun _ _ => .done _, fun _ _ _ => .done _, fun _ _ => .done _,
      fun _ _ => .done _, fun _ _ => .done _, fun _ _ _ => .done _⟩
  | succ fuel ih =>
    exact ⟨ih.exec_succ, ih.execBlock_succ, ih.execLoop_succ, ih.runProgram_succ, ih.eval_succ,
      ih.evalAll_succ, ih.call_succ⟩

end AllConduct

/-- The exchange in which a fix for a failure is asked for, if the session is set to. -/
def fixAsked (fault : RunFault) (s : Session) : List Exchange :=
  if s.config.suggestFixes then
    [s.exchange (.process ("Fix this error: " ++ fault.message) "")]
  else []

def evaluateExchanges (fuel : Nat) (program : Program) (s : Session) : List Exchange :=
  (Task.run program).exchanges fuel s ++
    match runProgram fuel program s with
    | (.error (.fault fault), t) => fixAsked fault t
    | _ => []

theorem Conducts.reportFailure (fault : RunFault) :
    Conducts (Run.reportFailure fault) s (fixAsked fault s) := by
  refine .say_bind (.get_bind ?_)
  have hconfig (line : String) : (s.say line).config = s.config := rfl
  unfold fixAsked
  rw [hconfig]
  split
  · refine .say_bind (.of_answer ?_)
    unfold reportFailure.suggestFix
    split <;> rename_i heq <;> rw [heq] <;> rfl
  · exact (Silent.pure _).conducts

theorem Conducts.evaluate (fuel : Nat) (program : Program) (s : Session) :
    Conducts (Run.evaluate fuel program) s (evaluateExchanges fuel program s) := by
  have hrun := (AllConduct.all fuel).runProgram program s
  unfold Conducts at hrun ⊢
  unfold Run.evaluate evaluateExchanges
  revert hrun
  cases Run.runProgram fuel program s with
  | mk result t =>
    intro hrun
    match result with
    | .ok () | .error .crash | .error .outOfFuel => simpa using hrun
    | .error (.fault fault) => exact hrun.append (Conducts.reportFailure fault)

end Run

end Splice
