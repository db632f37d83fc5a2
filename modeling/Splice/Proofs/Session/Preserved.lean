import Splice.Session.Run

/-! What a run does to the session is said once.  `Discipline` lists the single changes a run is
made of; a relation between sessions that allows each of them holds between the sessions before
and after every whole run, whether it ends well, fails, or uses up its fuel. -/
namespace Splice.Run

variable {α β : Type} {Q R : Session → Session → Prop}

/-- However the run ends, the session after it stands in `R` to the session before it. -/
def Preserves (R : Session → Session → Prop) (x : Run α) : Prop :=
  ∀ s, R s (x s).2

/-- Expressions change sessions along `Q`, statements along the weaker `R`.  A call turns what its
body does in a frame of its own into a change along `Q`. -/
structure Discipline (Q R : Session → Session → Prop) : Prop where
  refl : ∀ s, Q s s
  trans : ∀ s t u, Q s t → Q t u → Q s u
  transStmt : ∀ s t u, R s t → R t u → R s u
  weaken : ∀ s t, Q s t → R s t
  say : ∀ s line, Q s (s.say line)
  note : ∀ s text, Q s (s.note text)
  draw : ∀ s drawing, Q s (s.draw drawing)
  remember : ∀ s fact, Q s (s.remember fact)
  register : ∀ s decl, Q s (s.register decl)
  answer : ∀ s r, Q s { s with backend := (s.backend.answer r).2 }
  define : ∀ s name value, R s (s.define name value)
  call : ∀ s t params args, R { s with frames := s.frames.pushCall params args } t →
    Q s { t with frames := t.frames.pop }
  inline : ∀ s t params args, R { s with frames := s.frames.pushInline params args } t →
    Q s { t with frames := t.frames.pop }

theorem Preserves.mono (h : ∀ s t, Q s t → R s t) {x : Run α} (hx : Preserves Q x) :
    Preserves R x :=
  fun s => h _ _ (hx s)

theorem Preserves.bind (trans : ∀ s t u, R s t → R t u → R s u) {x : Run α} {f : α → Run β}
    (hx : Preserves R x) (hf : ∀ a, Preserves R (f a)) : Preserves R (x >>= f) := by
  intro s
  have h := hx s
  rw [bind_apply]
  revert h
  cases x s with
  | mk result t =>
    intro h
    cases result with
    | ok a => exact trans _ _ _ h (hf a t)
    | error e => exact h

namespace Discipline

variable (D : Discipline Q R)
include D

theorem pure (a : α) : Preserves Q (Pure.pure a : Run α) :=
  fun s => D.refl s

theorem fail (fault : RunFault) : Preserves Q (Run.fail fault : Run α) :=
  fun s => D.refl s

theorem crash : Preserves Q (Run.crash : Run α) :=
  fun s => D.refl s

theorem outOfFuel : Preserves Q (Run.outOfFuel : Run α) :=
  fun s => D.refl s

theorem get : Preserves Q Run.get :=
  fun s => D.refl s

theorem bind {x : Run α} {f : α → Run β} (hx : Preserves Q x) (hf : ∀ a, Preserves Q (f a)) :
    Preserves Q (x >>= f) :=
  hx.bind D.trans hf

theorem sayRun (line : String) : Preserves Q (Run.say line) :=
  fun s => D.say s line

theorem noteRun (text : String) : Preserves Q (Run.note text) :=
  fun s => D.note s text

theorem request (r : Request) : Preserves Q (Run.request r) := by
  intro s
  have h := D.answer s r
  unfold Run.request
  revert h
  cases s.backend.answer r with
  | mk result backend =>
    intro h
    cases result <;> exact h

theorem requestCode (r : Request) : Preserves Q (Run.requestCode r) :=
  D.bind (D.request r) fun _ => D.bind (D.noteRun _) fun _ => D.pure _

theorem requestAnswer (r : Request) : Preserves Q (Run.requestAnswer r) :=
  D.bind (D.request r) fun _ => D.bind (D.noteRun _) fun _ => D.pure _

theorem compileAnswer (code : String) : Preserves Q (Run.compileAnswer code) := by
  unfold Run.compileAnswer
  split
  · exact D.pure _
  · exact D.fail _
  · exact D.crash

theorem callBuiltin (builtin : Builtin) (args : List Value) :
    Preserves Q (Run.callBuiltin builtin args) := by
  unfold Run.callBuiltin
  cases builtin with
  | print => exact D.bind (D.sayRun _) fun _ => D.pure _
  | draw widget =>
    cases widget with
    | box => exact D.bind (fun s => D.draw s _) fun _ => D.pure _
    | text =>
      dsimp only
      split
      · exact D.bind (fun s => D.draw s _) fun _ => D.pure _
      · exact D.pure _
    | button => exact D.bind (fun s => D.draw s _) fun _ => D.pure _
  | ask =>
    exact D.bind (D.sayRun _) fun _ => D.bind (D.request _) fun _ =>
      D.bind (D.noteRun _) fun _ => D.pure _
  | remember =>
    exact D.bind (D.sayRun _) fun _ => D.bind (fun s => D.remember s _) fun _ => D.pure _

theorem callBound (name : String) (args : List Value) : Preserves Q (Run.callBound name args) := by
  refine D.bind D.get fun s => ?_
  split
  · exact D.callBuiltin _ _
  · exact D.fail _

theorem apply (op : Operator) (left right : Value) : Preserves Q (Run.apply op left right) := by
  unfold Run.apply
  split
  · exact D.pure _
  · exact D.fail _

theorem lookup (name : String) : Preserves Q (Run.lookup name) := by
  refine D.bind D.get fun s => ?_
  split
  · exact D.pure _
  · exact D.fail _

theorem registerAll (decls : List Function) : ∀ s, Q s (decls.foldl Session.register s) := by
  induction decls with
  | nil => exact D.refl
  | cons decl decls ih =>
    intro s
    exact D.trans _ _ _ (D.register s decl) (ih _)

theorem announceAll (decls : List Function) : ∀ s, Q s (decls.foldl generate.announce s) := by
  induction decls with
  | nil => exact D.refl
  | cons decl decls ih =>
    intro s
    exact D.trans _ _ _ (D.trans _ _ _ (D.register s decl) (D.say _ _)) (ih _)

theorem generate (name : String) (params : List String) (description : String) :
    Preserves Q (Run.generate name params description) :=
  D.bind (D.sayRun _) fun _ => D.bind (D.requestCode _) fun _ => D.bind (D.sayRun _) fun _ =>
    D.bind (D.compileAnswer _) fun program => D.announceAll program.functions

theorem requestOptimized (body : List Stmt) : Preserves Q (Run.requestOptimized body) :=
  D.bind (D.sayRun _) fun _ => D.bind (D.requestCode _) fun _ => D.bind (D.sayRun _) fun _ =>
    D.compileAnswer _

theorem requestInstructed (instruction : Option String) (body : Option (List Stmt)) :
    Preserves Q (Run.requestInstructed instruction body) := by
  refine D.bind D.get fun _ => D.bind (D.sayRun _) fun _ => D.bind D.get fun _ =>
    D.bind (D.requestCode _) fun _ => D.bind (D.sayRun _) fun _ => ?_
  split
  · exact D.pure _
  · exact D.compileAnswer _

theorem requestModule (library : String) : Preserves Q (Run.requestModule library) :=
  D.bind (D.sayRun _) fun _ => D.bind (D.requestCode _) fun _ => D.compileAnswer _

theorem search (query : String) : Preserves Q (Run.search query) :=
  D.bind D.get fun _ => D.bind (D.requestAnswer _) fun _ => D.sayRun _

theorem inspect (value : Value) : Preserves Q (Run.inspect value) :=
  D.bind (D.requestAnswer _) fun _ => D.sayRun _

theorem reportFailure (fault : RunFault) : Preserves Q (Run.reportFailure fault) := by
  refine D.bind (D.sayRun _) fun _ => D.bind D.get fun s => ?_
  split
  · refine D.bind (D.sayRun _) fun _ s => ?_
    have h := D.answer s (.process ("Fix this error: " ++ fault.message) "")
    unfold reportFailure.suggestFix
    revert h
    cases s.backend.answer (.process ("Fix this error: " ++ fault.message) "") with
    | mk result backend =>
      intro h
      cases result <;> exact D.trans _ _ _ h (D.say _ _)
  · exact D.pure _

end Discipline

/-- What every run with so much fuel preserves. -/
structure AllPreserve (Q R : Session → Session → Prop) (fuel : Nat) : Prop where
  exec : ∀ stmt, Preserves R (Run.exec fuel stmt)
  execBlock : ∀ stmts, Preserves R (Run.execBlock fuel stmts)
  execLoop : ∀ test body, Preserves R (Run.execLoop fuel test body)
  runProgram : ∀ program, Preserves R (Run.runProgram fuel program)
  eval : ∀ e, Preserves Q (Run.eval fuel e)
  evalAll : ∀ es, Preserves Q (Run.evalAll fuel es)
  call : ∀ name args, Preserves Q (Run.call fuel name args)

namespace Discipline

variable (D : Discipline Q R) {fuel : Nat}
include D

theorem lift {x : Run α} (hx : Preserves Q x) : Preserves R x :=
  hx.mono D.weaken

theorem seq {x : Run α} {f : α → Run β} (hx : Preserves R x) (hf : ∀ a, Preserves R (f a)) :
    Preserves R (x >>= f) :=
  hx.bind D.transStmt hf

theorem exec_succ (ih : AllPreserve Q R fuel) (stmt : Stmt) :
    Preserves R (Run.exec (fuel + 1) stmt) := by
  cases stmt with
  | function name params body =>
    exact D.seq (D.lift fun s => D.register s _) fun _ => D.lift (D.pure _)
  | binding name init =>
    cases init with
    | none => exact D.seq (fun s => D.define s _ _) fun _ => D.lift (D.pure _)
    | some init =>
      exact D.seq (D.lift (ih.eval init)) fun value =>
        D.seq (fun s => D.define s _ _) fun _ => D.lift (D.pure _)
  | branch test yes no =>
    refine D.seq (D.lift (ih.eval test)) fun value => ?_
    split
    · exact ih.execBlock yes
    · cases no with
      | none => exact D.lift (D.pure _)
      | some no => exact ih.execBlock no
  | loop test body => exact ih.execLoop test body
  | ret value =>
    cases value with
    | none => exact D.lift (D.pure _)
    | some value => exact D.seq (D.lift (ih.eval value)) fun _ => D.lift (D.pure _)
  | expr e => exact D.seq (D.lift (ih.eval e)) fun _ => D.lift (D.pure _)
  | generate name params description =>
    exact D.seq (D.lift (D.generate _ _ _)) fun _ => D.lift (D.pure _)
  | optimize body =>
    exact D.seq (D.lift (D.requestOptimized body)) fun program => ih.execBlock program.body
  | ask instruction body =>
    exact D.seq (D.lift (D.requestInstructed _ _)) fun program => ih.execBlock program.body
  | load library =>
    exact D.seq (D.lift (D.requestModule library)) fun program =>
      D.seq (ih.runProgram program) fun _ => D.lift (D.pure _)
  | search query => exact D.seq (D.lift (D.search query)) fun _ => D.lift (D.pure _)
  | inspect target =>
    exact D.seq (D.lift (ih.eval target)) fun value =>
      D.seq (D.lift (D.inspect value)) fun _ => D.lift (D.pure _)

theorem execBlock_succ (ih : AllPreserve Q R fuel) (stmts : List Stmt) :
    Preserves R (Run.execBlock (fuel + 1) stmts) := by
  cases stmts with
  | nil => exact D.lift (D.pure _)
  | cons stmt later =>
    refine D.seq (ih.exec stmt) fun flow => ?_
    cases flow with
    | normal => exact ih.execBlock later
    | ret value => exact D.lift (D.pure _)

theorem execLoop_succ (ih : AllPreserve Q R fuel) (test : Expr) (body : List Stmt) :
    Preserves R (Run.execLoop (fuel + 1) test body) := by
  refine D.seq (D.lift (ih.eval test)) fun value => ?_
  split
  · refine D.seq (ih.execBlock body) fun flow => ?_
    cases flow with
    | normal => exact ih.execLoop test body
    | ret value => exact D.lift (D.pure _)
  · exact D.lift (D.pure _)

theorem runProgram_succ (ih : AllPreserve Q R fuel) (program : Program) :
    Preserves R (Run.runProgram (fuel + 1) program) := by
  refine D.seq (D.lift (D.registerAll program.functions)) fun _ => ?_
  split
  · exact D.seq (D.lift (ih.call "main" [])) fun _ => D.lift (D.pure _)
  · exact D.seq (ih.execBlock _) fun _ => D.lift (D.pure _)

theorem eval_succ (ih : AllPreserve Q R fuel) (e : Expr) :
    Preserves Q (Run.eval (fuel + 1) e) := by
  cases e with
  | number value => exact D.pure _
  | text value => exact D.pure _
  | name n => exact D.lookup n
  | binary op left right =>
    exact D.bind (ih.eval left) fun _ => D.bind (ih.eval right) fun _ => D.apply op _ _
  | call callee args => exact D.bind (ih.evalAll args) fun values => ih.call callee values
  | ui widget args children =>
    exact D.bind (ih.evalAll args) fun _ => D.bind (D.callBound _ _) fun _ =>
      D.bind (ih.evalAll children) fun _ => D.pure _

theorem evalAll_succ (ih : AllPreserve Q R fuel) (es : List Expr) :
    Preserves Q (Run.evalAll (fuel + 1) es) := by
  cases es with
  | nil => exact D.pure _
  | cons e es =>
    exact D.bind (ih.eval e) fun _ => D.bind (ih.evalAll es) fun _ => D.pure _

theorem call_succ (ih : AllPreserve Q R fuel) (name : String) (args : List Value) :
    Preserves Q (Run.call (fuel + 1) name args) := by
  refine D.bind D.get fun s => ?_
  split
  · exact D.callBound name args
  · rename_i callable _
    split
    · exact D.fail _
    · refine D.bind ?_ fun flow => ?_
      · -- The frame is left again, so the body's changes to it are gone.
        intro t
        cases callable with
        | function decl => exact D.call _ _ _ _ (ih.execBlock decl.body _)
        | inline decl => exact D.inline _ _ _ _ (ih.execBlock decl.body _)
      · cases flow <;> exact D.pure _

theorem all (fuel : Nat) : AllPreserve Q R fuel := by
  induction fuel with
  | zero =>
    exact ⟨fun _ => D.lift D.outOfFuel, fun _ => D.lift D.outOfFuel,
      fun _ _ => D.lift D.outOfFuel, fun _ => D.lift D.outOfFuel, fun _ => D.outOfFuel,
      fun _ => D.outOfFuel, fun _ _ => D.outOfFuel⟩
  | succ fuel ih =>
    exact ⟨D.exec_succ ih, D.execBlock_succ ih, D.execLoop_succ ih, D.runProgram_succ ih,
      D.eval_succ ih, D.evalAll_succ ih, D.call_succ ih⟩

theorem evaluate (fuel : Nat) (program : Program) : Preserves R (Run.evaluate fuel program) := by
  intro s
  have hrun := (D.all fuel).runProgram program s
  unfold Run.evaluate
  revert hrun
  cases Run.runProgram fuel program s with
  | mk result t =>
    intro hrun
    match result with
    | .ok () | .error .crash | .error .outOfFuel => exact hrun
    | .error (.fault fault) =>
      exact D.transStmt _ _ _ hrun (D.weaken _ _ (D.reportFailure fault t))

theorem runSource (fuel : Nat) (source : String) (s : Session) :
    R s (s.runSource fuel source).2 := by
  unfold Session.runSource
  cases compile source with
  | error fault => exact D.weaken _ _ (D.refl s)
  | ok program =>
    have hrun := D.evaluate fuel program s
    revert hrun
    dsimp only
    cases Run.evaluate fuel program s with
    | mk result t =>
      intro hrun
      match result with
      | .ok () | .error .crash | .error .outOfFuel | .error (.fault fault) => exact hrun

end Discipline

end Splice.Run
