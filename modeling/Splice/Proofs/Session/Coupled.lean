import Splice.Session.Run

/-! Two runs side by side.  A coupling relates sessions that a run cannot tell apart: it gives both
runs the same answers to every question they ask of their session, and each single change keeps
it.  Whole runs from coupled sessions then end the same way, in coupled sessions again.  The index
of a coupling counts the frames that were entered since the two runs were put side by side. -/
namespace Splice.Run

variable {α β : Type}

/-- From related sessions the two runs have one outcome and end in related sessions. -/
def Agree (R : Session → Session → Prop) (x y : Run α) : Prop :=
  ∀ s t, R s t → (x s).1 = (y t).1 ∧ R (x s).2 (y t).2

structure Coupling (R : Nat → Session → Session → Prop) : Prop where
  get? : ∀ {d s t}, R d s t → ∀ name, s.frames.get? name = t.frames.get? name
  depth : ∀ {d s t}, R d s t → s.frames.depth = t.frames.depth
  functions : ∀ {d s t}, R d s t → ∀ name, s.functions.get? name = t.functions.get? name
  config : ∀ {d s t}, R d s t → s.config = t.config
  facts : ∀ {d s t}, R d s t → s.facts = t.facts
  say : ∀ {d s t}, R d s t → ∀ line, R d (s.say line) (t.say line)
  draw : ∀ {d s t}, R d s t → ∀ drawing, R d (s.draw drawing) (t.draw drawing)
  remember : ∀ {d s t}, R d s t → ∀ fact, R d (s.remember fact) (t.remember fact)
  register : ∀ {d s t}, R d s t → ∀ decl, R d (s.register decl) (t.register decl)
  define : ∀ {d s t}, R d s t → ∀ name value, R d (s.define name value) (t.define name value)
  requestCode : ∀ d r, Agree (R d) (Run.requestCode r) (Run.requestCode r)
  requestAnswer : ∀ d r, Agree (R d) (Run.requestAnswer r) (Run.requestAnswer r)
  ask : ∀ d args, Agree (R d) (callBuiltin .ask args) (callBuiltin .ask args)
  pushCall : ∀ {d s t}, R d s t → ∀ params args,
    R (d + 1) { s with frames := s.frames.pushCall params args }
      { t with frames := t.frames.pushCall params args }
  pushInline : ∀ {d s t}, R d s t → ∀ params args,
    R (d + 1) { s with frames := s.frames.pushInline params args }
      { t with frames := t.frames.pushInline params args }
  pop : ∀ {d s t}, R (d + 1) s t →
    R d { s with frames := s.frames.pop } { t with frames := t.frames.pop }

section Agree

variable {R : Session → Session → Prop}

theorem Agree.pure (a : α) : Agree R (Pure.pure a : Run α) (Pure.pure a) :=
  fun _ _ h => ⟨rfl, h⟩

theorem Agree.fail (fault : RunFault) : Agree R (Run.fail fault : Run α) (Run.fail fault) :=
  fun _ _ h => ⟨rfl, h⟩

theorem Agree.crash : Agree R (Run.crash : Run α) Run.crash :=
  fun _ _ h => ⟨rfl, h⟩

theorem Agree.outOfFuel : Agree R (Run.outOfFuel : Run α) Run.outOfFuel :=
  fun _ _ h => ⟨rfl, h⟩

theorem Agree.modify {f g : Session → Session} (h : ∀ s t, R s t → R (f s) (g t)) :
    Agree R (Run.modify f) (Run.modify g) :=
  fun s t hst => ⟨rfl, h s t hst⟩

theorem Agree.bind {x y : Run α} {f g : α → Run β} (hxy : Agree R x y)
    (hfg : ∀ a, Agree R (f a) (g a)) : Agree R (x >>= f) (y >>= g) := by
  intro s t hst
  have h := hxy s t hst
  rw [bind_apply, bind_apply]
  revert h
  cases x s with
  | mk result s' =>
    cases y t with
    | mk result' t' =>
      rintro ⟨rfl, hst'⟩
      cases result with
      | ok a => exact hfg a s' t' hst'
      | error e => exact ⟨rfl, hst'⟩

theorem Agree.get_bind {f g : Session → Run β}
    (h : ∀ s t, R s t → Agree R (f s) (g t)) : Agree R (Run.get >>= f) (Run.get >>= g) :=
  fun s t hst => h s t hst s t hst

theorem Agree.compileAnswer (code : String) :
    Agree R (Run.compileAnswer code) (Run.compileAnswer code) := by
  unfold Run.compileAnswer
  split
  · exact .pure _
  · exact .fail _
  · exact .crash

theorem Agree.apply (op : Operator) (left right : Value) :
    Agree R (Run.apply op left right) (Run.apply op left right) := by
  unfold Run.apply
  split
  · exact .pure _
  · exact .fail _

end Agree

namespace Coupling

variable {R : Nat → Session → Session → Prop} (C : Coupling R) (d : Nat)
include C

theorem sayRun (line : String) : Agree (R d) (Run.say line) (Run.say line) :=
  .modify fun _ _ h => C.say h line

theorem drawRun (drawing : Drawing) :
    Agree (R d) (Run.modify (·.draw drawing)) (Run.modify (·.draw drawing)) :=
  .modify fun _ _ h => C.draw h drawing

theorem callBuiltin (builtin : Builtin) (args : List Value) :
    Agree (R d) (Run.callBuiltin builtin args) (Run.callBuiltin builtin args) := by
  cases builtin with
  | print => exact (C.sayRun d _).bind fun _ => .pure _
  | draw widget =>
    unfold Run.callBuiltin
    cases widget with
    | box => exact (C.drawRun d _).bind fun _ => .pure _
    | text =>
      dsimp only
      split
      · exact (C.drawRun d _).bind fun _ => .pure _
      · exact .pure _
    | button => exact (C.drawRun d _).bind fun _ => .pure _
  | ask => exact C.ask d args
  | remember =>
    exact (C.sayRun d _).bind fun _ =>
      Agree.bind (.modify fun _ _ h => C.remember h _) fun _ => .pure _

theorem callBound (name : String) (args : List Value) :
    Agree (R d) (Run.callBound name args) (Run.callBound name args) := by
  refine .get_bind fun s t hst => ?_
  rw [C.get? hst name]
  split
  · exact C.callBuiltin d _ _
  · exact .fail _

theorem lookup (name : String) : Agree (R d) (Run.lookup name) (Run.lookup name) := by
  refine .get_bind fun s t hst => ?_
  rw [C.get? hst name]
  split
  · exact .pure _
  · exact .fail _

theorem registerAll (decls : List Function) : ∀ {s t}, R d s t →
    R d (decls.foldl Session.register s) (decls.foldl Session.register t) := by
  induction decls with
  | nil => exact id
  | cons decl decls ih =>
    intro s t hst
    exact ih (C.register hst decl)

theorem announceAll (decls : List Function) : ∀ {s t}, R d s t →
    R d (decls.foldl generate.announce s) (decls.foldl generate.announce t) := by
  induction decls with
  | nil => exact id
  | cons decl decls ih =>
    intro s t hst
    exact ih (C.say (C.register hst decl) _)

theorem generate (name : String) (params : List String) (description : String) :
    Agree (R d) (Run.generate name params description) (Run.generate name params description) :=
  (C.sayRun d _).bind fun _ => (C.requestCode d _).bind fun _ => (C.sayRun d _).bind fun _ =>
    Agree.bind (.compileAnswer _) fun program =>
      .modify fun _ _ h => C.announceAll d program.functions h

theorem requestOptimized (body : List Stmt) :
    Agree (R d) (Run.requestOptimized body) (Run.requestOptimized body) :=
  (C.sayRun d _).bind fun _ => (C.requestCode d _).bind fun _ => (C.sayRun d _).bind fun _ =>
    .compileAnswer _

theorem requestInstructed (instruction : Option String) (body : Option (List Stmt)) :
    Agree (R d) (Run.requestInstructed instruction body)
      (Run.requestInstructed instruction body) := by
  refine .get_bind fun s t hst => ?_
  rw [C.config hst]
  refine (C.sayRun d _).bind fun _ => .get_bind fun s t hst => ?_
  rw [C.facts hst]
  refine (C.requestCode d _).bind fun code => (C.sayRun d _).bind fun _ => ?_
  split
  · exact .pure _
  · exact .compileAnswer code

theorem requestModule (library : String) :
    Agree (R d) (Run.requestModule library) (Run.requestModule library) :=
  (C.sayRun d _).bind fun _ => (C.requestCode d _).bind fun _ => .compileAnswer _

theorem search (query : String) : Agree (R d) (Run.search query) (Run.search query) := by
  refine .get_bind fun s t hst => ?_
  rw [C.facts hst]
  exact (C.requestAnswer d _).bind fun _ => C.sayRun d _

theorem inspect (value : Value) : Agree (R d) (Run.inspect value) (Run.inspect value) :=
  (C.requestAnswer d _).bind fun _ => C.sayRun d _

end Coupling

/-- Every run with so much fuel agrees with itself on coupled sessions. -/
structure AllAgree (R : Nat → Session → Session → Prop) (fuel : Nat) : Prop where
  exec : ∀ d stmt, Agree (R d) (Run.exec fuel stmt) (Run.exec fuel stmt)
  execBlock : ∀ d stmts, Agree (R d) (Run.execBlock fuel stmts) (Run.execBlock fuel stmts)
  execLoop : ∀ d test body,
    Agree (R d) (Run.execLoop fuel test body) (Run.execLoop fuel test body)
  runProgram : ∀ d program,
    Agree (R d) (Run.runProgram fuel program) (Run.runProgram fuel program)
  eval : ∀ d e, Agree (R d) (Run.eval fuel e) (Run.eval fuel e)
  evalAll : ∀ d es, Agree (R d) (Run.evalAll fuel es) (Run.evalAll fuel es)
  call : ∀ d name args, Agree (R d) (Run.call fuel name args) (Run.call fuel name args)

namespace Coupling

variable {R : Nat → Session → Session → Prop} (C : Coupling R) {fuel : Nat}
include C

theorem exec_succ (ih : AllAgree R fuel) (d : Nat) (stmt : Stmt) :
    Agree (R d) (Run.exec (fuel + 1) stmt) (Run.exec (fuel + 1) stmt) := by
  cases stmt with
  | function name params body =>
    exact Agree.bind (.modify fun _ _ h => C.register h _) fun _ => .pure _
  | binding name init =>
    cases init with
    | none => exact Agree.bind (.modify fun _ _ h => C.define h _ _) fun _ => .pure _
    | some init =>
      exact (ih.eval d init).bind fun value =>
        Agree.bind (.modify fun _ _ h => C.define h _ _) fun _ => .pure _
  | branch test yes no =>
    refine (ih.eval d test).bind fun value => ?_
    split
    · exact ih.execBlock d yes
    · cases no with
      | none => exact .pure _
      | some no => exact ih.execBlock d no
  | loop test body => exact ih.execLoop d test body
  | ret value =>
    cases value with
    | none => exact .pure _
    | some value => exact (ih.eval d value).bind fun _ => .pure _
  | expr e => exact (ih.eval d e).bind fun _ => .pure _
  | generate name params description =>
    exact (C.generate d _ _ _).bind fun _ => .pure _
  | optimize body =>
    exact (C.requestOptimized d body).bind fun program => ih.execBlock d program.body
  | ask instruction body =>
    exact (C.requestInstructed d _ _).bind fun program => ih.execBlock d program.body
  | load library =>
    exact (C.requestModule d library).bind fun program =>
      (ih.runProgram d program).bind fun _ => .pure _
  | search query => exact (C.search d query).bind fun _ => .pure _
  | inspect target =>
    exact (ih.eval d target).bind fun value => (C.inspect d value).bind fun _ => .pure _

omit C in
theorem execBlock_succ (ih : AllAgree R fuel) (d : Nat) (stmts : List Stmt) :
    Agree (R d) (Run.execBlock (fuel + 1) stmts) (Run.execBlock (fuel + 1) stmts) := by
  cases stmts with
  | nil => exact .pure _
  | cons stmt later =>
    refine (ih.exec d stmt).bind fun flow => ?_
    cases flow with
    | normal => exact ih.execBlock d later
    | ret value => exact .pure _

omit C in
theorem execLoop_succ (ih : AllAgree R fuel) (d : Nat) (test : Expr) (body : List Stmt) :
    Agree (R d) (Run.execLoop (fuel + 1) test body) (Run.execLoop (fuel + 1) test body) := by
  refine (ih.eval d test).bind fun value => ?_
  split
  · refine (ih.execBlock d body).bind fun flow => ?_
    cases flow with
    | normal => exact ih.execLoop d test body
    | ret value => exact .pure _
  · exact .pure _

theorem runProgram_succ (ih : AllAgree R fuel) (d : Nat) (program : Program) :
    Agree (R d) (Run.runProgram (fuel + 1) program) (Run.runProgram (fuel + 1) program) := by
  refine Agree.bind (.modify fun _ _ h => C.registerAll d program.functions h) fun _ => ?_
  split
  · exact (ih.call d "main" []).bind fun _ => .pure _
  · exact (ih.execBlock d _).bind fun _ => .pure _

theorem eval_succ (ih : AllAgree R fuel) (d : Nat) (e : Expr) :
    Agree (R d) (Run.eval (fuel + 1) e) (Run.eval (fuel + 1) e) := by
  cases e with
  | number value => exact .pure _
  | text value => exact .pure _
  | name n => exact C.lookup d n
  | binary op left right =>
    exact (ih.eval d left).bind fun _ => (ih.eval d right).bind fun _ => .apply op _ _
  | call callee args => exact (ih.evalAll d args).bind fun values => ih.call d callee values
  | ui widget args children =>
    exact (ih.evalAll d args).bind fun _ => (C.callBound d _ _).bind fun _ =>
      (ih.evalAll d children).bind fun _ => .pure _

omit C in
theorem evalAll_succ (ih : AllAgree R fuel) (d : Nat) (es : List Expr) :
    Agree (R d) (Run.evalAll (fuel + 1) es) (Run.evalAll (fuel + 1) es) := by
  cases es with
  | nil => exact .pure _
  | cons e es => exact (ih.eval d e).bind fun _ => (ih.evalAll d es).bind fun _ => .pure _

theorem inFrame {d : Nat} {enter : Frames → Frames} {x : Run α}
    (henter : ∀ s t, R d s t →
      R (d + 1) { s with frames := enter s.frames } { t with frames := enter t.frames })
    (hx : Agree (R (d + 1)) x x) : Agree (R d) (Run.inFrame enter x) (Run.inFrame enter x) := by
  intro s t hst
  have h := hx _ _ (henter s t hst)
  exact ⟨h.1, C.pop h.2⟩

theorem call_succ (ih : AllAgree R fuel) (d : Nat) (name : String) (args : List Value) :
    Agree (R d) (Run.call (fuel + 1) name args) (Run.call (fuel + 1) name args) := by
  refine .get_bind fun s t hst => ?_
  dsimp only
  rw [C.functions hst name, C.config hst, C.depth hst]
  split
  · exact C.callBound d name args
  · rename_i callable _
    split
    · exact .fail _
    · refine Agree.bind ?_ fun flow => ?_
      · cases callable with
        | function decl =>
          exact C.inFrame (fun s t h => C.pushCall h _ _) (ih.execBlock (d + 1) decl.body)
        | inline decl =>
          exact C.inFrame (fun s t h => C.pushInline h _ _) (ih.execBlock (d + 1) decl.body)
      · cases flow <;> exact .pure _

/-- A coupling is kept by every pair of equal runs, by induction on their fuel. -/
theorem all (fuel : Nat) : AllAgree R fuel := by
  induction fuel with
  | zero =>
    exact ⟨fun _ _ => .outOfFuel, fun _ _ => .outOfFuel, fun _ _ _ => .outOfFuel,
      fun _ _ => .outOfFuel, fun _ _ => .outOfFuel, fun _ _ => .outOfFuel,
      fun _ _ _ => .outOfFuel⟩
  | succ fuel ih =>
    exact ⟨C.exec_succ ih, execBlock_succ ih, execLoop_succ ih, C.runProgram_succ ih,
      C.eval_succ ih, evalAll_succ ih, C.call_succ ih⟩

end Coupling

/-- The sessions are still coupled after a failure has been shown, if asking for a fix keeps them
so. -/
theorem Coupling.reportFailure {R : Nat → Session → Session → Prop} (C : Coupling R) (d : Nat)
    (fault : RunFault)
    (hfix : Agree (R d) (reportFailure.suggestFix fault) (reportFailure.suggestFix fault)) :
    Agree (R d) (Run.reportFailure fault) (Run.reportFailure fault) := by
  refine (C.sayRun d _).bind fun _ => .get_bind fun s t hst => ?_
  rw [C.config hst]
  split
  · exact (C.sayRun d _).bind fun _ => hfix
  · exact .pure _

section Agree

variable {R : Session → Session → Prop} {fuel : Nat}

theorem Agree.evaluate {p q : Program}
    (hrun : Agree R (Run.runProgram fuel p) (Run.runProgram fuel q))
    (hreport : ∀ fault, Agree R (Run.reportFailure fault) (Run.reportFailure fault)) :
    Agree R (Run.evaluate fuel p) (Run.evaluate fuel q) := by
  intro s t hst
  have h := hrun s t hst
  unfold Run.evaluate
  revert h
  cases Run.runProgram fuel p s with
  | mk result s' =>
    cases Run.runProgram fuel q t with
    | mk result' t' =>
      rintro ⟨rfl, hst'⟩
      match result with
      | .ok () | .error .crash | .error .outOfFuel => exact ⟨rfl, hst'⟩
      | .error (.fault fault) => exact ⟨rfl, (hreport fault s' t' hst').2⟩

theorem Agree.runSource
    (heval : ∀ program, Agree R (Run.evaluate fuel program) (Run.evaluate fuel program))
    (source : String) {s t : Session} (hst : R s t) :
    (s.runSource fuel source).1 = (t.runSource fuel source).1 ∧
      R (s.runSource fuel source).2 (t.runSource fuel source).2 := by
  unfold Session.runSource
  cases compile source with
  | error fault => exact ⟨rfl, hst⟩
  | ok program =>
    have h := heval program s t hst
    dsimp only
    revert h
    cases Run.evaluate fuel program s with
    | mk result s' =>
      cases Run.evaluate fuel program t with
      | mk result' t' =>
        rintro ⟨rfl, hst'⟩
        match result with
        | .ok () | .error .crash | .error .outOfFuel | .error (.fault fault) => exact ⟨rfl, hst'⟩

end Agree

end Splice.Run
