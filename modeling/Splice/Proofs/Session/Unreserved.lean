import Splice.Proofs.Compile.Leaves
import Splice.Proofs.Session.Visits

/-! Runs of code in which no reserved word is given to a function, a parameter or a variable.  What
the collaborator writes is such code, since it is compiled before it runs.  `Stable` lists what a
run of such code does to functions and frames; a property of sessions that withstands each of these
changes holds in all sessions of a run, however it ends. -/
namespace Splice

/-- No statement in a block, at any depth, gives a reserved word as a name. -/
def Stmt.Unreserved (block : List Stmt) : Prop :=
  ∀ s : Stmt, s.Within block → ∀ n ∈ s.names, Kind.ofWord? n = none

namespace Stmt.Unreserved

variable {block part inner : List Stmt} {stmt : Stmt}

theorem nil : Unreserved [] := by
  rintro s (hmem | ⟨hmem, -, -⟩) <;> cases hmem

theorem names (h : Unreserved block) (hmem : stmt ∈ block) :
    ∀ n ∈ stmt.names, Kind.ofWord? n = none :=
  h stmt (.here hmem)

theorem subset (h : Unreserved block) (hpart : part ⊆ block) : Unreserved part :=
  fun s hs => h s (hs.mono hpart)

theorem head (h : Unreserved (stmt :: block)) : Unreserved [stmt] :=
  h.subset fun _ hs => List.mem_cons.mpr (.inl (List.mem_singleton.mp hs))

theorem tail (h : Unreserved (stmt :: block)) : Unreserved block :=
  h.subset (List.subset_cons_self stmt block)

theorem inside (h : Unreserved block) (hmem : stmt ∈ block) (hinner : inner ∈ stmt.blocks) :
    Unreserved inner :=
  fun s hwithin => h s (.inside hmem hinner hwithin)

theorem own (h : Unreserved [stmt]) (hinner : inner ∈ stmt.blocks) : Unreserved inner :=
  h.inside List.mem_cons_self hinner

end Stmt.Unreserved

theorem unreserved_of_compile {source : String} {program : Program}
    (h : compile source = .ok program) : Stmt.Unreserved program.body := by
  intro s hs n hn
  have hwf := hs.wellFormed (wellFormed_of_compile h)
  exact ((s.plain_of_wellFormed hwf).names n hn).2

structure Function.Unreserved (f : Function) : Prop where
  name : Kind.ofWord? f.name = none
  params : ∀ p ∈ f.params, Kind.ofWord? p = none
  body : Stmt.Unreserved f.body

theorem Stmt.Unreserved.function {block : List Stmt} {f : Function} (h : Unreserved block)
    (hmem : .function f.name f.params f.body ∈ block) : f.Unreserved where
  name := h.names hmem f.name List.mem_cons_self
  params p hp := h.names hmem p (List.mem_cons_of_mem _ hp)
  body := h.inside hmem List.mem_cons_self

theorem Stmt.Unreserved.functions {program : Program} (h : Unreserved program.body) :
    ∀ f ∈ program.functions, f.Unreserved :=
  fun _ hf => h.function (Program.mem_body_of_mem_functions hf)

def Task.Unreserved : Task → Prop
  | .exec stmt => Stmt.Unreserved [stmt]
  | .block stmts => Stmt.Unreserved stmts
  | .loop _ body => Stmt.Unreserved body
  | .run program => Stmt.Unreserved program.body
  | .eval _ | .evalAll _ | .call _ _ => True

/-- A property of functions and frames that unreserved code leaves as it is. -/
structure Stable (I : Session → Prop) : Prop where
  same : ∀ {s t : Session}, I s → t.frames = s.frames → t.functions = s.functions → I t
  register : ∀ {s : Session} {f : Function}, f.Unreserved → I s → I (s.register f)
  define : ∀ {s : Session} {name : String} (value : Value), Kind.ofWord? name = none → I s →
    I (s.define name value)
  table : ∀ {s : Session} {name : String} {c : Callable}, I s →
    s.functions.get? name = some c → c.decl.Unreserved
  enter : ∀ {s : Session} {c : Callable} (args : List Value), c.decl.Unreserved → I s →
    I { s with frames := c.enter args s.frames }
  leave : ∀ {s : Session}, I s → I { s with frames := s.frames.pop }

namespace Run

variable {α β : Type} {I : Session → Prop} {good : α → Prop} {fine : β → Prop}

def Missing (I : Session → Prop) (name : String) : Prop :=
  ∃ s, I s ∧ ∀ b, s.frames.get? name ≠ some (.builtin b)

/-- The property holds after a run, its result is good, and no function but one that can be missing
was not found. -/
structure Fine (I : Session → Prop) (good : α → Prop) (outcome : Except Stop α × Session) :
    Prop where
  session : I outcome.2
  result : ∀ a, outcome.1 = .ok a → good a
  found : ∀ name, outcome.1 = .error (.fault (.functionNotFound name)) → Missing I name

def Ensures (I : Session → Prop) (x : Run α) (good : α → Prop) : Prop :=
  ∀ s, I s → Fine I good (x s)

def Keeps (I : Session → Prop) (x : Run α) : Prop :=
  Ensures I x fun _ => True

namespace Ensures

theorem pure {a : α} (h : good a) : Ensures I (Pure.pure a : Run α) good :=
  fun _ hs => ⟨hs, fun _ ha => Except.ok.inj ha ▸ h, fun _ hstop => by cases hstop⟩

theorem fail {fault : RunFault} (h : ∀ name, fault ≠ .functionNotFound name) :
    Ensures I (Run.fail fault : Run α) good :=
  fun _ hs => ⟨hs, fun _ ha => (by cases ha), fun name hstop =>
    absurd (Stop.fault.inj (Except.error.inj hstop)) (h name)⟩

theorem crash : Ensures I (Run.crash : Run α) good :=
  fun _ hs => ⟨hs, fun _ ha => (by cases ha), fun _ hstop => by cases hstop⟩

theorem get : Ensures I Run.get I :=
  fun _ hs => ⟨hs, fun _ ha => Except.ok.inj ha ▸ hs, fun _ hstop => by cases hstop⟩

theorem bind {x : Run α} {f : α → Run β} (hx : Ensures I x good)
    (hf : ∀ a, good a → Ensures I (f a) fine) : Ensures I (x >>= f) fine := by
  intro s hs
  have h := hx s hs
  rw [bind_apply]
  revert h
  cases x s with
  | mk result t =>
    intro h
    cases result with
    | ok a => exact hf a (h.result a rfl) t h.session
    | error stop => exact ⟨h.session, fun _ ha => (by cases ha), fun name hstop =>
        h.found name (congrArg Except.error (Except.error.inj hstop))⟩

end Ensures

namespace Keeps

theorem outOfFuel : Keeps I (Run.outOfFuel : Run α) :=
  fun _ hs => ⟨hs, fun _ _ => trivial, fun _ hstop => by cases hstop⟩

theorem modify {f : Session → Session} (h : ∀ s, I s → I (f s)) : Keeps I (Run.modify f) :=
  fun s hs => ⟨h s hs, fun _ _ => trivial, fun _ hstop => by cases hstop⟩

theorem bind {x : Run α} {f : α → Run β} (hx : Keeps I x) (hf : ∀ a, Ensures I (f a) fine) :
    Ensures I (x >>= f) fine :=
  Ensures.bind hx fun a _ => hf a

theorem andThen {x : Run α} (hx : Keeps I x) (b : β) : Keeps I (do let _ ← x; return b) :=
  hx.bind fun _ => .pure trivial

end Keeps

end Run

namespace Stable

open Run (Ensures Keeps)

variable {I : Session → Prop} (hI : Stable I)
include hI

theorem say (line : String) : Keeps I (Run.say line) :=
  .modify fun _ hs => hI.same hs rfl rfl

theorem note (text : String) : Keeps I (Run.note text) :=
  .modify fun _ hs => hI.same hs rfl rfl

theorem draw (drawing : Drawing) : Keeps I (Run.modify (·.draw drawing)) :=
  .modify fun _ hs => hI.same hs rfl rfl

theorem request (r : Request) : Keeps I (Run.request r) := by
  intro s hs
  unfold Run.request
  split
  · exact ⟨hI.same hs rfl rfl, fun _ _ => trivial, fun _ hstop => by cases hstop⟩
  · exact ⟨hI.same hs rfl rfl, fun _ _ => trivial, fun _ hstop => by cases hstop⟩

theorem requestCode (r : Request) : Keeps I (Run.requestCode r) :=
  (hI.request r).bind fun _ => (hI.note _).bind fun _ => .pure trivial

theorem requestAnswer (r : Request) : Keeps I (Run.requestAnswer r) :=
  (hI.request r).bind fun _ => (hI.note _).bind fun _ => .pure trivial

theorem callBuiltin (builtin : Builtin) (args : List Value) :
    Keeps I (Run.callBuiltin builtin args) := by
  unfold Run.callBuiltin
  cases builtin with
  | print => exact (hI.say _).andThen _
  | draw widget =>
    cases widget with
    | box => exact (hI.draw _).andThen _
    | text =>
      dsimp only
      split
      · exact (hI.draw _).andThen _
      · exact .pure trivial
    | button => exact (hI.draw _).andThen _
  | ask =>
    exact (hI.say _).bind fun _ => (hI.request _).bind fun _ => (hI.note _).andThen _
  | remember =>
    have hremember (fact : String) : Keeps I (Run.modify (·.remember fact)) :=
      .modify fun _ hs => hI.same hs rfl rfl
    exact (hI.say _).bind fun _ => (hremember _).andThen _

theorem callBound (name : String) (args : List Value) : Keeps I (Run.callBound name args) := by
  refine Ensures.bind .get fun s hs => ?_
  split
  · exact hI.callBuiltin _ _
  · -- This is the only place where a function is not found.
    rename_i hunbound
    refine fun t ht => ⟨ht, fun _ _ => trivial, fun other hstop => ?_⟩
    cases hstop
    exact ⟨s, hs, hunbound⟩

omit hI in
theorem apply (op : Operator) (left right : Value) : Keeps I (Run.apply op left right) := by
  unfold Run.apply
  split
  · exact .pure trivial
  · exact .fail nofun

omit hI in
theorem lookup (name : String) : Keeps I (Run.lookup name) := by
  refine Ensures.bind .get fun s hs => ?_
  split
  · exact .pure trivial
  · exact .fail nofun

omit hI in
theorem registerEach {step : Session → Function → Session}
    (hstep : ∀ s f, f.Unreserved → I s → I (step s f)) {fs : List Function}
    (hfs : ∀ f ∈ fs, f.Unreserved) {s : Session} (hs : I s) :
    (∀ t ∈ fs.scanl step s, I t) ∧ I (fs.foldl step s) := by
  induction fs generalizing s with
  | nil => simpa using hs
  | cons f fs ih =>
    rw [List.forall_mem_cons] at hfs
    obtain ⟨hbetween, hlast⟩ := ih hfs.2 (hstep s f hfs.1 hs)
    rw [List.scanl_cons, List.forall_mem_cons]
    exact ⟨⟨hs, hbetween⟩, hlast⟩

theorem announce (s : Session) (f : Function) (hf : f.Unreserved) (hs : I s) :
    I (Run.generate.announce s f) :=
  hI.same (hI.register hf hs) rfl rfl

omit hI in
theorem compileAnswer (code : String) :
    Ensures I (Run.compileAnswer code) fun program => Stmt.Unreserved program.body := by
  unfold Run.compileAnswer
  split
  · exact .pure (unreserved_of_compile ‹_›)
  · exact .fail nofun
  · exact .crash

theorem requestFunction (name : String) (params : List String) (description : String) :
    Ensures I (Run.requestFunction name params description) fun program =>
      Stmt.Unreserved program.body :=
  (hI.say _).bind fun _ => (hI.requestCode _).bind fun code => (hI.say _).bind fun _ =>
    compileAnswer code

theorem requestOptimized (body : List Stmt) :
    Ensures I (Run.requestOptimized body) fun program => Stmt.Unreserved program.body :=
  (hI.say _).bind fun _ => (hI.requestCode _).bind fun code => (hI.say _).bind fun _ =>
    compileAnswer code

theorem requestInstructed (instruction : Option String) (body : Option (List Stmt)) :
    Ensures I (Run.requestInstructed instruction body) fun program =>
      Stmt.Unreserved program.body := by
  refine Ensures.bind .get fun _ _ => (hI.say _).bind fun _ => Ensures.bind .get fun _ _ =>
    (hI.requestCode _).bind fun code => (hI.say _).bind fun _ => ?_
  split
  · exact .pure .nil
  · exact compileAnswer code

theorem requestModule (library : String) :
    Ensures I (Run.requestModule library) fun program => Stmt.Unreserved program.body :=
  (hI.say _).bind fun _ => (hI.requestCode _).bind fun code => compileAnswer code

theorem generate (name : String) (params : List String) (description : String) :
    Keeps I (Run.generate name params description) := by
  rw [Run.generate_eq]
  exact (hI.requestFunction name params description).bind fun program hprogram =>
    Keeps.modify fun s hs => (registerEach hI.announce hprogram.functions hs).2

theorem search (query : String) : Keeps I (Run.search query) :=
  Ensures.bind .get fun _ _ => (hI.requestAnswer _).bind fun _ => hI.say _

theorem inspect (value : Value) : Keeps I (Run.inspect value) :=
  (hI.requestAnswer _).bind fun _ => hI.say _

theorem reportFailure (fault : RunFault) : Keeps I (Run.reportFailure fault) := by
  refine (hI.say _).bind fun _ => Ensures.bind .get fun s _ => ?_
  split
  · refine (hI.say _).bind fun _ s hs => ?_
    unfold Run.reportFailure.suggestFix
    split
    · exact ⟨hI.same hs rfl rfl, fun _ _ => trivial, fun _ hstop => by cases hstop⟩
    · exact ⟨hI.same hs rfl rfl, fun _ _ => trivial, fun _ hstop => by cases hstop⟩
  · exact .pure trivial

end Stable

/-- What every run of unreserved code with so much fuel keeps. -/
structure AllKeep (I : Session → Prop) (fuel : Nat) : Prop where
  exec : ∀ {stmt}, Stmt.Unreserved [stmt] → Run.Keeps I (Run.exec fuel stmt)
  execBlock : ∀ {stmts}, Stmt.Unreserved stmts → Run.Keeps I (Run.execBlock fuel stmts)
  execLoop : ∀ test {body}, Stmt.Unreserved body → Run.Keeps I (Run.execLoop fuel test body)
  runProgram : ∀ {program : Program}, Stmt.Unreserved program.body →
    Run.Keeps I (Run.runProgram fuel program)
  eval : ∀ e, Run.Keeps I (Run.eval fuel e)
  evalAll : ∀ es, Run.Keeps I (Run.evalAll fuel es)
  call : ∀ name args, Run.Keeps I (Run.call fuel name args)

namespace Stable

open Run (Ensures Keeps)

variable {I : Session → Prop} (hI : Stable I) {fuel : Nat}
include hI

theorem exec_succ (ih : AllKeep I fuel) {stmt : Stmt} (h : Stmt.Unreserved [stmt]) :
    Keeps I (Run.exec (fuel + 1) stmt) := by
  cases stmt with
  | function name params body =>
    have hf : Function.Unreserved ⟨name, params, body⟩ := h.function List.mem_cons_self
    exact (Keeps.modify fun _ => hI.register hf).andThen _
  | binding name init =>
    have hname : Kind.ofWord? name = none := h.names List.mem_cons_self name List.mem_cons_self
    have hdefine (value : Value) : Keeps I (Run.modify (·.define name value)) :=
      .modify fun _ => hI.define value hname
    cases init with
    | none => exact (hdefine _).andThen _
    | some init => exact (ih.eval init).bind fun value => (hdefine value).andThen _
  | branch test yes no =>
    refine (ih.eval test).bind fun value => ?_
    split
    · exact ih.execBlock (h.own (by cases no <;> exact List.mem_cons_self))
    · cases no with
      | none => exact .pure trivial
      | some no => exact ih.execBlock (h.own (List.mem_cons_of_mem _ List.mem_cons_self))
  | loop test body => exact ih.execLoop test (h.own List.mem_cons_self)
  | ret value =>
    cases value with
    | none => exact .pure trivial
    | some value => exact (ih.eval value).bind fun _ => .pure trivial
  | expr e => exact (ih.eval e).andThen _
  | generate name params description => exact (hI.generate name params description).andThen _
  | optimize body => exact (hI.requestOptimized body).bind fun program => ih.execBlock
  | ask instruction body =>
    exact (hI.requestInstructed instruction body).bind fun program => ih.execBlock
  | load library =>
    exact (hI.requestModule library).bind fun program hprogram =>
      (ih.runProgram hprogram).andThen _
  | search query => exact (hI.search query).andThen _
  | inspect target => exact (ih.eval target).bind fun value => (hI.inspect value).andThen _

omit hI in
theorem execBlock_succ (ih : AllKeep I fuel) {stmts : List Stmt} (h : Stmt.Unreserved stmts) :
    Keeps I (Run.execBlock (fuel + 1) stmts) := by
  cases stmts with
  | nil => exact .pure trivial
  | cons stmt later =>
    refine (ih.exec h.head).bind fun flow => ?_
    cases flow with
    | normal => exact ih.execBlock h.tail
    | ret value => exact .pure trivial

omit hI in
theorem execLoop_succ (ih : AllKeep I fuel) (test : Expr) {body : List Stmt}
    (h : Stmt.Unreserved body) : Keeps I (Run.execLoop (fuel + 1) test body) := by
  refine (ih.eval test).bind fun value => ?_
  split
  · refine (ih.execBlock h).bind fun flow => ?_
    cases flow with
    | normal => exact ih.execLoop test h
    | ret value => exact .pure trivial
  · exact .pure trivial

theorem runProgram_succ (ih : AllKeep I fuel) {program : Program}
    (h : Stmt.Unreserved program.body) : Keeps I (Run.runProgram (fuel + 1) program) := by
  have hregister : Keeps I (Run.modify fun s => program.functions.foldl Session.register s) :=
    .modify fun s hs => (registerEach (fun _ _ => hI.register) h.functions hs).2
  refine hregister.bind fun _ => ?_
  split
  · exact (ih.call "main" []).andThen _
  · exact (ih.execBlock (h.subset (List.filter_subset_self _))).andThen _

theorem eval_succ (ih : AllKeep I fuel) (e : Expr) : Keeps I (Run.eval (fuel + 1) e) := by
  cases e with
  | number value => exact .pure trivial
  | text value => exact .pure trivial
  | name n => exact lookup n
  | binary op left right =>
    exact (ih.eval left).bind fun _ => (ih.eval right).bind fun _ => apply op _ _
  | call callee args => exact (ih.evalAll args).bind fun values => ih.call callee values
  | ui widget args children =>
    exact (ih.evalAll args).bind fun values => (hI.callBound widget.name values).bind fun _ =>
      (ih.evalAll children).andThen _

omit hI in
theorem evalAll_succ (ih : AllKeep I fuel) (es : List Expr) :
    Keeps I (Run.evalAll (fuel + 1) es) := by
  cases es with
  | nil => exact .pure trivial
  | cons e es => exact (ih.eval e).bind fun _ => (ih.evalAll es).bind fun _ => .pure trivial

theorem inFrame (ih : AllKeep I fuel) {c : Callable} (hc : c.decl.Unreserved)
    (args : List Value) :
    Keeps I (Run.inFrame (c.enter args) (Run.execBlock fuel c.decl.body)) := by
  intro s hs
  have h := ih.execBlock hc.body _ (hI.enter args hc hs)
  exact ⟨hI.leave h.session, fun _ _ => trivial, h.found⟩

theorem call_succ (ih : AllKeep I fuel) (name : String) (args : List Value) :
    Keeps I (Run.call (fuel + 1) name args) := by
  refine Ensures.bind .get fun s hs => ?_
  split
  · exact hI.callBound name args
  · rename_i c hget
    have hc := hI.table hs hget
    split
    · exact .fail nofun
    · refine Keeps.bind (?_ : Keeps I _) fun flow => ?_
      · -- Both sorts of entry run their body in the frames of `Callable.enter`.
        cases c <;> exact hI.inFrame ih hc args
      · cases flow <;> exact .pure trivial

theorem all (fuel : Nat) : AllKeep I fuel := by
  induction fuel with
  | zero =>
    exact ⟨fun _ => .outOfFuel, fun _ => .outOfFuel, fun _ _ _ => .outOfFuel, fun _ => .outOfFuel,
      fun _ => .outOfFuel, fun _ => .outOfFuel, fun _ _ => .outOfFuel⟩
  | succ fuel ih =>
    exact ⟨hI.exec_succ ih, execBlock_succ ih, execLoop_succ ih, hI.runProgram_succ ih,
      hI.eval_succ ih, evalAll_succ ih, hI.call_succ ih⟩

theorem evaluate (fuel : Nat) {program : Program} (h : Stmt.Unreserved program.body) :
    Keeps I (Run.evaluate fuel program) := by
  intro s hs
  have hrun := (hI.all fuel).runProgram h s hs
  unfold Run.evaluate
  split
  · rename_i fault t heq
    rw [heq] at hrun
    exact ⟨(hI.reportFailure fault t hrun.session).session, fun _ _ => trivial, hrun.found⟩
  · exact hrun

theorem runSource (fuel : Nat) (source : String) {s : Session} (hs : I s) :
    I (s.runSource fuel source).2 ∧ ∀ name,
      (s.runSource fuel source).1 = some (.error (.fault (.run (.functionNotFound name)))) →
        Run.Missing I name := by
  unfold Session.runSource
  split
  · rename_i halt _
    cases halt <;> exact ⟨hs, fun _ hstop => by cases hstop⟩
  · rename_i program hcompile
    have hfine := hI.evaluate fuel (unreserved_of_compile hcompile) s hs
    split
    · rename_i t heq
      rw [heq] at hfine
      exact ⟨hfine.session, fun _ hstop => by cases hstop⟩
    · rename_i fault t heq
      rw [heq] at hfine
      refine ⟨hfine.session, fun name hstop => hfine.found name ?_⟩
      cases hstop
      rfl
    · rename_i t heq
      rw [heq] at hfine
      exact ⟨hfine.session, fun _ hstop => by cases hstop⟩
    · rename_i t heq
      rw [heq] at hfine
      exact ⟨hfine.session, fun _ hstop => by cases hstop⟩

omit hI in
theorem of_ensures {α : Type} {x : Run α} {good : α → Prop} (hx : Ensures I x good)
    {s t : Session} (hs : I s) {a : α} (h : x s = (.ok a, t)) : good a ∧ I t := by
  have hfine := hx s hs
  rw [h] at hfine
  exact ⟨hfine.result a rfl, hfine.session⟩

omit hI in
theorem of_keeps {α : Type} {x : Run α} (hx : Keeps I x) {s t : Session} (hs : I s) {a : α}
    (h : x s = (.ok a, t)) : I t :=
  (of_ensures hx hs h).2

theorem starts_exec {stmt : Stmt} {inner : Task} {s t : Session} (hs : I s)
    (hstmt : Stmt.Unreserved [stmt]) (h : (inner, t) ∈ (Task.exec stmt).starts fuel s) :
    inner.Unreserved ∧ I t := by
  have hall := hI.all fuel
  match stmt with
  | .binding _ (some e) | .ret (some e) | .expr e | .inspect e =>
    cases List.mem_singleton.mp h
    exact ⟨trivial, hs⟩
  | .branch test yes no =>
    rcases List.mem_cons.mp h with heq | h
    · cases heq
      exact ⟨trivial, hs⟩
    · obtain ⟨value, u, heval, h⟩ := Run.exists_of_mem_followed h
      have hu := of_keeps (hall.eval test) hs heval
      split at h
      · cases List.mem_singleton.mp h
        exact ⟨hstmt.own (by cases no <;> exact List.mem_cons_self), hu⟩
      · cases no with
        | none => cases h
        | some no =>
          cases List.mem_singleton.mp h
          exact ⟨hstmt.own (List.mem_cons_of_mem _ List.mem_cons_self), hu⟩
  | .loop test body =>
    cases List.mem_singleton.mp h
    exact ⟨hstmt.own List.mem_cons_self, hs⟩
  | .optimize body =>
    obtain ⟨program, u, hrequest, h⟩ := Run.exists_of_mem_followed h
    cases List.mem_singleton.mp h
    exact of_ensures (hI.requestOptimized body) hs hrequest
  | .ask instruction body =>
    obtain ⟨program, u, hrequest, h⟩ := Run.exists_of_mem_followed h
    cases List.mem_singleton.mp h
    exact of_ensures (hI.requestInstructed instruction body) hs hrequest
  | .load library =>
    obtain ⟨program, u, hrequest, h⟩ := Run.exists_of_mem_followed h
    cases List.mem_singleton.mp h
    exact of_ensures (hI.requestModule library) hs hrequest
  | .function .. | .binding _ none | .ret none | .generate .. | .search _ => cases h

theorem starts_eval {e : Expr} {inner : Task} {s t : Session} (hs : I s)
    (h : (inner, t) ∈ (Task.eval e).starts fuel s) : inner.Unreserved ∧ I t := by
  have hall := hI.all fuel
  match e with
  | .binary op left right =>
    rcases List.mem_cons.mp h with heq | h
    · cases heq
      exact ⟨trivial, hs⟩
    · obtain ⟨value, u, heval, h⟩ := Run.exists_of_mem_followed h
      cases List.mem_singleton.mp h
      exact ⟨trivial, of_keeps (hall.eval left) hs heval⟩
  | .call callee args =>
    rcases List.mem_cons.mp h with heq | h
    · cases heq
      exact ⟨trivial, hs⟩
    · obtain ⟨values, u, heval, h⟩ := Run.exists_of_mem_followed h
      cases List.mem_singleton.mp h
      exact ⟨trivial, of_keeps (hall.evalAll args) hs heval⟩
  | .ui widget args children =>
    rcases List.mem_cons.mp h with heq | h
    · cases heq
      exact ⟨trivial, hs⟩
    · obtain ⟨values, u, heval, h⟩ := Run.exists_of_mem_followed h
      obtain ⟨value, v, hbound, h⟩ := Run.exists_of_mem_followed h
      have hu := of_keeps (hall.evalAll args) hs heval
      cases List.mem_singleton.mp h
      exact ⟨trivial, of_keeps (hI.callBound widget.name values) hu hbound⟩
  | .name _ | .number _ | .text _ => cases h

theorem starts {task inner : Task} {s t : Session} (hs : I s) (htask : task.Unreserved)
    (h : (inner, t) ∈ task.starts fuel s) : inner.Unreserved ∧ I t := by
  have hall := hI.all fuel
  match task with
  | .exec stmt => exact hI.starts_exec hs htask h
  | .eval e => exact hI.starts_eval hs h
  | .block [] | .evalAll [] => cases h
  | .block (stmt :: later) =>
    rcases List.mem_cons.mp h with heq | h
    · cases heq
      exact ⟨Stmt.Unreserved.head htask, hs⟩
    · obtain ⟨flow, u, hexec, h⟩ := Run.exists_of_mem_followed h
      split at h
      · cases List.mem_singleton.mp h
        have hhead := Stmt.Unreserved.head htask
        exact ⟨Stmt.Unreserved.tail htask, of_keeps (hall.exec hhead) hs hexec⟩
      · cases h
  | .loop test body =>
    rcases List.mem_cons.mp h with heq | h
    · cases heq
      exact ⟨trivial, hs⟩
    · obtain ⟨value, u, heval, h⟩ := Run.exists_of_mem_followed h
      have hu := of_keeps (hall.eval test) hs heval
      split at h
      · rcases List.mem_cons.mp h with heq | h
        · cases heq
          exact ⟨htask, hu⟩
        · obtain ⟨flow, v, hbody, h⟩ := Run.exists_of_mem_followed h
          split at h
          · cases List.mem_singleton.mp h
            exact ⟨htask, of_keeps (hall.execBlock htask) hu hbody⟩
          · cases h
      · cases h
  | .run program =>
    have hregistered := (registerEach (fun _ _ => hI.register) htask.functions hs).2
    unfold Task.starts at h
    dsimp only at h
    split at h
    · cases List.mem_singleton.mp h
      exact ⟨trivial, hregistered⟩
    · cases List.mem_singleton.mp h
      exact ⟨Stmt.Unreserved.subset htask (List.filter_subset_self _), hregistered⟩
  | .evalAll (e :: es) =>
    rcases List.mem_cons.mp h with heq | h
    · cases heq
      exact ⟨trivial, hs⟩
    · obtain ⟨value, u, heval, h⟩ := Run.exists_of_mem_followed h
      cases List.mem_singleton.mp h
      exact ⟨trivial, of_keeps (hall.eval e) hs heval⟩
  | .call name args =>
    simp only [Task.starts] at h
    split at h
    · rename_i c hget
      have hc := hI.table hs hget
      split at h
      · cases h
      · cases List.mem_singleton.mp h
        exact ⟨hc.body, hI.enter args hc hs⟩
    · cases h

theorem ends (fuel : Nat) {task : Task} {s : Session} (hs : I s) (htask : task.Unreserved) :
    I (task.ends fuel s).2 ∧ ∀ name,
      (task.ends fuel s).1 = some (.fault (.functionNotFound name)) → Run.Missing I name := by
  have hall := hI.all fuel
  have hstopped {α : Type} {x : Run α} (hx : Keeps I x) :
      I (Task.ends.stopped (x s)).2 ∧ ∀ name,
        (Task.ends.stopped (x s)).1 = some (.fault (.functionNotFound name)) →
          Run.Missing I name := by
    obtain ⟨hsession, -, hfound⟩ := hx s hs
    revert hsession hfound
    cases x s with
    | mk result t =>
      intro hsession hfound
      cases result with
      | ok a => exact ⟨hsession, fun _ hstop => by cases hstop⟩
      | error stop =>
        exact ⟨hsession, fun name hstop =>
          hfound name (congrArg Except.error (Option.some.inj hstop))⟩
  cases task with
  | exec stmt => exact hstopped (hall.exec htask)
  | block stmts => exact hstopped (hall.execBlock htask)
  | loop test body => exact hstopped (hall.execLoop test htask)
  | run program => exact hstopped (hall.runProgram htask)
  | eval e => exact hstopped (hall.eval e)
  | evalAll es => exact hstopped (hall.evalAll es)
  | call name args => exact hstopped (hall.call name args)

theorem stages {task : Task} {s : Session} (hs : I s) (htask : task.Unreserved) :
    ∀ t ∈ task.stages fuel s, I t := by
  intro t ht
  unfold Task.stages at ht
  split at ht
  · exact (registerEach (fun _ _ => hI.register) htask.functions hs).1 t ht
  · obtain ⟨program, u, hrequest, ht⟩ := Run.exists_of_mem_followed ht
    obtain ⟨hprogram, hu⟩ := of_ensures (hI.requestFunction _ _ _) hs hrequest
    exact (registerEach hI.announce hprogram.functions hu).1 t ht
  · cases ht

theorem visits {task : Task} {s : Session} (hs : I s) (htask : task.Unreserved) :
    ∀ visit ∈ task.visits fuel s, (∀ t ∈ visit.sessions, I t) ∧
      ∀ name, visit.stop? = some (.fault (.functionNotFound name)) → Run.Missing I name := by
  intro visit hvisit
  obtain ⟨hunreserved, hvisited⟩ := Task.forall_visits (P := fun task s => task.Unreserved ∧ I s)
    (fun _ _ _ h _ _ hstart => hI.starts h.2 h.1 hstart) ⟨htask, hs⟩ visit hvisit
  obtain ⟨hlast, hfound⟩ := hI.ends visit.fuel hvisited hunreserved
  refine ⟨fun t ht => ?_, hfound⟩
  rcases List.mem_cons.mp ht with rfl | ht
  · exact hvisited
  · rcases List.mem_append.mp ht with ht | ht
    · exact hI.stages hvisited hunreserved t ht
    · cases List.mem_singleton.mp ht
      exact hlast

end Stable

end Splice
