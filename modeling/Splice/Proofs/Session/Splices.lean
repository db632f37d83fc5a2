import Mathlib
import Splice.Proofs.Session.Alike
import Splice.Proofs.Session.Exchanges

/-! Code from the collaborator comes in whole or not at all.  A statement that asks for code
compiles the answer before anything of it takes effect, so a request that is refused and an answer
that does not compile leave the program as it was: not even the functions before the fault are
declared. -/
namespace Splice

def Stmt.splices : Stmt → Bool
  | .generate .. | .optimize _ | .ask .. | .load _ => true
  | _ => false

def Stmt.allowsBlank : Stmt → Bool
  | .ask .. => true
  | _ => false

def Table.declare (table : Table Callable) (fs : List Function) : Table Callable :=
  fs.foldl (fun table f => table.put f.name (.function f)) table

namespace Session

structure SameData (s t : Session) : Prop where
  frames : t.frames = s.frames
  facts : t.facts = s.facts
  drawings : t.drawings = s.drawings

/-- The same program: variables, facts, drawings and functions. -/
structure Intact (s t : Session) : Prop extends SameData s t where
  functions : t.functions = s.functions

theorem SameData.trans {s t u : Session} (hst : s.SameData t) (htu : t.SameData u) :
    s.SameData u :=
  ⟨htu.frames.trans hst.frames, htu.facts.trans hst.facts, htu.drawings.trans hst.drawings⟩

theorem Intact.trans {s t u : Session} (hst : s.Intact t) (htu : t.Intact u) : s.Intact u :=
  ⟨hst.toSameData.trans htu.toSameData, htu.functions.trans hst.functions⟩

theorem Intact.refl (s : Session) : s.Intact s :=
  ⟨⟨rfl, rfl, rfl⟩, rfl⟩

theorem Intact.say (s : Session) (line : String) : s.Intact (s.say line) :=
  ⟨⟨rfl, rfl, s.drawings_say line⟩, rfl⟩

theorem Intact.note (s : Session) (text : String) : s.Intact (s.note text) :=
  ⟨⟨rfl, rfl, s.drawings_note text⟩, rfl⟩

/-- Functions that are announced take their places in the table one after another, and nothing else
of the program changes. -/
theorem announceAll (fs : List Function) (s : Session) :
    s.SameData (fs.foldl Run.generate.announce s) ∧
      (fs.foldl Run.generate.announce s).functions = s.functions.declare fs := by
  induction fs generalizing s with
  | nil => exact ⟨⟨rfl, rfl, rfl⟩, rfl⟩
  | cons f fs ih =>
    obtain ⟨hdata, hfunctions⟩ := ih (Run.generate.announce s f)
    have hfirst : s.SameData (Run.generate.announce s f) :=
      ⟨rfl, rfl, by simp [Run.generate.announce]⟩
    exact ⟨hfirst.trans hdata, hfunctions⟩

end Session

namespace Run

open Session

variable {s : Session} {r : Request} {allowsBlank : Bool}

def refusal : Halt CompileFault → Stop
  | .fault fault => .fault (.compile fault)
  | .crash => .crash

def accepted (allowsBlank : Bool) (code : String) : Except Stop Program :=
  if allowsBlank && (Text.dropBlanks code.toList).isEmpty then .ok {}
  else (compile code).mapError refusal

def received (allowsBlank : Bool) : Except CollaboratorFault Completion → Except Stop Program
  | .error fault => .error (.fault (.collaborator fault))
  | .ok completion => accepted allowsBlank (unfence completion.text)

/-- A run that asks for code comes to this, and the program is intact whatever it comes to. -/
structure Receives (x : Run Program) (s : Session) (outcome : Except Stop Program) : Prop where
  outcome_eq : (x s).1 = outcome
  intact : s.Intact (x s).2

theorem Receives.say_bind {f : Unit → Run Program} {line : String}
    {outcome : Except Stop Program} (h : Receives (f ()) (s.say line) outcome) :
    Receives (Run.say line >>= f) s outcome :=
  ⟨h.outcome_eq, (Intact.say s line).trans h.intact⟩

theorem Receives.get_bind {f : Session → Run Program} {outcome : Except Stop Program}
    (h : Receives (f s) s outcome) : Receives (Run.get >>= f) s outcome :=
  ⟨h.outcome_eq, h.intact⟩

theorem Receives.compileAnswer (code : String) :
    Receives (compileAnswer code) s (accepted false code) := by
  unfold Run.compileAnswer accepted
  cases compile code with
  | ok program => exact ⟨rfl, .refl s⟩
  | error halt => cases halt <;> exact ⟨rfl, .refl s⟩

theorem Receives.requestCode_bind {use : String → Run Program}
    (huse : ∀ code t, Receives (use code) t (accepted allowsBlank code)) :
    Receives (requestCode r >>= use) s (received allowsBlank (s.exchange r).answer) := by
  have hasked : s.Intact { s with backend := (s.backend.answer r).2 } := ⟨⟨rfl, rfl, rfl⟩, rfl⟩
  have hrequest := request_eq r s
  cases hanswer : (s.exchange r).answer with
  | error fault =>
    have hrun : (requestCode r >>= use) s = (.error (.fault (.collaborator fault)),
        { s with backend := (s.backend.answer r).2 }) := by
      unfold requestCode
      rw [bind_apply, bind_apply, hrequest, hanswer]
      rfl
    constructor
    · rw [hrun, received]
    · rw [hrun]
      exact hasked
  | ok completion =>
    obtain ⟨text, hrun⟩ : ∃ text, (requestCode r >>= use) s = use (unfence completion.text)
        ({ s with backend := (s.backend.answer r).2 }.note text) := by
      unfold requestCode
      rw [bind_apply, bind_apply, hrequest, hanswer]
      exact ⟨_, rfl⟩
    have hused := huse (unfence completion.text)
      ({ s with backend := (s.backend.answer r).2 }.note text)
    constructor
    · rw [hrun, hused.outcome_eq, received]
    · rw [hrun]
      exact (hasked.trans (.note _ text)).trans hused.intact

theorem receives_function (name : String) (params : List String) (description : String) :
    Receives (requestFunction name params description) s
      (received false (s.exchange (.generateFunction name params description)).answer) :=
  .say_bind (.requestCode_bind fun code _ => .say_bind (.compileAnswer code))

theorem receives_optimized (body : List Stmt) :
    Receives (requestOptimized body) s
      (received false (s.exchange (.optimizeBlock (Stmt.printAll body))).answer) :=
  .say_bind (.requestCode_bind fun code _ => .say_bind (.compileAnswer code))

theorem receives_module (library : String) :
    Receives (requestModule library) s
      (received false (s.exchange (.generateModule library)).answer) :=
  .say_bind (.requestCode_bind fun code _ => .compileAnswer code)

theorem receives_instructed (instruction : Option String) (body : Option (List Stmt)) :
    Receives (requestInstructed instruction body) s
      (received true (s.exchange (.process
        (withFacts (instruction.getD s.config.defaultInstruction) s.facts)
        ((body.map Stmt.printAll).getD ""))).answer) := by
  refine .get_bind (.say_bind (.get_bind (.requestCode_bind fun code t => .say_bind ?_)))
  have haccepted : accepted true code =
      if (Text.dropBlanks code.toList).isEmpty then .ok {} else accepted false code := rfl
  rw [haccepted]
  split
  · exact ⟨rfl, .refl _⟩
  · exact .compileAnswer code

/-- A statement that brings in code receives it first and then goes on with it. -/
theorem exists_receives {stmt : Stmt} (hsplices : stmt.splices = true) (fuel : Nat) (s : Session) :
    ∃ exchange x use, (Task.exec stmt).opening s = [exchange] ∧
      exec (fuel + 1) stmt = x >>= use ∧
      Receives x s (received stmt.allowsBlank exchange.answer) := by
  cases stmt with
  | generate name params description =>
    refine ⟨_, _, fun program => do
      modify fun s => program.functions.foldl generate.announce s
      return .normal, rfl, ?_, receives_function name params description⟩
    simp only [exec, generate_eq, bind_assoc]
  | optimize body => exact ⟨_, _, _, rfl, rfl, receives_optimized body⟩
  | ask instruction body => exact ⟨_, _, _, rfl, rfl, receives_instructed instruction body⟩
  | load library => exact ⟨_, _, _, rfl, rfl, receives_module library⟩
  | _ => cases hsplices

/-- Where no code is received, the statement fails with the session that the request left. -/
theorem Receives.exists_of_error {x : Run Program} {use : Program → Run Flow} {stop : Stop}
    (hx : Receives x s (.error stop)) : ∃ t, (x >>= use) s = (.error stop, t) ∧ s.Intact t := by
  have hfails : x s = (.error stop, (x s).2) := Prod.ext hx.outcome_eq rfl
  refine ⟨(x s).2, ?_, hx.intact⟩
  rw [bind_apply, hfails]

theorem received_of_compile_error {completion : Completion} {halt : Halt CompileFault}
    (hcompile : compile (unfence completion.text) = .error halt)
    (hblank : allowsBlank = true →
      (Text.dropBlanks (unfence completion.text).toList).isEmpty = false) :
    received allowsBlank (.ok completion) = .error (refusal halt) := by
  rw [received, accepted, if_neg, hcompile]
  · rfl
  · rw [Bool.and_eq_true]
    rintro ⟨hallows, hempty⟩
    rw [hblank hallows] at hempty
    cases hempty

theorem exec_generate_of_compile {name : String} {params : List String} {description : String}
    {completion : Completion} {program : Program} (fuel : Nat)
    (hanswer : (s.exchange (.generateFunction name params description)).answer = .ok completion)
    (hcompile : compile (unfence completion.text) = .ok program) :
    ∃ t, exec (fuel + 1) (.generate name params description) s = (.ok .normal, t) ∧
      s.SameData t ∧ t.functions = s.functions.declare program.functions := by
  have hreceives := receives_function (s := s) name params description
  have hreceived : requestFunction name params description s =
      (.ok program, (requestFunction name params description s).2) := by
    refine Prod.ext (hreceives.outcome_eq.trans ?_) rfl
    rw [hanswer]
    simp only [received, accepted, hcompile, Bool.false_and]
    rfl
  obtain ⟨hdata, hfunctions⟩ := announceAll program.functions
    (requestFunction name params description s).2
  refine ⟨_, ?_, hreceives.intact.toSameData.trans hdata, ?_⟩
  · rw [exec, generate_eq, bind_assoc, bind_apply, hreceived]
    rfl
  · rw [hfunctions, hreceives.intact.functions]

/-- A statement that brings in code makes one request for it.  If the request is refused, or the
answer does not compile, then the statement stops for that reason and leaves the program intact.  A
function that is asked for succeeds if the answer compiles, and then variables, facts and drawings
are as they were, and the functions of the answer have been put into the table in order. -/
theorem failed_splice_intact {stmt : Stmt} (hsplices : stmt.splices = true) (fuel : Nat)
    (s : Session) :
    ∃ exchange, (Task.exec stmt).opening s = [exchange] ∧
      (∀ fault, exchange.answer = .error fault →
        ∃ t, exec (fuel + 1) stmt s = (.error (.fault (.collaborator fault)), t) ∧ s.Intact t) ∧
      (∀ completion halt, exchange.answer = .ok completion →
        compile (unfence completion.text) = .error halt →
        (stmt.allowsBlank = true →
          (Text.dropBlanks (unfence completion.text).toList).isEmpty = false) →
        ∃ t, exec (fuel + 1) stmt s = (.error (refusal halt), t) ∧ s.Intact t) ∧
      ∀ name params description, stmt = .generate name params description →
        (∀ flow t, exec (fuel + 1) stmt s = (.ok flow, t) →
          ∃ completion program, exchange.answer = .ok completion ∧
            compile (unfence completion.text) = .ok program ∧ s.SameData t ∧
            t.functions = s.functions.declare program.functions) ∧
        ∀ completion program, exchange.answer = .ok completion →
          compile (unfence completion.text) = .ok program →
            ∃ t, exec (fuel + 1) stmt s = (.ok .normal, t) := by
  obtain ⟨exchange, x, use, hopening, hexec, hx⟩ := exists_receives hsplices fuel s
  have hrefused (fault : CollaboratorFault) (hanswer : exchange.answer = .error fault) :
      ∃ t, exec (fuel + 1) stmt s = (.error (.fault (.collaborator fault)), t) ∧ s.Intact t := by
    rw [hanswer, received] at hx
    rw [hexec]
    exact hx.exists_of_error
  have hmalformed (completion : Completion) (halt : Halt CompileFault)
      (hanswer : exchange.answer = .ok completion)
      (hcompile : compile (unfence completion.text) = .error halt)
      (hblank : stmt.allowsBlank = true →
        (Text.dropBlanks (unfence completion.text).toList).isEmpty = false) :
      ∃ t, exec (fuel + 1) stmt s = (.error (refusal halt), t) ∧ s.Intact t := by
    rw [hanswer, received_of_compile_error hcompile hblank] at hx
    rw [hexec]
    exact hx.exists_of_error
  refine ⟨exchange, hopening, hrefused, hmalformed, ?_⟩
  rintro name params description rfl
  obtain rfl := List.singleton_inj.mp hopening
  refine ⟨fun flow t hrun => ?_, fun completion program hanswer hcompile => ?_⟩
  · cases hanswer : (s.exchange (.generateFunction name params description)).answer with
    | error fault =>
      obtain ⟨_, hfails, -⟩ := hrefused fault hanswer
      rw [hfails] at hrun
      cases hrun
    | ok completion =>
      cases hcompile : compile (unfence completion.text) with
      | error halt =>
        obtain ⟨_, hfails, -⟩ := hmalformed completion halt hanswer hcompile (by rintro ⟨⟩)
        rw [hfails] at hrun
        cases hrun
      | ok program =>
        obtain ⟨_, hsucceeds, hdata, hfunctions⟩ := exec_generate_of_compile fuel hanswer hcompile
        rw [hsucceeds] at hrun
        cases hrun
        exact ⟨completion, program, rfl, hcompile, hdata, hfunctions⟩
  · obtain ⟨t, hsucceeds, -⟩ := exec_generate_of_compile fuel hanswer hcompile
    exact ⟨t, hsucceeds⟩

/-- A module with a function, a statement and then a fault: the function is not there afterwards. -/
theorem failed_splice_intact_late_fault :
    let answer : Completion := ⟨["fn f():\n return x\nf()", "\nvar = y\n"]⟩
    let s : Session := { backend := .ofResponses [answer], facts := #["old"] }
    let fault : ParseFault := ⟨.expected .variableName, ⟨4, 5, ⟨26, 27⟩⟩, .assign⟩
    (Stmt.load "geometry").splices = true ∧ ∃ t,
      exec 30 (.load "geometry") s = (.error (.fault (.compile (.parse fault))), t) ∧
        s.Intact t := by
  intro answer s fault
  refine ⟨rfl, ?_⟩
  obtain ⟨exchange, hopening, -, hmalformed, -⟩ :=
    @failed_splice_intact (.load "geometry") rfl 29 s
  obtain rfl := List.singleton_inj.mp hopening
  have hcode : unfence answer.text = "fn f():\n return x\nf()\nvar = y\n" := by decide +kernel
  have hcompile : compile "fn f():\n return x\nf()\nvar = y\n" =
      .error (.fault (.parse fault)) := by
    cbv
  exact hmalformed answer (.fault (.parse fault)) rfl (hcode ▸ hcompile) (by rintro ⟨⟩)

end Run

end Splice
