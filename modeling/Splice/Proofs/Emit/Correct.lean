import Splice.Emit.Target
import Splice.Proofs.Emit.Related

/-! Emitted code computes what a run computes.  Where a run of a program over integers ends well,
stays in the range of the machine's words, and has numbers as the results of its calls, the code of
each part of the program does on the machine what the run of that part does in the session.  The
main statement is this for the call of a function. -/
namespace Splice

open Decimal (Denotes InRange)

/-- All numbers of a run are in the range, and the named functions give numbers. -/
structure Task.Bounded (names : List String) (fuel : Nat) (task : Task) (s : Session) : Prop where
  numbers : ∀ x ∈ task.numbers fuel s, InRange x
  results : ∀ result ∈ task.results fuel s, result.1 ∈ names → result.2.type = .number

theorem Task.Bounded.inner {names : List String} {fuel : Nat} {task inner : Task} {s t : Session}
    (h : task.Bounded names (fuel + 1) s) (hinner : (inner, t) ∈ task.starts fuel s) :
    inner.Bounded names fuel t where
  numbers x hx := h.numbers x (collect_subset_of_mem_starts hinner hx)
  results result hresult := h.results result (collect_subset_of_mem_starts hinner hresult)

namespace Wat

def logged (words : List I32) : List HostCall :=
  words.map fun w => ⟨"log", [w]⟩

/-- Code that leaves words on the stack, the last one first, and logs others. -/
def Pushes (machine : Machine) (locals : List I32) (code : List Instr)
    (pushed words : List I32) : Prop :=
  ∀ stack calls,
    machine.Leaves locals code stack calls (.next (pushed ++ stack)) (calls ++ logged words)

def Runs (machine : Machine) (locals : List I32) (code : List Instr) (exit : Exit)
    (words : List I32) : Prop :=
  ∀ calls, machine.Leaves locals code [] calls exit (calls ++ logged words)

section Code

variable {machine : Machine} {locals : List I32} {code code' : List Instr}
  {pushed pushed' words words' : List I32} {v w : I32} {exit : Exit}

theorem append_logged (calls : List HostCall) (words words' : List I32) :
    calls ++ logged words ++ logged words' = calls ++ logged (words ++ words') := by
  rw [logged, logged, logged, List.map_append, List.append_assoc]

theorem append_logged_nil (calls : List HostCall) : calls ++ logged [] = calls :=
  List.append_nil calls

theorem Pushes.nil : Pushes machine locals [] [] [] := by
  intro stack calls
  rw [append_logged_nil]
  exact .nil

theorem Pushes.append (h : Pushes machine locals code pushed words)
    (h' : Pushes machine locals code' pushed' words') :
    Pushes machine locals (code ++ code') (pushed' ++ pushed) (words ++ words') := by
  intro stack calls
  rw [← append_logged, List.append_assoc]
  exact (h stack calls).append (h' _ _)

theorem Pushes.const (n : Int) : Pushes machine locals [.const n] [BitVec.ofInt 32 n] [] := by
  intro stack calls
  rw [append_logged_nil]
  exact .const n

theorem Pushes.localGet {i : Nat} (h : locals[i]? = some w) :
    Pushes machine locals [.localGet i] [w] [] := by
  intro stack calls
  rw [append_logged_nil]
  exact .localGet h

theorem Pushes.arith {op : Operator} {c : I32} (hleft : Pushes machine locals code [v] words)
    (hright : Pushes machine locals code' [w] words') (h : Wat.arith op v w = some c) :
    Pushes machine locals (code ++ code' ++ [.arith op]) [c] (words ++ words') :=
  fun stack calls => (hleft.append hright stack calls).append (.arith h)

theorem Pushes.drop (h : Pushes machine locals code [w] words) :
    Pushes machine locals (code ++ [.drop]) [] words :=
  fun stack calls => (h stack calls).append .drop

theorem Pushes.log (h : Pushes machine locals code [w] words) :
    Pushes machine locals (code ++ [.call "log"]) [] (words ++ [w]) := by
  intro stack calls
  rw [← append_logged]
  exact (h stack calls).append .log

theorem Pushes.runs (h : Pushes machine locals code [] words) :
    Runs machine locals code (.next []) words :=
  fun calls => h [] calls

theorem Pushes.ret (h : Pushes machine locals code [w] words) :
    Runs machine locals (code ++ [.ret]) (.ret w) words :=
  fun calls => (h [] calls).append .ret

theorem Runs.append (h : Runs machine locals code (.next []) words)
    (h' : Runs machine locals code' exit words') :
    Runs machine locals (code ++ code') exit (words ++ words') := by
  intro calls
  rw [← append_logged]
  exact (h calls).append (h' _)

theorem Runs.append_ret (h : Runs machine locals code (.ret w) words) (code' : List Instr) :
    Runs machine locals (code ++ code') (.ret w) words :=
  fun calls => (h calls).append_exit (fun _ heq => by cases heq) code'

theorem Pushes.branch_yes {yes : List Instr} (htest : Pushes machine locals code [w] words)
    (hw : w ≠ 0) (h : Runs machine locals yes exit words')
    (hleave : ∀ calls, exit.leave [] calls = .ok (exit, calls)) (no : Option (List Instr)) :
    Runs machine locals (code ++ [.branch yes no]) exit (words ++ words') := by
  intro calls
  rw [← append_logged]
  refine (htest [] calls).append (.branch ?_ (hleave _))
  rw [if_neg hw]
  exact h _

theorem Pushes.branch_no (htest : Pushes machine locals code [0] words)
    (no : Option (List Instr)) (h : Runs machine locals (no.getD []) exit words')
    (hleave : ∀ calls, exit.leave [] calls = .ok (exit, calls)) (yes : List Instr) :
    Runs machine locals (code ++ [.branch yes no]) exit (words ++ words') := by
  intro calls
  rw [← append_logged]
  exact (htest [] calls).append (.branch (h _) (hleave _))

theorem runs_round_last (htest : Pushes machine locals code [0] words) (body : List Instr) :
    Runs machine locals (round code body) (.jump "break") words := by
  intro calls
  have hout : machine.Leaves locals (code ++ [.eqz, .jumpIf "break"]) [] calls (.jump "break")
      (calls ++ logged words) := (htest [] calls).append .eqz_jumpIf_zero
  have hexit : ∀ stack, Exit.jump "break" ≠ .next stack := fun _ heq => by cases heq
  exact (hout.append_exit hexit body).append_exit hexit [.jump "continue"]

theorem runs_test (htest : Pushes machine locals code [w] words) (hw : w ≠ 0) :
    Runs machine locals (code ++ [.eqz, .jumpIf "break"]) (.next []) words :=
  fun calls => (htest [] calls).append (.eqz_jumpIf hw)

theorem runs_round_next (htest : Pushes machine locals code [w] words) (hw : w ≠ 0)
    (hbody : Runs machine locals code' (.next []) words') :
    Runs machine locals (round code code') (.jump "continue") (words ++ words') :=
  fun calls => ((runs_test htest hw).append hbody calls).append .jump

theorem runs_round_ret (htest : Pushes machine locals code [w] words) (hw : w ≠ 0)
    (hbody : Runs machine locals code' (.ret v) words') :
    Runs machine locals (round code code') (.ret v) (words ++ words') :=
  ((runs_test htest hw).append hbody).append_ret _

theorem Runs.loop {body : List Instr} (h : Runs machine locals body exit words)
    (hexit : exit ≠ .jump "continue") (hleave : ∀ calls, exit.leave [] calls = .ok (exit, calls)) :
    Runs machine locals [.loop "continue" body] exit words :=
  fun calls => (h calls).loop hexit (hleave _)

theorem Runs.loop_next {body : List Instr}
    (hround : Runs machine locals body (.jump "continue") words)
    (h : Runs machine locals [.loop "continue" body] exit words') :
    Runs machine locals [.loop "continue" body] exit (words ++ words') := by
  intro calls
  rw [← append_logged]
  exact (hround calls).loop_jump (h _)

end Code

/-- How a statement ends, and how its code is left. -/
inductive Matches : Flow → Exit → Prop where
  | normal : Matches .normal (.next [])
  | ret {x : Float} {w : I32} (h : Denotes x w) : Matches (.ret (.number x)) (.ret w)

theorem Matches.leave {flow : Flow} {exit : Exit} (h : Matches flow exit) (calls : List HostCall) :
    exit.leave [] calls = .ok (exit, calls) := by
  cases h <;> rfl

def Exit.ofLoop : Exit → Exit
  | .next _ => .jump "break"
  | exit => exit

/-- The value of an expression is a number, and its code pushes the word of it. -/
def Computes (machine : Machine) (locals : List I32) (code : List Instr) (s t : Session)
    (value : Value) : Prop :=
  ∃ x w words, value = .number x ∧ Denotes x w ∧ Effect s t words ∧
    Pushes machine locals code [w] words

def Performs (program : Program) (machine : Machine) (params : List String) (locals : List I32)
    (code : List Instr) (s t : Session) (flow : Flow) : Prop :=
  ∃ exit words, Matches flow exit ∧ Effect s t words ∧ Inside program params locals t ∧
    Runs machine locals code exit words

/-- What a run with this fuel does in the session, its code does on the machine. -/
structure Simulates (program : Program) (machine : Machine) (fuel : Nat) : Prop where
  eval : ∀ {params locals e code s t value}, Inside program params locals s →
    ExprCode program.functions params e code →
    (Task.eval e).Bounded (declared program) fuel s → Run.eval fuel e s = (.ok value, t) →
    Computes machine locals code s t value
  evalAll : ∀ {params locals es code s t values}, Inside program params locals s →
    ArgsCode program.functions params es code →
    (Task.evalAll es).Bounded (declared program) fuel s →
    Run.evalAll fuel es s = (.ok values, t) →
    ∃ xs ws words, values = xs.map .number ∧ List.Forall₂ Denotes xs ws ∧
      ws.length = es.length ∧ Effect s t words ∧ Pushes machine locals code ws.reverse words
  test : ∀ {params locals e code s t value}, Inside program params locals s →
    TestCode program.functions params e code →
    (Task.eval e).Bounded (declared program) fuel s → Run.eval fuel e s = (.ok value, t) →
    ∃ w words, (value.holds = true ↔ w ≠ 0) ∧ Effect s t words ∧
      Pushes machine locals code [w] words
  print : ∀ {params locals e code s t value}, Inside program params locals s →
    ExprCode program.functions params e code →
    (Task.eval (.call "print" [e])).Bounded (declared program) fuel s →
    Run.eval fuel (.call "print" [e]) s = (.ok value, t) →
    ∃ words, Effect s t words ∧ Pushes machine locals (code ++ [.call "log"]) [] words
  call : ∀ {f args words s t value}, Ready program s → f ∈ program.functions →
    List.Forall₂ Denotes args words → words.length = f.params.length →
    (Task.call f.name (args.map .number)).Bounded (declared program) fuel s →
    Run.call fuel f.name (args.map .number) s = (.ok value, t) →
    ∃ x w later, value = .number x ∧ Denotes x w ∧ Effect s t later ∧
      ∀ locals stack calls, machine.Leaves locals [.call f.name] (words.reverse ++ stack) calls
        (.next (w :: stack)) (calls ++ logged later)
  exec : ∀ {params locals stmt code s t flow}, Inside program params locals s →
    StmtCode program.functions params stmt code →
    (Task.exec stmt).Bounded (declared program) fuel s → Run.exec fuel stmt s = (.ok flow, t) →
    Performs program machine params locals code s t flow
  block : ∀ {params locals stmts code s t flow}, Inside program params locals s →
    BlockCode program.functions params stmts code →
    (Task.block stmts).Bounded (declared program) fuel s →
    Run.execBlock fuel stmts s = (.ok flow, t) →
    Performs program machine params locals code s t flow
  loop : ∀ {params locals test body code code' s t flow}, Inside program params locals s →
    TestCode program.functions params test code →
    BlockCode program.functions params body code' →
    (Task.loop test body).Bounded (declared program) fuel s →
    Run.execLoop fuel test body s = (.ok flow, t) →
    ∃ exit words, Matches flow exit ∧ Effect s t words ∧ Inside program params locals t ∧
      Runs machine locals [.loop "continue" (round code code')] exit.ofLoop words

section Simulation

variable {program : Program} {machine : Machine} {fuel : Nat} {params : List String}
  {locals : List I32} {s t : Session} {code code' : List Instr} {value : Value} {flow : Flow}

theorem exists_operands (ih : Simulates program machine fuel) {op : Operator} {left right : Expr}
    (hinside : Inside program params locals s)
    (hleft : ExprCode program.functions params left code)
    (hright : ExprCode program.functions params right code')
    (hbounded : (Task.eval (.binary op left right)).Bounded (declared program) (fuel + 1) s)
    (heval : Run.eval (fuel + 1) (.binary op left right) s = (.ok value, t)) :
    ∃ x y v w words, Denotes x v ∧ Denotes y w ∧
      Value.binary op (.number x) (.number y) = .ok value ∧ Effect s t words ∧
      ∀ c, arith op v w = some c →
        Pushes machine locals (code ++ code' ++ [.arith op]) [c] words := by
  simp only [Run.eval] at heval
  obtain ⟨first, u, hl, heval⟩ := Run.exists_of_bind_eq_ok heval
  obtain ⟨second, u', hr, heval⟩ := Run.exists_of_bind_eq_ok heval
  obtain ⟨hbinary, rfl⟩ := Run.binary_of_apply heval
  obtain ⟨x, v, words, rfl, hx, heffect, hpush⟩ :=
    ih.eval hinside hleft (hbounded.inner List.mem_cons_self) hl
  obtain ⟨y, w, words', rfl, hy, heffect', hpush'⟩ :=
    ih.eval (hinside.of_eval heffect hl) hright
      (hbounded.inner (Task.mem_starts_right hl)) hr
  exact ⟨x, y, v, w, words ++ words', hx, hy, hbinary, heffect.trans heffect',
    fun c harith => hpush.arith hpush' harith⟩

theorem eval_succ (ih : Simulates program machine fuel) {e : Expr}
    (hinside : Inside program params locals s) (hcode : ExprCode program.functions params e code)
    (hbounded : (Task.eval e).Bounded (declared program) (fuel + 1) s)
    (heval : Run.eval (fuel + 1) e s = (.ok value, t)) :
    Computes machine locals code s t value := by
  cases hcode with
  | number h =>
    cases heval
    exact ⟨_, _, [], rfl, denotes_of_int32? h, .refl s, .const _⟩
  | param h =>
    obtain ⟨x, w, hget, hlocal, hx⟩ := hinside.bound.param _ _ h
    simp only [Run.eval, Run.lookup] at heval
    obtain ⟨u, _, ⟨⟩, heval⟩ := Run.exists_of_bind_eq_ok heval
    rw [Frames.get?, hget] at heval
    cases heval
    exact ⟨x, w, [], rfl, hx, .refl s, .localGet hlocal⟩
  | arith hop hleft hright =>
    obtain ⟨x, y, v, w, words, hx, hy, hbinary, heffect, hpush⟩ :=
      exists_operands ih hinside hleft hright hbounded heval
    obtain ⟨z, c, rfl, hz, harith⟩ := arith_of_binary hop hx hy hbinary
    have hrange := hbounded.numbers z (Task.mem_numbers_of_eval heval)
    exact ⟨z, c, words, rfl, hz hrange, heffect, hpush c harith⟩
  | call hf hcount hargs =>
    simp only [Run.eval] at heval
    obtain ⟨values, u, hvalues, hcall⟩ := Run.exists_of_bind_eq_ok heval
    obtain ⟨xs, ws, words, rfl, hxs, hlength, heffect, hpush⟩ :=
      ih.evalAll hinside hargs (hbounded.inner List.mem_cons_self) hvalues
    obtain ⟨x, w, words', rfl, hx, heffect', hleaves⟩ :=
      ih.call (hinside.of_evalAll heffect hvalues).toReady hf hxs (hlength.trans hcount)
        (hbounded.inner (Task.mem_starts_call hvalues)) hcall
    refine ⟨x, w, words ++ words', rfl, hx, heffect.trans heffect', fun stack calls => ?_⟩
    rw [← append_logged]
    exact (hpush stack calls).append (hleaves locals stack _)

theorem evalAll_succ (ih : Simulates program machine fuel) {es : List Expr} {values : List Value}
    (hinside : Inside program params locals s) (hcode : ArgsCode program.functions params es code)
    (hbounded : (Task.evalAll es).Bounded (declared program) (fuel + 1) s)
    (heval : Run.evalAll (fuel + 1) es s = (.ok values, t)) :
    ∃ xs ws words, values = xs.map .number ∧ List.Forall₂ Denotes xs ws ∧
      ws.length = es.length ∧ Effect s t words ∧ Pushes machine locals code ws.reverse words := by
  cases hcode with
  | nil =>
    cases heval
    exact ⟨[], [], [], rfl, .nil, rfl, .refl s, .nil⟩
  | cons hfirst hrest =>
    simp only [Run.evalAll] at heval
    obtain ⟨value, u, hvalue, heval⟩ := Run.exists_of_bind_eq_ok heval
    obtain ⟨values, u', hvalues, ⟨⟩⟩ := Run.exists_of_bind_eq_ok heval
    obtain ⟨x, w, words, rfl, hx, heffect, hpush⟩ :=
      ih.eval hinside hfirst (hbounded.inner List.mem_cons_self) hvalue
    obtain ⟨xs, ws, words', rfl, hxs, hlength, heffect', hpush'⟩ :=
      ih.evalAll (hinside.of_eval heffect hvalue) hrest
        (hbounded.inner (Task.mem_starts_rest hvalue)) hvalues
    refine ⟨x :: xs, w :: ws, words ++ words', rfl, .cons hx hxs, ?_, heffect.trans heffect', ?_⟩
    · rw [List.length_cons, List.length_cons, hlength]
    · rw [List.reverse_cons]
      exact hpush.append hpush'

theorem test_succ (ih : Simulates program machine fuel) {e : Expr}
    (hinside : Inside program params locals s) (hcode : TestCode program.functions params e code)
    (hbounded : (Task.eval e).Bounded (declared program) (fuel + 1) s)
    (heval : Run.eval (fuel + 1) e s = (.ok value, t)) :
    ∃ w words, (value.holds = true ↔ w ≠ 0) ∧ Effect s t words ∧
      Pushes machine locals code [w] words := by
  cases hcode with
  | value h =>
    obtain ⟨x, w, words, rfl, hx, heffect, hpush⟩ := eval_succ ih hinside h hbounded heval
    exact ⟨w, words, holds_number hx, heffect, hpush⟩
  | comparison hop hleft hright =>
    obtain ⟨x, y, v, w, words, hx, hy, hbinary, heffect, hpush⟩ :=
      exists_operands ih hinside hleft hright hbounded heval
    obtain ⟨b, rfl, harith⟩ := flag_of_binary hop hx hy hbinary
    exact ⟨flag b, words, flag_ne_zero b, heffect, hpush _ harith⟩

theorem print_succ (ih : Simulates program machine fuel) {e : Expr}
    (hinside : Inside program params locals s) (hcode : ExprCode program.functions params e code)
    (hbounded : (Task.eval (.call "print" [e])).Bounded (declared program) (fuel + 1) s)
    (heval : Run.eval (fuel + 1) (.call "print" [e]) s = (.ok value, t)) :
    ∃ words, Effect s t words ∧ Pushes machine locals (code ++ [.call "log"]) [] words := by
  simp only [Run.eval] at heval
  obtain ⟨values, u, hvalues, hcall⟩ := Run.exists_of_bind_eq_ok heval
  obtain ⟨xs, ws, words, rfl, hxs, hlength, heffect, hpush⟩ :=
    ih.evalAll hinside (.cons hcode .nil) (hbounded.inner List.mem_cons_self) hvalues
  obtain ⟨w, rfl⟩ := List.length_eq_one_iff.mp hlength
  rw [List.append_nil] at hpush
  cases hxs with
  | @cons x _ _ _ hx hrest =>
    cases hrest
    obtain rfl := (hinside.of_evalAll heffect hvalues).of_call_print hcall
    exact ⟨words ++ [w], heffect.trans (.say u hx), hpush.log⟩

theorem block_succ (ih : Simulates program machine fuel) {stmts : List Stmt}
    (hinside : Inside program params locals s)
    (hcode : BlockCode program.functions params stmts code)
    (hbounded : (Task.block stmts).Bounded (declared program) (fuel + 1) s)
    (hexec : Run.execBlock (fuel + 1) stmts s = (.ok flow, t)) :
    Performs program machine params locals code s t flow := by
  cases hcode with
  | nil =>
    cases hexec
    exact ⟨.next [], [], .normal, .refl s, hinside, Pushes.nil.runs⟩
  | cons hfirst hrest =>
    simp only [Run.execBlock] at hexec
    obtain ⟨first, u, hstmt, hexec⟩ := Run.exists_of_bind_eq_ok hexec
    obtain ⟨exit, words, hmatch, heffect, hinside, hruns⟩ :=
      ih.exec hinside hfirst (hbounded.inner List.mem_cons_self) hstmt
    cases hmatch with
    | normal =>
      obtain ⟨exit, words', hmatch, heffect', hinside, hruns'⟩ :=
        ih.block hinside hrest (hbounded.inner (Task.mem_starts_later hstmt)) hexec
      exact ⟨exit, words ++ words', hmatch, heffect.trans heffect', hinside, hruns.append hruns'⟩
    | ret hx =>
      cases hexec
      exact ⟨_, words, .ret hx, heffect, hinside, hruns.append_ret _⟩

theorem loop_succ (ih : Simulates program machine fuel) {test : Expr} {body : List Stmt}
    (hinside : Inside program params locals s)
    (htest : TestCode program.functions params test code)
    (hbody : BlockCode program.functions params body code')
    (hbounded : (Task.loop test body).Bounded (declared program) (fuel + 1) s)
    (hexec : Run.execLoop (fuel + 1) test body s = (.ok flow, t)) :
    ∃ exit words, Matches flow exit ∧ Effect s t words ∧ Inside program params locals t ∧
      Runs machine locals [.loop "continue" (round code code')] exit.ofLoop words := by
  simp only [Run.execLoop] at hexec
  obtain ⟨value, u, hvalue, hexec⟩ := Run.exists_of_bind_eq_ok hexec
  obtain ⟨w, words, hholds, heffect, hpush⟩ :=
    ih.test hinside htest (hbounded.inner List.mem_cons_self) hvalue
  have hinside := hinside.of_eval heffect hvalue
  by_cases htrue : value.holds = true
  -- The body is never left by a jump: all loops have the same labels, and the loops inside it
  -- have taken the jumps to theirs.
  · have hw := hholds.mp htrue
    rw [if_pos htrue] at hexec
    obtain ⟨first, u', hround, hexec⟩ := Run.exists_of_bind_eq_ok hexec
    obtain ⟨exit, words', hmatch, heffect', hinside, hruns⟩ :=
      ih.block hinside hbody (hbounded.inner (Task.mem_starts_round hvalue htrue)) hround
    cases hmatch with
    | normal =>
      obtain ⟨exit, words'', hmatch, heffect'', hinside, hruns'⟩ :=
        ih.loop hinside htest hbody
          (hbounded.inner (Task.mem_starts_again hvalue htrue hround)) hexec
      exact ⟨exit, words ++ words' ++ words'', hmatch, (heffect.trans heffect').trans heffect'',
        hinside, (runs_round_next hpush hw hruns).loop_next hruns'⟩
    | ret hx =>
      cases hexec
      exact ⟨_, words ++ words', .ret hx, heffect.trans heffect', hinside,
        (runs_round_ret hpush hw hruns).loop (fun heq => by cases heq) fun _ => rfl⟩
  · have hw : w = 0 := by simpa using mt hholds.mpr htrue
    rw [if_neg htrue] at hexec
    cases hexec
    subst hw
    exact ⟨.next [], words, .normal, heffect, hinside,
      (runs_round_last hpush _).loop (by decide) fun _ => rfl⟩

theorem branch_succ (ih : Simulates program machine fuel) {test : Expr} {yes : List Stmt}
    {no : Option (List Stmt)} {no' : Option (List Instr)}
    (hinside : Inside program params locals s)
    (htest : TestCode program.functions params test code)
    (hyes : BlockCode program.functions params yes code')
    (hno : Option.Rel (BlockCode program.functions params) no no')
    (hbounded : (Task.exec (.branch test yes no)).Bounded (declared program) (fuel + 1) s)
    (hexec : Run.exec (fuel + 1) (.branch test yes no) s = (.ok flow, t)) :
    Performs program machine params locals (code ++ [.branch code' no']) s t flow := by
  simp only [Run.exec] at hexec
  obtain ⟨value, u, hvalue, hexec⟩ := Run.exists_of_bind_eq_ok hexec
  obtain ⟨w, words, hholds, heffect, hpush⟩ :=
    ih.test hinside htest (hbounded.inner List.mem_cons_self) hvalue
  have hinside := hinside.of_eval heffect hvalue
  by_cases htrue : value.holds = true
  · rw [if_pos htrue] at hexec
    obtain ⟨exit, words', hmatch, heffect', hinside, hruns⟩ :=
      ih.block hinside hyes (hbounded.inner (Task.mem_starts_yes hvalue htrue)) hexec
    exact ⟨exit, words ++ words', hmatch, heffect.trans heffect', hinside,
      hpush.branch_yes (hholds.mp htrue) hruns hmatch.leave no'⟩
  · rw [if_neg htrue] at hexec
    obtain rfl : w = 0 := by simpa using mt hholds.mpr htrue
    cases hno with
    | none =>
      cases hexec
      have hruns := hpush.branch_no none Pushes.nil.runs Matches.normal.leave code'
      rw [List.append_nil] at hruns
      exact ⟨.next [], words, .normal, heffect, hinside, hruns⟩
    | some hno =>
      obtain ⟨exit, words', hmatch, heffect', hinside, hruns⟩ :=
        ih.block hinside hno (hbounded.inner (Task.mem_starts_no hvalue htrue)) hexec
      exact ⟨exit, words ++ words', hmatch, heffect.trans heffect', hinside,
        hpush.branch_no (some _) hruns hmatch.leave code'⟩

theorem exec_succ (ih : Simulates program machine fuel) {stmt : Stmt}
    (hinside : Inside program params locals s)
    (hcode : StmtCode program.functions params stmt code)
    (hbounded : (Task.exec stmt).Bounded (declared program) (fuel + 1) s)
    (hexec : Run.exec (fuel + 1) stmt s = (.ok flow, t)) :
    Performs program machine params locals code s t flow := by
  cases hcode with
  | binding hname =>
    cases hexec
    have hnull : ∀ builtin, Value.null ≠ .builtin builtin := fun _ heq => by cases heq
    exact ⟨.next [], [], .normal, (Effect.refl s).define _ _,
      hinside.define hname hnull, Pushes.nil.runs⟩
  | init hname hinit =>
    simp only [Run.exec] at hexec
    obtain ⟨value, u, hvalue, hexec⟩ := Run.exists_of_bind_eq_ok hexec
    cases hexec
    obtain ⟨x, w, words, rfl, hx, heffect, hpush⟩ :=
      ih.eval hinside hinit (hbounded.inner List.mem_cons_self) hvalue
    have hnumber : ∀ builtin, Value.number x ≠ .builtin builtin := fun _ heq => by cases heq
    have hinside := (hinside.of_eval heffect hvalue).define hname hnumber
    exact ⟨.next [], words, .normal, heffect.define _ _, hinside, hpush.drop.runs⟩
  | branch htest hyes => exact branch_succ ih hinside htest hyes .none hbounded hexec
  | branchElse htest hyes hno => exact branch_succ ih hinside htest hyes (.some hno) hbounded hexec
  | loop htest hbody =>
    obtain ⟨exit, words, hmatch, heffect, hinside, hruns⟩ :=
      ih.loop hinside htest hbody (hbounded.inner List.mem_cons_self) hexec
    refine ⟨exit, words, hmatch, heffect, hinside, ?_⟩
    cases hmatch with
    | normal => exact fun calls => (hruns calls).block_jump
    | ret hx => exact fun calls => (hruns calls).block (fun heq => by cases heq) rfl
  | ret h =>
    simp only [Run.exec] at hexec
    obtain ⟨value, u, hvalue, hexec⟩ := Run.exists_of_bind_eq_ok hexec
    cases hexec
    obtain ⟨x, w, words, rfl, hx, heffect, hpush⟩ :=
      ih.eval hinside h (hbounded.inner List.mem_cons_self) hvalue
    exact ⟨.ret w, words, .ret hx, heffect, hinside.of_eval heffect hvalue, hpush.ret⟩
  | print h =>
    simp only [Run.exec] at hexec
    obtain ⟨value, u, hvalue, hexec⟩ := Run.exists_of_bind_eq_ok hexec
    cases hexec
    obtain ⟨words, heffect, hpush⟩ :=
      ih.print hinside h (hbounded.inner List.mem_cons_self) hvalue
    exact ⟨.next [], words, .normal, heffect, hinside.of_eval heffect hvalue,
      fun calls => ((hpush [] calls).append (.const 0)).append .drop⟩
  | expr h =>
    simp only [Run.exec] at hexec
    obtain ⟨value, u, hvalue, hexec⟩ := Run.exists_of_bind_eq_ok hexec
    cases hexec
    obtain ⟨x, w, words, rfl, hx, heffect, hpush⟩ :=
      ih.eval hinside h (hbounded.inner List.mem_cons_self) hvalue
    exact ⟨.next [], words, .normal, heffect, hinside.of_eval heffect hvalue, hpush.drop.runs⟩

section Calls

variable (hemit : Module.ofProgram program = .ok machine.module) (hprogram : Integral program)
include hemit hprogram

theorem call_succ (ih : Simulates program machine fuel) {f : Function} {args : List Float}
    {words : List I32} (hready : Ready program s) (hf : f ∈ program.functions)
    (hargs : List.Forall₂ Denotes args words) (hcount : words.length = f.params.length)
    (hbounded : (Task.call f.name (args.map .number)).Bounded (declared program) (fuel + 1) s)
    (hcall : Run.call (fuel + 1) f.name (args.map .number) s = (.ok value, t)) :
    ∃ x w later, value = .number x ∧ Denotes x w ∧ Effect s t later ∧
      ∀ locals stack calls, machine.Leaves locals [.call f.name] (words.reverse ++ stack) calls
        (.next (w :: stack)) (calls ++ logged later) := by
  have hget := hready.functions f hf
  have htype := hbounded.results _ (Task.mem_results_of_call hcall) (List.mem_map_of_mem hf)
  obtain ⟨hdepth, flow, u, hbody, rfl, rfl⟩ := Run.exists_of_call hget hcall
  obtain ⟨code, hcode, hfind⟩ := exists_blockCode_of_ofProgram hemit hprogram hf
  obtain ⟨exit, later, hmatch, heffect, -, hruns⟩ :=
    ih.block (hready.enter (hprogram.params f hf) hargs hcount) hcode
      (hbounded.inner (Task.mem_starts_body hget hdepth)) hbody
  cases hmatch with
  -- A call that falls off the end has no number as its result, though its code has zero.
  | normal => cases htype
  | @ret x w hx =>
    refine ⟨x, w, later, rfl, hx, ⟨heffect.functions, heffect.output⟩, fun locals stack calls => ?_⟩
    exact .call (lookup_imports (hprogram.free f hf)) hfind hcount (hruns.append_ret _ calls)

theorem simulates (fuel : Nat) : Simulates program machine fuel := by
  induction fuel with
  | zero =>
    constructor
    all_goals
      intros
      rename_i hrun
      cases hrun
  | succ fuel ih =>
    exact ⟨eval_succ ih, evalAll_succ ih, test_succ ih, print_succ ih,
      call_succ hemit hprogram ih, exec_succ ih, block_succ ih, loop_succ ih⟩

end Calls

end Simulation

/-- Emitted functions compute what the functions of the program compute.  For a program over
integers, where a call of one of its functions ends well, computes only numbers in the range and
gets numbers from all functions of the program, its code ends as well, with the same integer; the
only calls of the host log the integers that the run has printed, in that order. -/
theorem ends_of_call {program : Program} {text : String}
    (hemit : Target.wat.emit program = .ok text) (hprogram : Integral program) {base : Session}
    (hprint : base.functions.get? "print" = none)
    (hglobals : base.frames.globals.get? "print" = some (.builtin .print)) {f : Function}
    (hf : f ∈ program.functions) {args : List Float} {words : List I32}
    (hargs : List.Forall₂ Denotes args words) (hcount : words.length = f.params.length)
    {fuel : Nat} {value : Value} {t : Session}
    (hcall : Run.call fuel f.name (args.map .number)
      (program.functions.foldl Session.register base) = (.ok value, t))
    (hbounded : (Task.call f.name (args.map .number)).Bounded (declared program) fuel
      (program.functions.foldl Session.register base)) (answer : List HostCall → I32) :
    ∃ module x w lines shown, Module.ofProgram program = .ok module ∧ module.render = text ∧
      value = .number x ∧ Denotes x w ∧
      Machine.Ends ⟨module, answer⟩ f.name words w (logged shown) ∧
      t.output.toList = base.output.toList ++ lines ∧ List.Forall₂ Shows lines shown := by
  unfold Target.emit at hemit
  cases hmodule : Module.ofProgram program with
  | error fault =>
    rw [hmodule] at hemit
    cases hemit
  | ok module =>
    rw [hmodule] at hemit
    cases hemit
    have hready := ready_registerAll hprogram hprint hglobals
    have hsimulates : Simulates program ⟨module, answer⟩ fuel := simulates hmodule hprogram fuel
    obtain ⟨x, w, shown, rfl, hx, heffect, hleaves⟩ :=
      hsimulates.call hready hf hargs hcount hbounded hcall
    obtain ⟨lines, hlines, hshow⟩ := heffect.output
    rw [output_registerAll] at hlines
    have hends := hleaves [] [] []
    rw [List.append_nil] at hends
    exact ⟨module, x, w, lines, shown, rfl, rfl, rfl, hx, Machine.ends_of_leaves hends, hlines,
      hshow⟩

/-- A sum down to zero, taken inside two loops that have the same labels. -/
def total : Function :=
  ⟨"total", ["n"],
    [.loop (.binary .greater (.name "n") (.number 0))
      [.loop (.binary .notEqual (.name "n") (.number 0))
        [.expr (.call "print" [.name "n"]),
          .ret (some (.binary .add (.name "n")
            (.call "total" [.binary .sub (.name "n") (.number 1)])))]],
      .ret (some (.number 0))]⟩

theorem ends_of_call_total :
    ∃ module w shown,
      Module.ofProgram ⟨[.function total.name total.params total.body]⟩ = .ok module ∧
      Denotes 3 w ∧ Machine.Ends ⟨module, fun _ => 0⟩ "total" [2] w (logged shown) ∧
      List.Forall₂ Shows ["2", "1"] shown := by
  let program : Program := ⟨[.function total.name total.params total.body]⟩
  let outcome := Run.call 30 "total" [.number 2] (program.functions.foldl Session.register {})
  obtain ⟨text, hemit⟩ : ∃ text, Target.wat.emit program = .ok text := by
    cases hemit : Target.wat.emit program with
    | ok text => exact ⟨text, rfl⟩
    | error fault =>
      have hok : (Target.wat.emit program).toBool = true := by decide +kernel
      rw [hemit] at hok
      cases hok
  have hprogram : Integral program :=
    ⟨by decide, by decide, by decide, by decide⟩
  have hvalue : outcome.1 = .ok (.number 3) := by decide +kernel
  have houtput : outcome.2.output.toList = ["2", "1"] := by decide +kernel
  have hbounded : (Task.call "total" [.number 2]).Bounded (declared program) 30
      (program.functions.foldl Session.register {}) :=
    ⟨by decide +kernel, by decide +kernel⟩
  have hargs : List.Forall₂ Denotes [2] [2] := by
    refine .cons ?_ .nil
    rw [Denotes]
    decide +kernel
  obtain ⟨module, x, w, lines, shown, hmodule, -, hx, hw, hends, hlines, hshow⟩ :=
    ends_of_call hemit hprogram rfl rfl List.mem_cons_self hargs rfl
      (Prod.ext hvalue rfl : outcome = (.ok (.number 3), outcome.2)) hbounded fun _ => 0
  cases hx
  rw [houtput] at hlines
  cases hlines
  exact ⟨module, w, shown, hmodule, hw, hends, hshow⟩

end Wat

end Splice
