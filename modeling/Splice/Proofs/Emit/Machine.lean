import Mathlib.Order.Basic
import Splice.Emit.Wat

/-! How structured stack code runs.  Values are words of 32 bits on a stack.  A block starts with
nothing on the stack that its code could reach; a jump goes to the innermost block or loop around
it that has the label, and clears what the code inside has left on the stack.  The functions that a
module imports belong to a host, whose answers may depend on all that it has been asked so far. -/
namespace Splice.Wat

abbrev I32 := BitVec 32

structure HostCall where
  name : String
  args : List I32
  deriving DecidableEq

/-- How code is left: behind its end with a stack, by a jump to a label, or by a return. -/
inductive Exit where
  | next (stack : List I32)
  | jump (label : String)
  | ret (value : I32)
  deriving DecidableEq

inductive Halt where
  | trap
  | outOfFuel
  deriving DecidableEq

/-- How code is left, and all calls of the host up to there. -/
abbrev Outcome := Except Halt (Exit × List HostCall)

def flag (holds : Bool) : I32 :=
  if holds then 1 else 0

/-- Arithmetic on words; there is no quotient by zero, nor one that is too large. -/
def arith (op : Operator) (left right : I32) : Option I32 :=
  match op with
  | .add => some (left + right)
  | .sub => some (left - right)
  | .mul => some (left * right)
  | .div =>
    if right = 0 ∨ left = BitVec.intMin 32 ∧ right = -1 then none else some (left.sdiv right)
  | .less => some (flag (left.slt right))
  | .greater => some (flag (right.slt left))
  | .equal => some (flag (left == right))
  | .notEqual => some (flag (left != right))

/-- The imported functions, with the number of their parameters and whether they have a result. -/
def imports : List (String × Nat × Bool) :=
  [("log", 1, false), ("createBox", 0, true), ("createText", 2, true), ("createButton", 2, true),
    ("appendChild", 2, false)]

/-- Instructions one after another, as long as each is left behind its end. -/
def inOrder (step : Instr → List I32 → List HostCall → Outcome) :
    List Instr → List I32 → List HostCall → Outcome
  | [], stack, calls => .ok (.next stack, calls)
  | instr :: code, stack, calls =>
    match step instr stack calls with
    | .ok (.next stack, calls) => inOrder step code stack calls
    | other => other

/-- The same exit seen from outside a block that was entered with this stack; blocks have no
results. -/
def Exit.leave (stack : List I32) (calls : List HostCall) : Exit → Outcome
  | .next [] => .ok (.next stack, calls)
  | .next (_ :: _) => .error .trap
  | exit => .ok (exit, calls)

/-- A module among functions of a host; `answer` takes all calls of the host, the latest last. -/
structure Machine where
  module : Module
  answer : List HostCall → I32

namespace Machine

def callHost (machine : Machine) (name : String) (arity : Nat) (answers : Bool)
    (stack : List I32) (calls : List HostCall) : Outcome :=
  if arity ≤ stack.length then
    let calls := calls ++ [⟨name, (stack.take arity).reverse⟩]
    let results := if answers then [machine.answer calls] else []
    .ok (.next (results ++ stack.drop arity), calls)
  else
    .error .trap

def step (machine : Machine) : Nat → List I32 → Instr → List I32 → List HostCall → Outcome
  | 0, _, _, _, _ => .error .outOfFuel
  | fuel + 1, locals, instr, stack, calls =>
    match instr, stack with
    | .const value, stack => .ok (.next (BitVec.ofInt 32 value :: stack), calls)
    | .localGet index, stack =>
      match locals[index]? with
      | some w => .ok (.next (w :: stack), calls)
      | none => .error .trap
    | .arith op, right :: left :: stack =>
      match arith op left right with
      | some w => .ok (.next (w :: stack), calls)
      | none => .error .trap
    | .eqz, w :: stack => .ok (.next (flag (w == 0) :: stack), calls)
    | .drop, _ :: stack => .ok (.next stack, calls)
    | .ret, w :: _ => .ok (.ret w, calls)
    | .jump label, _ => .ok (.jump label, calls)
    | .jumpIf label, w :: stack => .ok (if w = 0 then .next stack else .jump label, calls)
    | .block label body, stack =>
      match inOrder (machine.step fuel locals) body [] calls with
      | .ok (exit, calls) =>
        if exit = .jump label then .ok (.next stack, calls) else exit.leave stack calls
      | .error halt => .error halt
    | .loop label body, stack =>
      match inOrder (machine.step fuel locals) body [] calls with
      | .ok (exit, calls) =>
        if exit = .jump label then machine.step fuel locals (.loop label body) stack calls
        else exit.leave stack calls
      | .error halt => .error halt
    | .branch yes no, w :: stack =>
      match inOrder (machine.step fuel locals) (if w = 0 then no.getD [] else yes) [] calls with
      | .ok (exit, calls) => exit.leave stack calls
      | .error halt => .error halt
    | .call name, stack =>
      match imports.lookup name, machine.module.funcs.find? (·.name == name) with
      | some (arity, answers), _ => machine.callHost name arity answers stack calls
      | none, none => .error .trap
      | none, some f =>
        if f.arity ≤ stack.length then
          match inOrder (machine.step fuel (stack.take f.arity).reverse) f.body [] calls with
          | .ok (.next [w], calls) | .ok (.ret w, calls) =>
            .ok (.next (w :: stack.drop f.arity), calls)
          | .ok _ => .error .trap
          | .error halt => .error halt
        else
          .error .trap
    | .comment _, stack => .ok (.next stack, calls)
    | _, _ => .error .trap

/-- Call a function with arguments, its last one on top of the stack. -/
def invoke (machine : Machine) (fuel : Nat) (name : String) (args : List I32) :
    Except Halt (I32 × List HostCall) :=
  match machine.step fuel [] (.call name) args.reverse [] with
  | .ok (.next [w], calls) => .ok (w, calls)
  | .ok _ => .error .trap
  | .error halt => .error halt

/-- With enough fuel code is left in this way, with all these calls of the host. -/
def Leaves (machine : Machine) (locals : List I32) (code : List Instr) (stack : List I32)
    (calls : List HostCall) (exit : Exit) (after : List HostCall) : Prop :=
  ∃ enough, ∀ fuel, enough ≤ fuel →
    inOrder (machine.step fuel locals) code stack calls = .ok (exit, after)

/-- With enough fuel a function ends with a result, with all these calls of the host. -/
def Ends (machine : Machine) (name : String) (args : List I32) (result : I32)
    (calls : List HostCall) : Prop :=
  ∃ enough, ∀ fuel, enough ≤ fuel → machine.invoke fuel name args = .ok (result, calls)

variable {machine : Machine} {locals stack mid : List I32} {code more body : List Instr}
  {calls after last : List HostCall} {exit out : Exit} {label : String} {w : I32}

theorem inOrder_append (step : Instr → List I32 → List HostCall → Outcome) :
    inOrder step (code ++ more) stack calls =
      match inOrder step code stack calls with
      | .ok (.next stack, calls) => inOrder step more stack calls
      | other => other := by
  induction code generalizing stack calls with
  | nil => rfl
  | cons instr code ih =>
    rw [List.cons_append, inOrder, inOrder]
    split
    · exact ih
    · split <;> simp_all

theorem inOrder_singleton (step : Instr → List I32 → List HostCall → Outcome) (instr : Instr) :
    inOrder step [instr] stack calls = step instr stack calls := by
  rw [inOrder]
  split
  · rename_i hstep
    rw [hstep, inOrder]
  · rfl

namespace Leaves

theorem nil : Leaves machine locals [] stack calls (.next stack) calls :=
  ⟨0, fun _ _ => rfl⟩

theorem append (hfirst : Leaves machine locals code stack calls (.next mid) after)
    (hsecond : Leaves machine locals more mid after exit last) :
    Leaves machine locals (code ++ more) stack calls exit last := by
  obtain ⟨n, hfirst⟩ := hfirst
  obtain ⟨m, hsecond⟩ := hsecond
  refine ⟨max n m, fun fuel hfuel => ?_⟩
  rw [inOrder_append, hfirst fuel (by omega)]
  exact hsecond fuel (by omega)

theorem append_exit (h : Leaves machine locals code stack calls exit after)
    (hexit : ∀ stack, exit ≠ .next stack) (more : List Instr) :
    Leaves machine locals (code ++ more) stack calls exit after := by
  obtain ⟨n, h⟩ := h
  refine ⟨n, fun fuel hfuel => ?_⟩
  rw [inOrder_append, h fuel hfuel]
  cases exit with
  | next stack => exact absurd rfl (hexit stack)
  | _ => rfl

theorem of_step {instr : Instr} {n : Nat}
    (h : ∀ fuel, n ≤ fuel → machine.step (fuel + 1) locals instr stack calls = .ok (exit, after)) :
    Leaves machine locals [instr] stack calls exit after := by
  refine ⟨n + 1, fun fuel hfuel => ?_⟩
  obtain ⟨fuel, rfl⟩ : ∃ k, fuel = k + 1 := ⟨fuel - 1, by omega⟩
  rw [inOrder_singleton]
  exact h fuel (by omega)

theorem const (value : Int) : Leaves machine locals [.const value] stack calls
    (.next (BitVec.ofInt 32 value :: stack)) calls :=
  of_step (n := 0) fun _ _ => rfl

theorem localGet {index : Nat} (h : locals[index]? = some w) :
    Leaves machine locals [.localGet index] stack calls (.next (w :: stack)) calls := by
  refine of_step (n := 0) fun fuel _ => ?_
  unfold step
  simp only [h]

theorem arith {op : Operator} {left right : I32} (h : Wat.arith op left right = some w) :
    Leaves machine locals [.arith op] (right :: left :: stack) calls (.next (w :: stack))
      calls := by
  refine of_step (n := 0) fun fuel _ => ?_
  unfold step
  simp only [h]

theorem drop : Leaves machine locals [.drop] (w :: stack) calls (.next stack) calls :=
  of_step (n := 0) fun _ _ => rfl

theorem ret : Leaves machine locals [.ret] (w :: stack) calls (.ret w) calls :=
  of_step (n := 0) fun _ _ => rfl

theorem jump : Leaves machine locals [.jump label] stack calls (.jump label) calls :=
  of_step (n := 0) fun _ _ => rfl

theorem eqz_jumpIf_zero :
    Leaves machine locals [.eqz, .jumpIf label] (0 :: stack) calls (.jump label) calls := by
  refine ⟨1, fun fuel hfuel => ?_⟩
  obtain ⟨fuel, rfl⟩ : ∃ k, fuel = k + 1 := ⟨fuel - 1, by omega⟩
  rfl

theorem eqz_jumpIf (hw : w ≠ 0) :
    Leaves machine locals [.eqz, .jumpIf label] (w :: stack) calls (.next stack) calls := by
  refine ⟨1, fun fuel hfuel => ?_⟩
  obtain ⟨fuel, rfl⟩ : ∃ k, fuel = k + 1 := ⟨fuel - 1, by omega⟩
  have hflag : flag (w == 0) = 0 := if_neg (by rwa [beq_iff_eq])
  rw [inOrder, step]
  simp only [hflag]
  rfl

theorem block (h : Leaves machine locals body [] calls exit after) (hexit : exit ≠ .jump label)
    (hleave : exit.leave stack after = .ok (out, after)) :
    Leaves machine locals [.block label body] stack calls out after := by
  obtain ⟨n, h⟩ := h
  refine of_step (n := n) fun fuel hfuel => ?_
  unfold step
  simp only [h fuel hfuel, if_neg hexit, hleave]

theorem block_jump (h : Leaves machine locals body [] calls (.jump label) after) :
    Leaves machine locals [.block label body] stack calls (.next stack) after := by
  obtain ⟨n, h⟩ := h
  refine of_step (n := n) fun fuel hfuel => ?_
  unfold step
  simp only [h fuel hfuel, if_true]

theorem loop (h : Leaves machine locals body [] calls exit after) (hexit : exit ≠ .jump label)
    (hleave : exit.leave stack after = .ok (out, after)) :
    Leaves machine locals [.loop label body] stack calls out after := by
  obtain ⟨n, h⟩ := h
  refine of_step (n := n) fun fuel hfuel => ?_
  unfold step
  simp only [h fuel hfuel, if_neg hexit, hleave]

theorem loop_jump (hbody : Leaves machine locals body [] calls (.jump label) after)
    (hloop : Leaves machine locals [.loop label body] stack after exit last) :
    Leaves machine locals [.loop label body] stack calls exit last := by
  obtain ⟨n, hbody⟩ := hbody
  obtain ⟨m, hloop⟩ := hloop
  refine of_step (n := max n m) fun fuel hfuel => ?_
  have hagain := hloop fuel (by omega)
  rw [inOrder_singleton] at hagain
  unfold step
  simp only [hbody fuel (by omega), if_true]
  exact hagain

theorem branch {yes : List Instr} {no : Option (List Instr)}
    (h : Leaves machine locals (if w = 0 then no.getD [] else yes) [] calls exit after)
    (hleave : exit.leave stack after = .ok (out, after)) :
    Leaves machine locals [.branch yes no] (w :: stack) calls out after := by
  obtain ⟨n, h⟩ := h
  refine of_step (n := n) fun fuel hfuel => ?_
  unfold step
  simp only [h fuel hfuel, hleave]

theorem log : Leaves machine locals [.call "log"] (w :: stack) calls (.next stack)
    (calls ++ [⟨"log", [w]⟩]) :=
  of_step (n := 0) fun _ _ => rfl

/-- The arguments of a call, the last one on top, are replaced by its result. -/
theorem call {name : String} {f : Func} {args : List I32} (himport : imports.lookup name = none)
    (hfunc : machine.module.funcs.find? (·.name == name) = some f) (hargs : args.length = f.arity)
    (h : Leaves machine args f.body [] calls (.ret w) after) :
    Leaves machine locals [.call name] (args.reverse ++ stack) calls (.next (w :: stack))
      after := by
  obtain ⟨n, h⟩ := h
  refine of_step (n := n) fun fuel hfuel => ?_
  have htake : ((args.reverse ++ stack).take f.arity).reverse = args := by
    rw [← hargs, ← List.length_reverse, List.take_left', List.reverse_reverse]
    rfl
  have hdrop : (args.reverse ++ stack).drop f.arity = stack := by
    rw [← hargs, ← List.length_reverse, List.drop_left']
    rfl
  have hroom : f.arity ≤ (args.reverse ++ stack).length := by
    rw [List.length_append, List.length_reverse]
    omega
  unfold step
  simp only [himport, hfunc, hroom, if_true, htake, hdrop, h fuel hfuel]

end Leaves

theorem ends_of_leaves {name : String} {args : List I32}
    (h : Leaves machine [] [.call name] args.reverse [] (.next [w]) after) :
    machine.Ends name args w after := by
  obtain ⟨n, h⟩ := h
  refine ⟨n, fun fuel hfuel => ?_⟩
  have hstep := h fuel hfuel
  rw [inOrder_singleton] at hstep
  unfold invoke
  rw [hstep]

end Machine

end Splice.Wat
