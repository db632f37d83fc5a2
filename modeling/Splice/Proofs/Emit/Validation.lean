import Splice.Proofs.Emit.Listing
import Splice.Proofs.Tree.RoundTrip

/-! How stack code is checked, line by line.  All values are words of 32 bits, so what the checker
knows of the stack is its height: for each construct that is open, the number of values that the
code inside it has left so far.  Code behind a jump or a return cannot be reached; there, values
that are missing may be taken for granted.  Blocks, loops and branches take and leave nothing.

The main statement is that the code of every function passes: each expression leaves one value and
takes nothing that was there before it, each statement leaves the stack as it was, and a body ends
with one value. -/
namespace Splice.Wat

/-- What a function takes from the stack and what it leaves there. -/
structure Signature where
  params : Nat
  results : Nat
  deriving DecidableEq

def importSignature (params : Nat) (answers : Bool) : Signature :=
  ⟨params, if answers then 1 else 0⟩

/-- The signatures by which a call of a name may be checked: the one of the program's function, as
the table of arities has it, and the one of an import. -/
def signatures (arity? : String → Option Nat) (name : String) : List Signature :=
  ((arity? name).map (⟨·, 1⟩)).toList ++
    ((imports.lookup name).map fun (params, answers) => importSignature params answers).toList

inductive Opening where
  | function
  | block (label : String)
  | loop (label : String)
  | branch
  | otherwise
  deriving DecidableEq

def Opening.label? : Opening → Option String
  | .block label | .loop label => some label
  | _ => none

/-- A construct that is open, the number of values that the code in it has left, and whether that
code goes on where nothing gets to. -/
structure Frame where
  opening : Opening
  height : Nat := 0
  dead : Bool := false
  deriving DecidableEq

namespace Frame

def push (n : Nat) (f : Frame) : Frame :=
  { f with height := f.height + n }

def pop (n : Nat) (f : Frame) : Option Frame :=
  if n ≤ f.height then some { f with height := f.height - n }
  else if f.dead then some { f with height := 0 }
  else none

def kill (f : Frame) : Frame :=
  { f with height := 0, dead := true }

end Frame

def labels (frames : List Frame) : List String :=
  frames.filterMap (·.opening.label?)

def isWord (value : Int) : Bool :=
  -2147483648 ≤ value && value < 4294967296

/-- What a line makes of the constructs that are open, innermost first, in a function with so many
parameters.  A call may be checked by any signature of its name; a line that is out of place is
checked by none. -/
def Op.check (sigs : String → List Signature) (params : Nat) :
    Op → List Frame → List (List Frame)
  | _, [] => []
  | .const value, top :: outer => if isWord value then [top.push 1 :: outer] else []
  | .localGet index, top :: outer => if index < params then [top.push 1 :: outer] else []
  | .arith _, top :: outer => ((top.pop 2).map (·.push 1 :: outer)).toList
  | .eqz, top :: outer => ((top.pop 1).map (·.push 1 :: outer)).toList
  | .call name, top :: outer =>
    (sigs name).filterMap fun sig => (top.pop sig.params).map (·.push sig.results :: outer)
  | .drop, top :: outer => ((top.pop 1).map (· :: outer)).toList
  | .ret, top :: outer => ((top.pop 1).map (·.kill :: outer)).toList
  | .jump label, top :: outer =>
    if label ∈ labels (top :: outer) then [top.kill :: outer] else []
  | .jumpIf label, top :: outer =>
    if label ∈ labels (top :: outer) then ((top.pop 1).map (· :: outer)).toList else []
  | .block label, frames => [⟨.block label, 0, false⟩ :: frames]
  | .loop label, frames => [⟨.loop label, 0, false⟩ :: frames]
  | .branch, top :: outer => ((top.pop 1).map (⟨.branch, 0, false⟩ :: · :: outer)).toList
  | .otherwise, top :: outer =>
    if top.opening = .branch ∧ top.height = 0 then [⟨.otherwise, 0, false⟩ :: outer] else []
  | .finish, top :: outer => if top.opening ≠ .function ∧ top.height = 0 then [outer] else []
  | .comment _, frames => [frames]

def checkAll (sigs : String → List Signature) (params : Nat) :
    List Op → List Frame → List (List Frame)
  | [], frames => [frames]
  | op :: ops, frames => (op.check sigs params frames).flatMap (checkAll sigs params ops)

def Func.checked (sigs : String → List Signature) (f : Func) : List (List Frame) :=
  checkAll sigs f.arity f.ops [⟨.function, 0, false⟩]

section

variable {sigs : String → List Signature} {params : Nat} {ops ops' : List Op}
  {frames mid last : List Frame}

theorem mem_checkAll_append : last ∈ checkAll sigs params (ops ++ ops') frames ↔
    ∃ mid ∈ checkAll sigs params ops frames, last ∈ checkAll sigs params ops' mid := by
  induction ops generalizing frames with
  | nil => simp [checkAll]
  | cons op ops ih =>
    simp only [List.cons_append, checkAll, List.mem_flatMap, ih]
    constructor
    · rintro ⟨next, hnext, mid, hmid, hlast⟩
      exact ⟨mid, ⟨next, hnext, hmid⟩, hlast⟩
    · rintro ⟨mid, ⟨next, hnext, hmid⟩, hlast⟩
      exact ⟨next, hnext, mid, hmid, hlast⟩

theorem mem_checkAll_cons {op : Op} : last ∈ checkAll sigs params (op :: ops) frames ↔
    ∃ mid ∈ op.check sigs params frames, last ∈ checkAll sigs params ops mid :=
  List.mem_flatMap

theorem mem_checkAll_single {op : Op} :
    last ∈ checkAll sigs params [op] frames ↔ last ∈ op.check sigs params frames := by
  simp [checkAll]

namespace Frame

theorem pop_push (n : Nat) (f : Frame) : (f.push n).pop n = some f := by
  unfold pop push
  rw [if_pos (Nat.le_add_left n f.height), Nat.add_sub_cancel]

theorem push_zero (f : Frame) : f.push 0 = f :=
  rfl

theorem push_push (n m : Nat) (f : Frame) : (f.push n).push m = f.push (n + m) := by
  unfold push
  rw [Nat.add_assoc]

/-- The frame behind statements: a return among them makes the rest dead. -/
def after (returns : Bool) (f : Frame) : Frame :=
  if returns then f.kill else f

theorem after_after (b b' : Bool) (f : Frame) : (f.after b).after b' = f.after (b || b') := by
  cases b <;> cases b' <;> rfl

@[simp] theorem opening_after (b : Bool) (f : Frame) : (f.after b).opening = f.opening := by
  cases b <;> rfl

theorem height_after {f : Frame} (h : f.height = 0) (b : Bool) : (f.after b).height = 0 := by
  cases b
  · exact h
  · rfl

end Frame

def Adds (sigs : String → List Signature) (params n : Nat) (code : List Instr) : Prop :=
  ∀ top outer, top.push n :: outer ∈ checkAll sigs params (opsAll code) (top :: outer)

def Balances (sigs : String → List Signature) (params : Nat) (returns : Bool)
    (code : List Instr) : Prop :=
  ∀ top outer, top.after returns :: outer ∈ checkAll sigs params (opsAll code) (top :: outer)

variable {n m : Nat} {code code' : List Instr} {b b' : Bool}

namespace Adds

theorem nil : Adds sigs params 0 [] :=
  fun _ _ => List.mem_singleton_self _

theorem append (h : Adds sigs params n code) (h' : Adds sigs params m code') :
    Adds sigs params (n + m) (code ++ code') := by
  intro top outer
  rw [opsAll_append, mem_checkAll_append]
  refine ⟨top.push n :: outer, h top outer, ?_⟩
  rw [← Frame.push_push]
  exact h' _ outer

theorem andThen {instr : Instr} {op : Op} (h : Adds sigs params n code) (hop : instr.ops = [op])
    (hcheck : ∀ (top : Frame) outer,
      top.push m :: outer ∈ op.check sigs params (top.push n :: outer)) :
    Adds sigs params m (code ++ [instr]) := by
  intro top outer
  rw [opsAll_append, mem_checkAll_append]
  refine ⟨top.push n :: outer, h top outer, ?_⟩
  rw [opsAll, hop, opsAll, List.append_nil, mem_checkAll_single]
  exact hcheck top outer

theorem const {value : Int} (h : isWord value = true) : Adds sigs params 1 [.const value] :=
  nil.andThen rfl fun top outer => by simp [Op.check, h, Frame.push]

theorem localGet {index : Nat} (h : index < params) : Adds sigs params 1 [.localGet index] :=
  nil.andThen rfl fun top outer => by simp [Op.check, h, Frame.push]

theorem arith (h : Adds sigs params 2 code) (op : Operator) :
    Adds sigs params 1 (code ++ [.arith op]) :=
  h.andThen rfl fun top outer => by simp [Op.check, Frame.pop_push]

theorem drop (h : Adds sigs params 1 code) : Adds sigs params 0 (code ++ [.drop]) :=
  h.andThen rfl fun top outer => by simp [Op.check, Frame.pop_push, Frame.push_zero]

theorem call {name : String} {sig : Signature} (h : Adds sigs params sig.params code)
    (hsig : sig ∈ sigs name) : Adds sigs params sig.results (code ++ [.call name]) :=
  h.andThen rfl fun top outer =>
    List.mem_filterMap.mpr ⟨sig, hsig, by rw [Frame.pop_push]; rfl⟩

theorem balances (h : Adds sigs params 0 code) : Balances sigs params false code :=
  h

theorem ret (h : Adds sigs params 1 code) : Balances sigs params true (code ++ [.ret]) := by
  intro top outer
  rw [opsAll_append, mem_checkAll_append]
  refine ⟨top.push 1 :: outer, h top outer, ?_⟩
  simp [opsAll, Instr.ops, mem_checkAll_single, Op.check, Frame.pop_push, Frame.after]

end Adds

theorem Balances.nil : Balances sigs params false [] :=
  Adds.nil.balances

theorem Balances.append (h : Balances sigs params b code) (h' : Balances sigs params b' code') :
    Balances sigs params (b || b') (code ++ code') := by
  intro top outer
  rw [opsAll_append, mem_checkAll_append, ← Frame.after_after]
  exact ⟨top.after b :: outer, h top outer, h' _ outer⟩

theorem Balances.enclosed (h : Balances sigs params b code) {opening : Opening}
    (hopening : opening ≠ .function) (outer : List Frame) :
    outer ∈ checkAll sigs params (opsAll code ++ [.finish]) (⟨opening, 0, false⟩ :: outer) := by
  rw [mem_checkAll_append]
  refine ⟨_, h ⟨opening, 0, false⟩ outer, mem_checkAll_single.mpr ?_⟩
  have hheight := Frame.height_after (rfl : (⟨opening, 0, false⟩ : Frame).height = 0) b
  simp [Op.check, hopening, hheight]

theorem Adds.branch (htest : Adds sigs params 1 code) (hyes : Balances sigs params b code') :
    Balances sigs params false (code ++ [.branch code' none]) := by
  intro top outer
  rw [opsAll_append, mem_checkAll_append]
  refine ⟨top.push 1 :: outer, htest top outer, ?_⟩
  simp only [opsAll, Instr.ops, List.append_nil]
  refine mem_checkAll_cons.mpr ⟨⟨.branch, 0, false⟩ :: top :: outer, ?_, ?_⟩
  · simp [Op.check, Frame.pop_push]
  · exact hyes.enclosed (by decide) (top :: outer)

theorem Adds.branchElse {no : List Instr} (htest : Adds sigs params 1 code)
    (hyes : Balances sigs params b code') (hno : Balances sigs params b' no) :
    Balances sigs params false (code ++ [.branch code' (some no)]) := by
  intro top outer
  rw [opsAll_append, mem_checkAll_append]
  refine ⟨top.push 1 :: outer, htest top outer, ?_⟩
  simp only [opsAll, Instr.ops, List.append_nil]
  refine mem_checkAll_cons.mpr ⟨⟨.branch, 0, false⟩ :: top :: outer, ?_, ?_⟩
  · simp [Op.check, Frame.pop_push]
  · refine mem_checkAll_append.mpr ⟨_, hyes ⟨.branch, 0, false⟩ (top :: outer), ?_⟩
    refine mem_checkAll_cons.mpr ⟨⟨.otherwise, 0, false⟩ :: top :: outer, ?_, ?_⟩
    · have hheight := Frame.height_after (rfl : (⟨.branch, 0, false⟩ : Frame).height = 0) b
      simp [Op.check, hheight]
    · exact hno.enclosed (by decide) (top :: outer)

/-- One round of a loop ends with the jump back, behind which the loop is dead. -/
theorem mem_checkAll_round (htest : Adds sigs params 1 code) (hbody : Balances sigs params b code')
    (outer : List Frame) :
    ⟨.loop "continue", 0, true⟩ :: ⟨.block "break", 0, false⟩ :: outer ∈
      checkAll sigs params (opsAll (round code code'))
        (⟨.loop "continue", 0, false⟩ :: ⟨.block "break", 0, false⟩ :: outer) := by
  let top : Frame := ⟨.loop "continue", 0, false⟩
  let around : List Frame := ⟨.block "break", 0, false⟩ :: outer
  have hexit : top :: around ∈
      checkAll sigs params (opsAll [.eqz, .jumpIf "break"]) (top.push 1 :: around) := by
    refine mem_checkAll_cons.mpr ⟨top.push 1 :: around, ?_, mem_checkAll_single.mpr ?_⟩
    · simp [Op.check, Frame.pop_push]
    · simp [Op.check, Frame.pop_push, around, labels, Opening.label?]
  have hagain : top.kill :: around ∈
      checkAll sigs params (opsAll [.jump "continue"]) (top.after b :: around) := by
    refine mem_checkAll_single.mpr ?_
    cases b <;> simp [Op.check, labels, Frame.after, Frame.kill, top, Opening.label?]
  simp only [round, opsAll_append, mem_checkAll_append]
  exact ⟨top.after b :: around, ⟨top :: around, ⟨_, htest top around, hexit⟩, hbody top around⟩,
    hagain⟩

theorem Adds.loop (htest : Adds sigs params 1 code) (hbody : Balances sigs params b code') :
    Balances sigs params false [.block "break" [.loop "continue" (round code code')]] := by
  intro top outer
  simp only [opsAll, Instr.ops, List.append_nil, List.cons_append]
  refine mem_checkAll_cons.mpr ⟨_, List.mem_singleton_self _, ?_⟩
  refine mem_checkAll_cons.mpr ⟨_, List.mem_singleton_self _, ?_⟩
  refine mem_checkAll_append.mpr ⟨⟨.block "break", 0, false⟩ :: top :: outer, ?_, ?_⟩
  · refine mem_checkAll_append.mpr ⟨_, mem_checkAll_round htest hbody (top :: outer), ?_⟩
    simp [mem_checkAll_single, Op.check]
  · simp [mem_checkAll_single, Op.check, Frame.after]

end

/-- The checker knows a function's parameters, and the signatures that its calls need. -/
structure Context.Known (ctx : Context) (sigs : String → List Signature) (params : Nat) :
    Prop where
  params : ctx.params.length = params
  sigs : ∀ name, signatures ctx.arity? name ⊆ sigs name

section

variable {ctx : Context} {sigs : String → List Signature} {params : Nat}

theorem isWord_of_int32? {x : Float} {n : Int} (h : int32? x = some n) : isWord n = true := by
  obtain ⟨-, hrange⟩ := Option.filter_eq_some_iff.mp h
  simp only [isWord, Bool.and_eq_true, decide_eq_true_eq] at hrange ⊢
  omega

theorem Context.Known.declared (hctx : ctx.Known sigs params) {name : String} {n : Nat}
    (h : ctx.arity? name = some n) : ⟨n, 1⟩ ∈ sigs name := by
  apply hctx.sigs
  simp [signatures, h]

theorem Context.Known.imported (hctx : ctx.Known sigs params) {name : String} {n : Nat}
    {answers : Bool} (h : imports.lookup name = some (n, answers)) :
    importSignature n answers ∈ sigs name := by
  apply hctx.sigs
  simp [signatures, h]

theorem adds_widgetCode (hctx : ctx.Known sigs params) (widget : Widget) :
    Adds sigs params 1 (widgetCode widget) := by
  have hzeros : Adds sigs params 2 [.const 0, .const 0] :=
    (Adds.const (by decide)).append (Adds.const (by decide))
  cases widget with
  | box => exact Adds.nil.call (hctx.imported rfl : importSignature 0 true ∈ sigs "createBox")
  | text => exact hzeros.call (hctx.imported rfl : importSignature 2 true ∈ sigs "createText")
  | button =>
    exact hzeros.call (hctx.imported rfl : importSignature 2 true ∈ sigs "createButton")

mutual

theorem ExprLowers.adds (hctx : ctx.Known sigs params) {e : Expr} {code : List Instr}
    (h : ExprLowers ctx e code) : Adds sigs params 1 code := by
  match h with
  | .number h => exact .const (isWord_of_int32? h)
  | .param h =>
    obtain ⟨hindex, -, -⟩ := List.findIdx?_eq_some_iff_getElem.mp h
    exact .localGet (hctx.params ▸ hindex)
  | .binary hleft hright => exact ((hleft.adds hctx).append (hright.adds hctx)).arith _
  | .print h =>
    have hlog : importSignature 1 false ∈ sigs "log" := hctx.imported rfl
    exact (h.adds hctx fun hcode => hcode.call hlog).append (.const (by decide))
  | .call _ harity hargs => exact (hargs.adds hctx).call (hctx.declared harity)
  | .ui h => exact (adds_widgetCode hctx _).append (h.adds hctx Adds.drop)

theorem ArgsLower.adds (hctx : ctx.Known sigs params) {es : List Expr} {code : List Instr}
    (h : ArgsLower ctx es code) : Adds sigs params es.length code := by
  match h with
  | .nil => exact .nil
  | .cons hfirst hrest =>
    rw [List.length_cons, Nat.add_comm]
    exact (hfirst.adds hctx).append (hrest.adds hctx)

theorem EachLowers.adds (hctx : ctx.Known sigs params) {use : Instr} {es : List Expr}
    {code : List Instr} (h : EachLowers ctx use es code)
    (huse : ∀ {code}, Adds sigs params 1 code → Adds sigs params 0 (code ++ [use])) :
    Adds sigs params 0 code := by
  match h with
  | .nil => exact .nil
  | .cons hfirst hrest =>
    rw [List.append_cons]
    exact (huse (hfirst.adds hctx)).append (hrest.adds hctx huse)

end

def returns : Stmt → Bool
  | .ret _ => true
  | _ => false

theorem returns_of_remark? {s : Stmt} {text : String} (h : remark? s = some text) :
    returns s = false := by
  cases s with
  | ret value => cases h
  | _ => rfl

mutual

theorem StmtLowers.balances (hctx : ctx.Known sigs params) {s : Stmt} {code : List Instr}
    (h : StmtLowers ctx s code) : Balances sigs params (returns s) code := by
  match h with
  | .binding => exact .nil
  | .init h => exact (h.adds hctx).drop.balances
  | .branch htest hyes => exact (htest.adds hctx).branch (hyes.balances hctx)
  | .branchElse htest hyes hno =>
    exact (htest.adds hctx).branchElse (hyes.balances hctx) (hno.balances hctx)
  | .loop htest hbody => exact (htest.adds hctx).loop (hbody.balances hctx)
  | .retNone => exact (Adds.const (by decide)).ret
  | .ret h => exact (h.adds hctx).ret
  | .expr h => exact (h.adds hctx).drop.balances
  | .remark h =>
    rw [returns_of_remark? h]
    exact fun top outer => mem_checkAll_single.mpr (List.mem_singleton_self _)

theorem BlockLowers.balances (hctx : ctx.Known sigs params) {ss : List Stmt} {code : List Instr}
    (h : BlockLowers ctx ss code) : Balances sigs params (ss.any returns) code := by
  match h with
  | .nil => exact .nil
  | .cons hfirst hrest => exact (hfirst.balances hctx).append (hrest.balances hctx)

end

end

section

variable {sigs : String → List Signature} {params : Nat}

theorem length_check_le (hsigs : ∀ name, (sigs name).length ≤ 1) (op : Op) (frames : List Frame) :
    (op.check sigs params frames).length ≤ 1 := by
  have hoption {α : Type} (o : Option α) : o.toList.length ≤ 1 := by cases o <;> simp
  cases frames with
  | nil => simp [Op.check]
  | cons top outer =>
    cases op with
    | call name => exact Nat.le_trans (List.length_filterMap_le _ _) (hsigs name)
    | arith _ | eqz | drop | ret | branch => exact hoption _
    | block _ | loop _ | comment _ => exact Nat.le_refl 1
    | jumpIf label =>
      simp only [Op.check]
      split
      · exact hoption _
      · exact Nat.zero_le 1
    | const _ | localGet _ | jump _ | otherwise | finish =>
      simp only [Op.check]
      split <;> simp

theorem length_checkAll_le (hsigs : ∀ name, (sigs name).length ≤ 1) (ops : List Op)
    (frames : List Frame) : (checkAll sigs params ops frames).length ≤ 1 := by
  induction ops generalizing frames with
  | nil => exact Nat.le_refl 1
  | cons op ops ih =>
    unfold checkAll
    cases hmid : op.check sigs params frames with
    | nil => simp
    | cons mid more =>
      have hop : (op.check sigs params frames).length ≤ 1 := length_check_le hsigs op frames
      rw [hmid, List.length_cons] at hop
      obtain rfl : more = [] := List.length_eq_zero_iff.mp (by omega)
      rw [List.flatMap_singleton]
      exact ih mid

theorem checkAll_eq_of_mem (hsigs : ∀ name, (sigs name).length ≤ 1) {ops : List Op}
    {frames last : List Frame} (h : last ∈ checkAll sigs params ops frames) :
    checkAll sigs params ops frames = [last] := by
  have hlength : (checkAll sigs params ops frames).length ≤ 1 :=
    length_checkAll_le hsigs ops frames
  cases hall : checkAll sigs params ops frames with
  | nil =>
    rw [hall] at h
    cases h
  | cons first more =>
    rw [hall, List.length_cons] at hlength
    rw [hall] at h
    obtain rfl : more = [] := List.length_eq_zero_iff.mp (by omega)
    rw [List.mem_singleton.mp h]

end

theorem length_signatures_le {functions : List Function}
    (h : ∀ f ∈ functions, f.name ∉ imports.map (·.1)) (name : String) :
    (signatures (arityIn functions) name).length ≤ 1 := by
  unfold signatures
  cases harity : arityIn functions name with
  | none => cases imports.lookup name <;> simp
  | some n =>
    obtain ⟨f, hf, rfl, -⟩ := exists_function_of_arityIn harity
    rw [lookup_imports_of_notMem (h f hf)]
    simp

/-- What holds of a function and its code. -/
structure Checks (program : Program) (f : Function) (func : Func) : Prop where
  name : func.name = f.name
  arity : func.arity = f.params.length
  /-- The lines open and close properly, and end with one value. -/
  body : ∃ dead,
    [⟨.function, 1, dead⟩] ∈ func.checked (signatures (arityIn program.functions))
  exprs : ∀ e code, lowerExpr (contextOf program f) e = .ok code →
    Adds (signatures (arityIn program.functions)) func.arity 1 code
  stmts : ∀ s code, lowerStmt (contextOf program f) s = .ok code →
    Balances (signatures (arityIn program.functions)) func.arity (returns s) code

theorem known_contextOf (program : Program) (f : Function) :
    (contextOf program f).Known (signatures (arityIn program.functions)) f.params.length :=
  ⟨rfl, fun _ => List.Subset.refl _⟩

theorem BlockLowers.checked {ctx : Context} {sigs : String → List Signature} {params : Nat}
    (hctx : ctx.Known sigs params) {ss : List Stmt} {code : List Instr}
    (h : BlockLowers ctx ss code) (name : String) :
    [⟨.function, 1, ss.any returns⟩] ∈
      Func.checked sigs ⟨name, params, code ++ [.const 0]⟩ := by
  have hbody := h.balances hctx ⟨.function, 0, false⟩ []
  have hzero : Adds sigs params 1 [.const 0] := .const (by decide)
  refine (congrArg (_ ∈ checkAll sigs params · _) (opsAll_append code _)).mpr
    (mem_checkAll_append.mpr ⟨_, hbody, ?_⟩)
  cases hreturns : ss.any returns with
  | false => exact hzero ⟨.function, 0, false⟩ []
  | true => exact hzero ⟨.function, 0, true⟩ []

/-- Every function of an emitted module passes the check, by its lines as they stand in the text;
and it passes in one way only where no function has the name of an import. -/
theorem emitted_code_checks {source text : String} {program : Program}
    (hcompile : compile source = .ok program) (hemit : Target.wat.emit program = .ok text) :
    ∃ module, Module.ofProgram program = .ok module ∧
      Text.pieces text.toList = module.lines.map String.toList ++ [[]] ∧
      List.Forall₂ (Checks program) program.functions module.funcs ∧
      ((∀ f ∈ program.functions, f.name ∉ imports.map (·.1)) →
        ∀ func ∈ module.funcs, ∃ dead,
          func.checked (signatures (arityIn program.functions)) = [[⟨.function, 1, dead⟩]]) := by
  obtain ⟨module, hmodule, rfl⟩ := exists_module_of_emit hemit
  have hfuncs : List.Forall₂ (Checks program) program.functions module.funcs := by
    refine (funcs_of_ofProgram hmodule).imp fun f func hfunc => ?_
    obtain ⟨code, hbody, rfl⟩ := hfunc
    have hctx := known_contextOf program f
    exact ⟨rfl, rfl, ⟨_, hbody.checked hctx f.name⟩,
      fun e code h => (exprLowers_of_lowerExpr e h).adds hctx,
      fun s code h => (stmtLowers_of_lowerStmt s h).balances hctx⟩
  refine ⟨module, hmodule, Module.pieces_render hcompile hmodule, hfuncs, ?_⟩
  intro hfree func hfunc
  obtain ⟨f, -, hchecks⟩ := exists_of_forall₂ hfuncs hfunc
  obtain ⟨dead, hmem⟩ := hchecks.body
  exact ⟨dead, checkAll_eq_of_mem (length_signatures_le hfree) hmem⟩

/-- A return inside a branch inside a loop, and a widget that has a child. -/
def picture : Program :=
  ⟨[.function "add" ["a", "b"] [.ret (some (.binary .add (.name "a") (.name "b")))],
    .function "main" []
      [.loop (.binary .greater (.call "add" [.number 1, .number 2]) (.number 0))
        [.branch (.call "add" [.number 0, .number 1]) [.ret none]
          (some [.expr (.call "print" [.number 1, .number 2])])],
        .expr (.ui .box [] [.ui .text [.text "hi"] []])]]⟩

def pictureText : String :=
  "fn add(a, b):\n    return a + b\nfn main():\n    while add(1, 2) > 0:\n" ++
    "        if add(0, 1):\n            return\n        else:\n            print(1, 2)\n" ++
    "    box():\n        text(\"hi\")\n"

theorem emitted_code_checks_picture :
    ∃ module : Module, compile pictureText = .ok picture ∧
      Target.wat.emit picture = .ok module.render ∧ module.funcs.length = 2 ∧
      ∀ func ∈ module.funcs, ∃ dead,
        func.checked (signatures (arityIn picture.functions)) = [[⟨.function, 1, dead⟩]] := by
  have hcompile : compile pictureText = .ok picture :=
    compile_of_printAll (by decide +kernel) (List.cons_ne_nil _ _) (by decide) (by decide)
      (by decide +kernel)
  obtain ⟨text, hemit⟩ := exists_of_toBool
    (by decide +kernel : (Target.wat.emit picture).toBool = true)
  obtain ⟨module, hmodule, -, hfuncs, hone⟩ := emitted_code_checks hcompile hemit
  exact ⟨module, hcompile, emit_of_ofProgram hmodule, hfuncs.length_eq.symm, hone (by decide)⟩

end Splice.Wat
