import Mathlib.Data.List.Forall2
import Splice.Emit.Wat
import Splice.Proofs.Emit.Machine

/-! Programs over integers, and their code.  Expressions are made from integers, parameters, sums,
differences, products and calls of declared functions; comparisons stand only as whole tests, and
`print` only as a statement.  What code such expressions and statements have is a relation of its
own, read off the lowering once. -/
namespace Splice.Wat

def arithmetic : List Operator :=
  [.add, .sub, .mul]

def comparisons : List Operator :=
  [.less, .greater, .equal, .notEqual]

def reserved : List String :=
  "print" :: imports.map (·.1)

mutual

/-- Code exists only for numbers that are integers and for names that are parameters, so nothing is
asked of them here. -/
def integral (declared : List String) : Expr → Bool
  | .number _ | .name _ => true
  | .binary op left right =>
    arithmetic.contains op && integral declared left && integral declared right
  | .call callee args => declared.contains callee && integralAll declared args
  | .text _ | .ui .. => false

def integralAll (declared : List String) : List Expr → Bool
  | [] => true
  | e :: es => integral declared e && integralAll declared es

end

def integralTest (declared : List String) : Expr → Bool
  | .binary op left right =>
    (arithmetic.contains op || comparisons.contains op) &&
      integral declared left && integral declared right
  | e => integral declared e

def printed? : Expr → Option Expr
  | .call callee [arg] => if callee = "print" then some arg else none
  | _ => none

mutual

def integralStmt (declared params : List String) : Stmt → Bool
  | .binding name none => !params.contains name
  | .binding name (some init) => !params.contains name && integral declared init
  | .branch test yes none => integralTest declared test && integralBlock declared params yes
  | .branch test yes (some no) =>
    integralTest declared test && integralBlock declared params yes &&
      integralBlock declared params no
  | .loop test body => integralTest declared test && integralBlock declared params body
  | .ret (some value) => integral declared value
  | .expr e => integral declared ((printed? e).getD e)
  | _ => false

def integralBlock (declared params : List String) : List Stmt → Bool
  | [] => true
  | s :: ss => integralStmt declared params s && integralBlock declared params ss

end

def declared (program : Program) : List String :=
  program.functions.map (·.name)

structure Integral (program : Program) : Prop where
  names : (declared program).Nodup
  free : ∀ f ∈ program.functions, f.name ∉ reserved
  params : ∀ f ∈ program.functions, f.params.Nodup
  bodies : ∀ f ∈ program.functions, integralBlock (declared program) f.params f.body = true

theorem Integral.print_notMem {program : Program} (h : Integral program) :
    "print" ∉ declared program := by
  intro hmem
  obtain ⟨f, hf, hname⟩ := List.mem_map.mp hmem
  exact h.free f hf (hname ▸ List.mem_cons_self)

mutual

/-- The code of an expression in a function with these parameters. -/
inductive ExprCode (functions : List Function) (params : List String) :
    Expr → List Instr → Prop where
  | number {x : Float} {n : Int} (h : int32? x = some n) :
      ExprCode functions params (.number x) [.const n]
  | param {name : String} {i : Nat} (h : params[i]? = some name) :
      ExprCode functions params (.name name) [.localGet i]
  | arith {op : Operator} {left right : Expr} {code code' : List Instr} (h : op ∈ arithmetic)
      (hleft : ExprCode functions params left code)
      (hright : ExprCode functions params right code') :
      ExprCode functions params (.binary op left right) (code ++ code' ++ [.arith op])
  | call {f : Function} {args : List Expr} {code : List Instr} (h : f ∈ functions)
      (hcount : args.length = f.params.length) (hargs : ArgsCode functions params args code) :
      ExprCode functions params (.call f.name args) (code ++ [.call f.name])

inductive ArgsCode (functions : List Function) (params : List String) :
    List Expr → List Instr → Prop where
  | nil : ArgsCode functions params [] []
  | cons {e : Expr} {es : List Expr} {code code' : List Instr}
      (hfirst : ExprCode functions params e code) (hrest : ArgsCode functions params es code') :
      ArgsCode functions params (e :: es) (code ++ code')

end

inductive TestCode (functions : List Function) (params : List String) :
    Expr → List Instr → Prop where
  | value {e : Expr} {code : List Instr} (h : ExprCode functions params e code) :
      TestCode functions params e code
  | comparison {op : Operator} {left right : Expr} {code code' : List Instr}
      (h : op ∈ comparisons) (hleft : ExprCode functions params left code)
      (hright : ExprCode functions params right code') :
      TestCode functions params (.binary op left right) (code ++ code' ++ [.arith op])

def round (test body : List Instr) : List Instr :=
  test ++ [.eqz, .jumpIf "break"] ++ body ++ [.jump "continue"]

mutual

inductive StmtCode (functions : List Function) (params : List String) :
    Stmt → List Instr → Prop where
  | binding {name : String} (h : name ∉ params) :
      StmtCode functions params (.binding name none) []
  | init {name : String} {e : Expr} {code : List Instr} (h : name ∉ params)
      (hinit : ExprCode functions params e code) :
      StmtCode functions params (.binding name (some e)) (code ++ [.drop])
  | branch {test : Expr} {yes : List Stmt} {code code' : List Instr}
      (htest : TestCode functions params test code)
      (hyes : BlockCode functions params yes code') :
      StmtCode functions params (.branch test yes none) (code ++ [.branch code' none])
  | branchElse {test : Expr} {yes no : List Stmt} {code code' code'' : List Instr}
      (htest : TestCode functions params test code)
      (hyes : BlockCode functions params yes code')
      (hno : BlockCode functions params no code'') :
      StmtCode functions params (.branch test yes (some no))
        (code ++ [.branch code' (some code'')])
  | loop {test : Expr} {body : List Stmt} {code code' : List Instr}
      (htest : TestCode functions params test code)
      (hbody : BlockCode functions params body code') :
      StmtCode functions params (.loop test body)
        [.block "break" [.loop "continue" (round code code')]]
  | ret {e : Expr} {code : List Instr} (h : ExprCode functions params e code) :
      StmtCode functions params (.ret (some e)) (code ++ [.ret])
  | print {e : Expr} {code : List Instr} (h : ExprCode functions params e code) :
      StmtCode functions params (.expr (.call "print" [e]))
        (code ++ [.call "log"] ++ [.const 0] ++ [.drop])
  | expr {e : Expr} {code : List Instr} (h : ExprCode functions params e code) :
      StmtCode functions params (.expr e) (code ++ [.drop])

inductive BlockCode (functions : List Function) (params : List String) :
    List Stmt → List Instr → Prop where
  | nil : BlockCode functions params [] []
  | cons {stmt : Stmt} {stmts : List Stmt} {code code' : List Instr}
      (hfirst : StmtCode functions params stmt code)
      (hrest : BlockCode functions params stmts code') :
      BlockCode functions params (stmt :: stmts) (code ++ code')

end

theorem exists_of_bind_eq_ok {ε α β : Type} {x : Except ε α} {f : α → Except ε β} {b : β}
    (h : x >>= f = .ok b) : ∃ a, x = .ok a ∧ f a = .ok b := by
  cases x with
  | ok a => exact ⟨a, rfl, h⟩
  | error e => cases h

variable {functions : List Function} {params names : List String}

theorem exists_function_of_arityIn {name : String} {n : Nat} (h : arityIn functions name = some n) :
    ∃ f ∈ functions, f.name = name ∧ f.params.length = n := by
  obtain ⟨f, hf, hn⟩ := Option.map_eq_some_iff.mp h
  have hname := List.find?_some hf
  exact ⟨f, List.mem_reverse.mp (List.mem_of_find?_eq_some hf), beq_iff_eq.mp hname, hn⟩

theorem getElem?_of_idxOf? {name : String} {i : Nat} (h : params.idxOf? name = some i) :
    params[i]? = some name := by
  obtain ⟨hi, hname, -⟩ := List.findIdx?_eq_some_iff_getElem.mp h
  rw [List.getElem?_eq_getElem hi, beq_iff_eq.mp hname]

mutual

theorem exprCode_of_lowerExpr (hprint : "print" ∉ names) (e : Expr) {code : List Instr}
    (hform : integral names e = true)
    (h : lowerExpr ⟨params, arityIn functions⟩ e = .ok code) :
    ExprCode functions params e code := by
  cases e with
  | number x =>
    unfold lowerExpr at h
    split at h
    · cases h
      exact .number ‹_›
    · cases h
  | text t => cases hform
  | name n =>
    unfold lowerExpr at h
    split at h
    · cases h
      exact .param (getElem?_of_idxOf? ‹_›)
    · cases h
  | binary op left right =>
    simp only [integral, Bool.and_eq_true, List.contains_iff_mem] at hform
    unfold lowerExpr at h
    obtain ⟨code, hleft, h⟩ := exists_of_bind_eq_ok h
    obtain ⟨code', hright, ⟨⟩⟩ := exists_of_bind_eq_ok h
    exact .arith hform.1.1 (exprCode_of_lowerExpr hprint left hform.1.2 hleft)
      (exprCode_of_lowerExpr hprint right hform.2 hright)
  | call callee args =>
    simp only [integral, Bool.and_eq_true, List.contains_iff_mem] at hform
    have hcallee : callee ≠ "print" := fun heq => hprint (heq ▸ hform.1)
    unfold lowerExpr at h
    rw [if_neg hcallee] at h
    split at h
    · cases h
    · rename_i expected harity
      split at h
      · obtain ⟨code, hargs, ⟨⟩⟩ := exists_of_bind_eq_ok h
        obtain ⟨f, hf, rfl, hcount⟩ := exists_function_of_arityIn harity
        exact .call hf (by omega) (argsCode_of_lowerArgs hprint args hform.2 hargs)
      · cases h
  | ui widget args children => cases hform

theorem argsCode_of_lowerArgs (hprint : "print" ∉ names) (es : List Expr) {code : List Instr}
    (hform : integralAll names es = true)
    (h : lowerArgs ⟨params, arityIn functions⟩ es = .ok code) :
    ArgsCode functions params es code := by
  cases es with
  | nil =>
    cases h
    exact .nil
  | cons e es =>
    simp only [integralAll, Bool.and_eq_true] at hform
    unfold lowerArgs at h
    obtain ⟨code, hfirst, h⟩ := exists_of_bind_eq_ok h
    obtain ⟨code', hrest, ⟨⟩⟩ := exists_of_bind_eq_ok h
    exact .cons (exprCode_of_lowerExpr hprint e hform.1 hfirst)
      (argsCode_of_lowerArgs hprint es hform.2 hrest)

end

theorem testCode_of_lowerExpr (hprint : "print" ∉ names) {test : Expr} {code : List Instr}
    (hform : integralTest names test = true)
    (h : lowerExpr ⟨params, arityIn functions⟩ test = .ok code) :
    TestCode functions params test code := by
  cases test with
  | binary op left right =>
    simp only [integralTest, Bool.and_eq_true, Bool.or_eq_true, List.contains_iff_mem] at hform
    unfold lowerExpr at h
    obtain ⟨code, hleft, h⟩ := exists_of_bind_eq_ok h
    obtain ⟨code', hright, ⟨⟩⟩ := exists_of_bind_eq_ok h
    have hleft := exprCode_of_lowerExpr hprint left hform.1.2 hleft
    have hright := exprCode_of_lowerExpr hprint right hform.2 hright
    rcases hform.1.1 with hop | hop
    · exact .value (.arith hop hleft hright)
    · exact .comparison hop hleft hright
  | _ => exact .value (exprCode_of_lowerExpr hprint _ hform h)

theorem stmtCode_of_lowerExpr (hprint : "print" ∉ names) {e : Expr} {code : List Instr}
    (hform : integral names ((printed? e).getD e) = true)
    (h : lowerExpr ⟨params, arityIn functions⟩ e = .ok code) :
    StmtCode functions params (.expr e) (code ++ [.drop]) := by
  cases hprinted : printed? e with
  | none =>
    rw [hprinted] at hform
    exact .expr (exprCode_of_lowerExpr hprint e hform h)
  | some arg =>
    rw [hprinted] at hform
    unfold printed? at hprinted
    split at hprinted
    · split at hprinted
      · rename_i hcallee
        cases hprinted
        subst hcallee
        unfold lowerExpr at h
        rw [if_pos rfl] at h
        obtain ⟨code, heach, ⟨⟩⟩ := exists_of_bind_eq_ok h
        unfold lowerEach at heach
        obtain ⟨code, harg, heach⟩ := exists_of_bind_eq_ok heach
        cases heach
        exact .print (exprCode_of_lowerExpr hprint arg hform harg)
      · cases hprinted
    · cases hprinted

mutual

theorem stmtCode_of_lowerStmt (hprint : "print" ∉ names) (stmt : Stmt) {code : List Instr}
    (hform : integralStmt names params stmt = true)
    (h : lowerStmt ⟨params, arityIn functions⟩ stmt = .ok code) :
    StmtCode functions params stmt code := by
  cases stmt with
  | binding name init =>
    cases init with
    | none =>
      cases h
      exact .binding (by simpa [integralStmt] using hform)
    | some init =>
      simp only [integralStmt, Bool.and_eq_true] at hform
      unfold lowerStmt at h
      obtain ⟨code, hinit, ⟨⟩⟩ := exists_of_bind_eq_ok h
      exact .init (by simpa using hform.1) (exprCode_of_lowerExpr hprint init hform.2 hinit)
  | branch test yes no =>
    cases no with
    | none =>
      simp only [integralStmt, Bool.and_eq_true] at hform
      unfold lowerStmt at h
      obtain ⟨code, htest, h⟩ := exists_of_bind_eq_ok h
      obtain ⟨code', hyes, ⟨⟩⟩ := exists_of_bind_eq_ok h
      exact .branch (testCode_of_lowerExpr hprint hform.1 htest)
        (blockCode_of_lowerBlock hprint yes hform.2 hyes)
    | some no =>
      simp only [integralStmt, Bool.and_eq_true] at hform
      unfold lowerStmt at h
      obtain ⟨code, htest, h⟩ := exists_of_bind_eq_ok h
      obtain ⟨code', hyes, h⟩ := exists_of_bind_eq_ok h
      obtain ⟨code'', hno, ⟨⟩⟩ := exists_of_bind_eq_ok h
      exact .branchElse (testCode_of_lowerExpr hprint hform.1.1 htest)
        (blockCode_of_lowerBlock hprint yes hform.1.2 hyes)
        (blockCode_of_lowerBlock hprint no hform.2 hno)
  | loop test body =>
    simp only [integralStmt, Bool.and_eq_true] at hform
    unfold lowerStmt at h
    obtain ⟨code, htest, h⟩ := exists_of_bind_eq_ok h
    obtain ⟨code', hbody, ⟨⟩⟩ := exists_of_bind_eq_ok h
    exact .loop (testCode_of_lowerExpr hprint hform.1 htest)
      (blockCode_of_lowerBlock hprint body hform.2 hbody)
  | ret value =>
    cases value with
    | none => cases hform
    | some value =>
      unfold lowerStmt at h
      obtain ⟨code, hvalue, ⟨⟩⟩ := exists_of_bind_eq_ok h
      exact .ret (exprCode_of_lowerExpr hprint value hform hvalue)
  | expr e =>
    unfold lowerStmt at h
    obtain ⟨code, he, ⟨⟩⟩ := exists_of_bind_eq_ok h
    exact stmtCode_of_lowerExpr hprint hform he
  | _ => cases hform

theorem blockCode_of_lowerBlock (hprint : "print" ∉ names) (stmts : List Stmt) {code : List Instr}
    (hform : integralBlock names params stmts = true)
    (h : lowerBlock ⟨params, arityIn functions⟩ stmts = .ok code) :
    BlockCode functions params stmts code := by
  cases stmts with
  | nil =>
    cases h
    exact .nil
  | cons stmt stmts =>
    simp only [integralBlock, Bool.and_eq_true] at hform
    unfold lowerBlock at h
    obtain ⟨code, hfirst, h⟩ := exists_of_bind_eq_ok h
    obtain ⟨code', hrest, ⟨⟩⟩ := exists_of_bind_eq_ok h
    exact .cons (stmtCode_of_lowerStmt hprint stmt hform.1 hfirst)
      (blockCode_of_lowerBlock hprint stmts hform.2 hrest)

end

theorem lookup_imports_of_notMem {name : String} (h : name ∉ imports.map (·.1)) :
    imports.lookup name = none := by
  rw [List.lookup_eq_none_iff]
  intro entry hentry
  rw [bne_iff_ne]
  rintro rfl
  exact h (List.mem_map_of_mem hentry)

theorem lookup_imports {name : String} (h : name ∉ reserved) : imports.lookup name = none :=
  lookup_imports_of_notMem fun hmem => h (List.mem_cons_of_mem _ hmem)

theorem forall₂_of_mapM {ε α β : Type} {f : α → Except ε β} {as : List α} {bs : List β}
    (h : as.mapM f = .ok bs) : List.Forall₂ (fun a b => f a = .ok b) as bs := by
  induction as generalizing bs with
  | nil =>
    cases h
    exact .nil
  | cons a as ih =>
    rw [List.mapM_cons] at h
    obtain ⟨b, hb, h⟩ := exists_of_bind_eq_ok h
    obtain ⟨bs, hbs, ⟨⟩⟩ := exists_of_bind_eq_ok h
    exact .cons hb (ih hbs)

theorem find?_of_forall₂ {funcs : List Func} {rest : List Function} {f : Function}
    (h : List.Forall₂ (fun f func => lowerFunction (arityIn functions) f = .ok func) rest funcs)
    (hnames : (rest.map (·.name)).Nodup) (hf : f ∈ rest) :
    ∃ func, funcs.find? (·.name == f.name) = some func ∧
      lowerFunction (arityIn functions) f = .ok func := by
  induction h with
  | nil => cases hf
  | @cons g func rest funcs hg _ ih =>
    have hname : func.name = g.name := by
      obtain ⟨_, -, ⟨⟩⟩ := exists_of_bind_eq_ok hg
      rfl
    rw [List.map_cons, List.nodup_cons] at hnames
    rcases List.mem_cons.mp hf with rfl | hf
    · exact ⟨func, List.find?_cons_of_pos (by simp [hname]), hg⟩
    · have hne : g.name ≠ f.name := fun heq =>
        hnames.1 (heq ▸ List.mem_map_of_mem hf)
      rw [List.find?_cons_of_neg (by simpa [hname] using hne)]
      exact ih hnames.2 hf

/-- A module has one function for each function of the program, with the code of its body. -/
theorem exists_blockCode_of_ofProgram {program : Program} {module : Module}
    (hemit : Module.ofProgram program = .ok module) (hprogram : Integral program) {f : Function}
    (hf : f ∈ program.functions) :
    ∃ code, BlockCode program.functions f.params f.body code ∧
      module.funcs.find? (·.name == f.name) =
        some ⟨f.name, f.params.length, code ++ [.const 0]⟩ := by
  obtain ⟨funcs, hfuncs, ⟨⟩⟩ := exists_of_bind_eq_ok hemit
  obtain ⟨func, hfind, hlower⟩ := find?_of_forall₂ (forall₂_of_mapM hfuncs) hprogram.names hf
  obtain ⟨code, hblock, ⟨⟩⟩ := exists_of_bind_eq_ok hlower
  exact ⟨code, blockCode_of_lowerBlock hprogram.print_notMem f.body (hprogram.bodies f hf) hblock,
    hfind⟩

end Splice.Wat
