import Splice.Emit.Target
import Splice.Proofs.Emit.Fragment

/-! What lowering can do, one rule for each form of the tree that has code.  The rules are read off
the lowering once; what is said about emitted code, or about the trees that have code, follows from
them. -/
namespace Splice.Wat

mutual

inductive ExprLowers (ctx : Context) : Expr → List Instr → Prop where
  | number {x : Float} {n : Int} (h : int32? x = some n) : ExprLowers ctx (.number x) [.const n]
  | param {name : String} {i : Nat} (h : ctx.params.idxOf? name = some i) :
      ExprLowers ctx (.name name) [.localGet i]
  | binary {op : Operator} {left right : Expr} {code code' : List Instr}
      (hleft : ExprLowers ctx left code) (hright : ExprLowers ctx right code') :
      ExprLowers ctx (.binary op left right) (code ++ code' ++ [.arith op])
  | print {args : List Expr} {code : List Instr} (h : EachLowers ctx (.call "log") args code) :
      ExprLowers ctx (.call "print" args) (code ++ [.const 0])
  | call {callee : String} {args : List Expr} {code : List Instr} (hcallee : callee ≠ "print")
      (harity : ctx.arity? callee = some args.length) (hargs : ArgsLower ctx args code) :
      ExprLowers ctx (.call callee args) (code ++ [.call callee])
  | ui {widget : Widget} {args children : List Expr} {code : List Instr}
      (h : EachLowers ctx .drop children code) :
      ExprLowers ctx (.ui widget args children) (widgetCode widget ++ code)

/-- The code of arguments, which stay on the stack. -/
inductive ArgsLower (ctx : Context) : List Expr → List Instr → Prop where
  | nil : ArgsLower ctx [] []
  | cons {e : Expr} {es : List Expr} {code code' : List Instr} (hfirst : ExprLowers ctx e code)
      (hrest : ArgsLower ctx es code') : ArgsLower ctx (e :: es) (code ++ code')

/-- The code of expressions whose values are used up one by one. -/
inductive EachLowers (ctx : Context) : Instr → List Expr → List Instr → Prop where
  | nil {use : Instr} : EachLowers ctx use [] []
  | cons {use : Instr} {e : Expr} {es : List Expr} {code code' : List Instr}
      (hfirst : ExprLowers ctx e code) (hrest : EachLowers ctx use es code') :
      EachLowers ctx use (e :: es) (code ++ use :: code')

end

def remark? : Stmt → Option String
  | .generate name _ _ => some ("generate fn " ++ name ++ ": not compiled")
  | .optimize _ => some "ai.optimize block: not compiled"
  | .ask _ _ => some "ai statement: not compiled"
  | .load library => some ("ai.import " ++ library ++ ": not compiled")
  | .search _ => some "ai.search: not compiled"
  | .inspect _ => some "ai.inspect: not compiled"
  | _ => none

mutual

inductive StmtLowers (ctx : Context) : Stmt → List Instr → Prop where
  | binding {name : String} : StmtLowers ctx (.binding name none) []
  | init {name : String} {e : Expr} {code : List Instr} (h : ExprLowers ctx e code) :
      StmtLowers ctx (.binding name (some e)) (code ++ [.drop])
  | branch {test : Expr} {yes : List Stmt} {code code' : List Instr}
      (htest : ExprLowers ctx test code) (hyes : BlockLowers ctx yes code') :
      StmtLowers ctx (.branch test yes none) (code ++ [.branch code' none])
  | branchElse {test : Expr} {yes no : List Stmt} {code code' code'' : List Instr}
      (htest : ExprLowers ctx test code) (hyes : BlockLowers ctx yes code')
      (hno : BlockLowers ctx no code'') :
      StmtLowers ctx (.branch test yes (some no)) (code ++ [.branch code' (some code'')])
  | loop {test : Expr} {body : List Stmt} {code code' : List Instr}
      (htest : ExprLowers ctx test code) (hbody : BlockLowers ctx body code') :
      StmtLowers ctx (.loop test body) [.block "break" [.loop "continue" (round code code')]]
  | retNone : StmtLowers ctx (.ret none) [.const 0, .ret]
  | ret {e : Expr} {code : List Instr} (h : ExprLowers ctx e code) :
      StmtLowers ctx (.ret (some e)) (code ++ [.ret])
  | expr {e : Expr} {code : List Instr} (h : ExprLowers ctx e code) :
      StmtLowers ctx (.expr e) (code ++ [.drop])
  | remark {s : Stmt} {text : String} (h : remark? s = some text) :
      StmtLowers ctx s [.comment text]

inductive BlockLowers (ctx : Context) : List Stmt → List Instr → Prop where
  | nil : BlockLowers ctx [] []
  | cons {s : Stmt} {ss : List Stmt} {code code' : List Instr} (hfirst : StmtLowers ctx s code)
      (hrest : BlockLowers ctx ss code') : BlockLowers ctx (s :: ss) (code ++ code')

end

variable {ctx : Context}

mutual

theorem exprLowers_of_lowerExpr (e : Expr) {code : List Instr} (h : lowerExpr ctx e = .ok code) :
    ExprLowers ctx e code := by
  cases e with
  | number x =>
    unfold lowerExpr at h
    split at h
    · cases h
      exact .number ‹_›
    · cases h
  | text t => cases h
  | name n =>
    unfold lowerExpr at h
    split at h
    · cases h
      exact .param ‹_›
    · cases h
  | binary op left right =>
    unfold lowerExpr at h
    obtain ⟨code, hleft, h⟩ := exists_of_bind_eq_ok h
    obtain ⟨code', hright, ⟨⟩⟩ := exists_of_bind_eq_ok h
    exact .binary (exprLowers_of_lowerExpr left hleft) (exprLowers_of_lowerExpr right hright)
  | call callee args =>
    unfold lowerExpr at h
    by_cases hcallee : callee = "print"
    · rw [if_pos hcallee] at h
      obtain ⟨code, heach, ⟨⟩⟩ := exists_of_bind_eq_ok h
      subst hcallee
      exact .print (eachLowers_of_lowerEach args heach)
    · rw [if_neg hcallee] at h
      split at h
      · cases h
      · rename_i expected harity
        split at h
        · rename_i hcount
          obtain ⟨code, hargs, ⟨⟩⟩ := exists_of_bind_eq_ok h
          exact .call hcallee (hcount ▸ harity) (argsLower_of_lowerArgs args hargs)
        · cases h
  | ui widget args children =>
    unfold lowerExpr at h
    obtain ⟨code, heach, ⟨⟩⟩ := exists_of_bind_eq_ok h
    exact .ui (eachLowers_of_lowerEach children heach)

theorem argsLower_of_lowerArgs (es : List Expr) {code : List Instr}
    (h : lowerArgs ctx es = .ok code) : ArgsLower ctx es code := by
  cases es with
  | nil =>
    cases h
    exact .nil
  | cons e es =>
    unfold lowerArgs at h
    obtain ⟨code, hfirst, h⟩ := exists_of_bind_eq_ok h
    obtain ⟨code', hrest, ⟨⟩⟩ := exists_of_bind_eq_ok h
    exact .cons (exprLowers_of_lowerExpr e hfirst) (argsLower_of_lowerArgs es hrest)

theorem eachLowers_of_lowerEach {use : Instr} (es : List Expr) {code : List Instr}
    (h : lowerEach ctx use es = .ok code) : EachLowers ctx use es code := by
  cases es with
  | nil =>
    cases h
    exact .nil
  | cons e es =>
    unfold lowerEach at h
    obtain ⟨code, hfirst, h⟩ := exists_of_bind_eq_ok h
    obtain ⟨code', hrest, ⟨⟩⟩ := exists_of_bind_eq_ok h
    exact .cons (exprLowers_of_lowerExpr e hfirst) (eachLowers_of_lowerEach es hrest)

end

mutual

theorem stmtLowers_of_lowerStmt (s : Stmt) {code : List Instr} (h : lowerStmt ctx s = .ok code) :
    StmtLowers ctx s code := by
  cases s with
  | function name params body => cases h
  | binding name init =>
    cases init with
    | none =>
      cases h
      exact .binding
    | some init =>
      unfold lowerStmt at h
      obtain ⟨code, hinit, ⟨⟩⟩ := exists_of_bind_eq_ok h
      exact .init (exprLowers_of_lowerExpr init hinit)
  | branch test yes no =>
    cases no with
    | none =>
      unfold lowerStmt at h
      obtain ⟨code, htest, h⟩ := exists_of_bind_eq_ok h
      obtain ⟨code', hyes, ⟨⟩⟩ := exists_of_bind_eq_ok h
      exact .branch (exprLowers_of_lowerExpr test htest) (blockLowers_of_lowerBlock yes hyes)
    | some no =>
      unfold lowerStmt at h
      obtain ⟨code, htest, h⟩ := exists_of_bind_eq_ok h
      obtain ⟨code', hyes, h⟩ := exists_of_bind_eq_ok h
      obtain ⟨code'', hno, ⟨⟩⟩ := exists_of_bind_eq_ok h
      exact .branchElse (exprLowers_of_lowerExpr test htest) (blockLowers_of_lowerBlock yes hyes)
        (blockLowers_of_lowerBlock no hno)
  | loop test body =>
    unfold lowerStmt at h
    obtain ⟨code, htest, h⟩ := exists_of_bind_eq_ok h
    obtain ⟨code', hbody, ⟨⟩⟩ := exists_of_bind_eq_ok h
    exact .loop (exprLowers_of_lowerExpr test htest) (blockLowers_of_lowerBlock body hbody)
  | ret value =>
    cases value with
    | none =>
      cases h
      exact .retNone
    | some value =>
      unfold lowerStmt at h
      obtain ⟨code, hvalue, ⟨⟩⟩ := exists_of_bind_eq_ok h
      exact .ret (exprLowers_of_lowerExpr value hvalue)
  | expr e =>
    unfold lowerStmt at h
    obtain ⟨code, he, ⟨⟩⟩ := exists_of_bind_eq_ok h
    exact .expr (exprLowers_of_lowerExpr e he)
  | _ =>
    cases h
    exact .remark rfl

theorem blockLowers_of_lowerBlock (ss : List Stmt) {code : List Instr}
    (h : lowerBlock ctx ss = .ok code) : BlockLowers ctx ss code := by
  cases ss with
  | nil =>
    cases h
    exact .nil
  | cons s ss =>
    unfold lowerBlock at h
    obtain ⟨code, hfirst, h⟩ := exists_of_bind_eq_ok h
    obtain ⟨code', hrest, ⟨⟩⟩ := exists_of_bind_eq_ok h
    exact .cons (stmtLowers_of_lowerStmt s hfirst) (blockLowers_of_lowerBlock ss hrest)

end

def contextOf (program : Program) (f : Function) : Context :=
  ⟨f.params, arityIn program.functions⟩

theorem exists_of_toBool {ε α : Type} {x : Except ε α} (h : x.toBool = true) :
    ∃ a, x = .ok a := by
  cases x with
  | ok a => exact ⟨a, rfl⟩
  | error e => cases h

theorem exists_module_of_emit {program : Program} {text : String}
    (h : Target.wat.emit program = .ok text) :
    ∃ module, Module.ofProgram program = .ok module ∧ module.render = text := by
  unfold Target.emit at h
  cases hmodule : Module.ofProgram program with
  | error fault =>
    rw [hmodule] at h
    cases h
  | ok module =>
    rw [hmodule] at h
    cases h
    exact ⟨module, rfl, rfl⟩

theorem emit_of_ofProgram {program : Program} {module : Module}
    (h : Module.ofProgram program = .ok module) : Target.wat.emit program = .ok module.render := by
  unfold Target.emit
  rw [h]
  rfl

/-- The functions of a module are those of the program, in order, each with the code of its body. -/
theorem funcs_of_ofProgram {program : Program} {module : Module}
    (h : Module.ofProgram program = .ok module) :
    List.Forall₂ (fun (f : Function) (func : Func) => ∃ code,
        BlockLowers (contextOf program f) f.body code ∧
          func = ⟨f.name, f.params.length, code ++ [.const 0]⟩)
      program.functions module.funcs := by
  obtain ⟨funcs, hfuncs, ⟨⟩⟩ := exists_of_bind_eq_ok h
  refine (forall₂_of_mapM hfuncs).imp fun f func hlower => ?_
  obtain ⟨code, hbody, ⟨⟩⟩ := exists_of_bind_eq_ok hlower
  exact ⟨code, blockLowers_of_lowerBlock f.body hbody, rfl⟩

theorem exists_of_forall₂ {α β : Type} {R : α → β → Prop} {as : List α} {bs : List β}
    (h : List.Forall₂ R as bs) {b : β} (hb : b ∈ bs) : ∃ a ∈ as, R a b := by
  induction h with
  | nil => cases hb
  | cons hab _ ih =>
    rcases List.mem_cons.mp hb with rfl | hb
    · exact ⟨_, List.mem_cons_self, hab⟩
    · obtain ⟨a, ha, hrel⟩ := ih hb
      exact ⟨a, List.mem_cons_of_mem _ ha, hrel⟩

theorem exists_of_mem_funcs {program : Program} {module : Module} {func : Func}
    (h : Module.ofProgram program = .ok module) (hfunc : func ∈ module.funcs) :
    ∃ f ∈ program.functions, ∃ code, BlockLowers (contextOf program f) f.body code ∧
      func = ⟨f.name, f.params.length, code ++ [.const 0]⟩ :=
  exists_of_forall₂ (funcs_of_ofProgram h) hfunc

end Splice.Wat
