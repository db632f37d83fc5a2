import Splice.Proofs.Emit.Lowering

/-! Which programs are refused.  Lowering comes to the nodes of a function in a fixed order, each
before the nodes inside it; a program without code is refused for the first node that has none. -/
namespace Splice.Wat

/-- A part of a function that lowering comes to. -/
inductive Node where
  | expr (e : Expr)
  | stmt (s : Stmt)

mutual

/-- An expression and the expressions inside it, but for the arguments of widgets. -/
def exprNodes : Expr → List Node
  | .binary op left right => .expr (.binary op left right) :: (exprNodes left ++ exprNodes right)
  | .call callee args => .expr (.call callee args) :: exprsNodes args
  | .ui widget args children => .expr (.ui widget args children) :: exprsNodes children
  | .name name => [.expr (.name name)]
  | .number value => [.expr (.number value)]
  | .text value => [.expr (.text value)]

def exprsNodes : List Expr → List Node
  | [] => []
  | e :: es => exprNodes e ++ exprsNodes es

end

mutual

/-- A statement and what is inside it, but for statements of the collaborator and for functions. -/
def stmtNodes : Stmt → List Node
  | .binding name (some init) => .stmt (.binding name (some init)) :: exprNodes init
  | .branch test yes none => .stmt (.branch test yes none) :: (exprNodes test ++ blockNodes yes)
  | .branch test yes (some no) =>
    .stmt (.branch test yes (some no)) :: (exprNodes test ++ (blockNodes yes ++ blockNodes no))
  | .loop test body => .stmt (.loop test body) :: (exprNodes test ++ blockNodes body)
  | .ret (some value) => .stmt (.ret (some value)) :: exprNodes value
  | .expr e => .stmt (.expr e) :: exprNodes e
  | s => [.stmt s]

def blockNodes : List Stmt → List Node
  | [] => []
  | s :: ss => stmtNodes s ++ blockNodes ss

end

def Node.fault? (ctx : Context) : Node → Option EmitFault
  | .expr (.number x) => if (int32? x).isSome then none else some (.numberOutOfRange x)
  | .expr (.text t) => some (.unsupported (.textLiteral t))
  | .expr (.name n) => if n ∈ ctx.params then none else some (.unsupported (.variableRead n))
  | .expr (.call callee args) =>
    if callee = "print" then none
    else
      match ctx.arity? callee with
      | none => some (.unsupported (.undeclaredCall callee))
      | some expected =>
        if expected = args.length then none
        else some (.unsupported (.arity callee args.length expected))
  | .stmt (.function name _ _) => some (.unsupported (.nestedFunction name))
  | _ => none

def refusal {α : Type} : Except EmitFault α → Option EmitFault
  | .ok _ => none
  | .error fault => some fault

@[simp] theorem refusal_throw {α : Type} (fault : EmitFault) :
    refusal (throw fault : Except EmitFault α) = some fault :=
  rfl

theorem refusal_bind {α β : Type} {x : Except EmitFault α} {f : α → Except EmitFault β}
    {later : Option EmitFault} (h : ∀ a, refusal (f a) = later) :
    refusal (x >>= f) = (refusal x).or later := by
  cases x with
  | ok a => exact h a
  | error fault => rfl

theorem refusal_bind_pure {α β : Type} {x : Except EmitFault α} {f : α → β} :
    refusal (x >>= fun a => pure (f a)) = refusal x := by
  cases x <;> rfl

theorem refusal_mapM {α β : Type} (f : α → Except EmitFault β) (as : List α) :
    refusal (as.mapM f) = as.findSome? fun a => refusal (f a) := by
  induction as with
  | nil => rfl
  | cons a as ih =>
    rw [List.mapM_cons, List.findSome?_cons, refusal_bind fun b => refusal_bind_pure, ih]
    cases refusal (f a) <;> rfl

section

variable {ctx : Context}

mutual

theorem refusal_lowerExpr (e : Expr) :
    refusal (lowerExpr ctx e) = (exprNodes e).findSome? (Node.fault? ctx) := by
  match e with
  | .number x =>
    unfold lowerExpr
    cases hx : int32? x <;> simp [exprNodes, Node.fault?, hx, refusal]
  | .text t => rfl
  | .name n =>
    unfold lowerExpr
    cases hn : ctx.params.idxOf? n with
    | none =>
      have hmem : n ∉ ctx.params := List.idxOf?_eq_none_iff.mp hn
      simp [exprNodes, Node.fault?, hmem, refusal]
    | some i =>
      have hmem : n ∈ ctx.params := by
        by_contra hmem
        rw [List.idxOf?_eq_none_iff.mpr hmem] at hn
        cases hn
      simp [exprNodes, Node.fault?, hmem, refusal]
  | .binary op left right =>
    unfold lowerExpr exprNodes
    rw [refusal_bind fun _ => refusal_bind_pure, refusal_lowerExpr left, refusal_lowerExpr right,
      ← List.findSome?_append]
    rfl
  | .call callee args =>
    -- A call is looked at before its arguments, which is why it is the first of its nodes.
    unfold lowerExpr exprNodes
    by_cases hcallee : callee = "print"
    · rw [if_pos hcallee, refusal_bind_pure, refusal_lowerEach args]
      simp [Node.fault?, hcallee]
    · rw [if_neg hcallee]
      cases harity : ctx.arity? callee with
      | none => simp [Node.fault?, hcallee, harity]
      | some expected =>
        by_cases hcount : expected = args.length
        · simp only [if_pos hcount]
          rw [refusal_bind_pure, refusal_lowerArgs args]
          simp [Node.fault?, hcallee, harity, hcount]
        · simp [Node.fault?, hcallee, harity, hcount]
  | .ui widget args children =>
    unfold lowerExpr exprNodes
    rw [refusal_bind_pure, refusal_lowerEach children]
    rfl

theorem refusal_lowerArgs (es : List Expr) :
    refusal (lowerArgs ctx es) = (exprsNodes es).findSome? (Node.fault? ctx) := by
  match es with
  | [] => rfl
  | e :: es =>
    unfold lowerArgs exprsNodes
    rw [refusal_bind fun _ => refusal_bind_pure, refusal_lowerExpr e, refusal_lowerArgs es,
      List.findSome?_append]

theorem refusal_lowerEach {use : Instr} (es : List Expr) :
    refusal (lowerEach ctx use es) = (exprsNodes es).findSome? (Node.fault? ctx) := by
  match es with
  | [] => rfl
  | e :: es =>
    unfold lowerEach exprsNodes
    rw [refusal_bind fun _ => refusal_bind_pure, refusal_lowerExpr e, refusal_lowerEach es,
      List.findSome?_append]

end

mutual

theorem refusal_lowerStmt (s : Stmt) :
    refusal (lowerStmt ctx s) = (stmtNodes s).findSome? (Node.fault? ctx) := by
  match s with
  | .binding name (some init) =>
    unfold lowerStmt stmtNodes
    rw [refusal_bind_pure, refusal_lowerExpr init]
    rfl
  | .branch test yes none =>
    unfold lowerStmt stmtNodes
    rw [refusal_bind fun _ => refusal_bind_pure, refusal_lowerExpr test, refusal_lowerBlock yes,
      ← List.findSome?_append]
    rfl
  | .branch test yes (some no) =>
    unfold lowerStmt stmtNodes
    rw [refusal_bind fun _ => refusal_bind fun _ => refusal_bind_pure, refusal_lowerExpr test,
      refusal_lowerBlock yes, refusal_lowerBlock no, ← List.findSome?_append,
      ← List.findSome?_append]
    rfl
  | .loop test body =>
    unfold lowerStmt stmtNodes
    rw [refusal_bind fun _ => refusal_bind_pure, refusal_lowerExpr test, refusal_lowerBlock body,
      ← List.findSome?_append]
    rfl
  | .ret (some value) =>
    unfold lowerStmt stmtNodes
    rw [refusal_bind_pure, refusal_lowerExpr value]
    rfl
  | .expr e =>
    unfold lowerStmt stmtNodes
    rw [refusal_bind_pure, refusal_lowerExpr e]
    rfl
  | .function .. | .binding _ none | .ret none | .generate .. | .optimize _ | .ask .. | .load _
  | .search _ | .inspect _ => rfl

theorem refusal_lowerBlock (ss : List Stmt) :
    refusal (lowerBlock ctx ss) = (blockNodes ss).findSome? (Node.fault? ctx) := by
  match ss with
  | [] => rfl
  | s :: ss =>
    unfold lowerBlock blockNodes
    rw [refusal_bind fun _ => refusal_bind_pure, refusal_lowerStmt s, refusal_lowerBlock ss,
      List.findSome?_append]

end

end

/-- A program is refused for the first node without code of its first function that has one. -/
theorem refusal_emit (program : Program) :
    refusal (Target.wat.emit program) =
      program.functions.findSome? fun f =>
        (blockNodes f.body).findSome? (Node.fault? (contextOf program f)) := by
  have hmap : refusal (Target.wat.emit program) = refusal (Module.ofProgram program) := by
    unfold Target.emit
    cases Module.ofProgram program <;> rfl
  have hfunction (f : Function) : refusal (lowerFunction (arityIn program.functions) f) =
      (blockNodes f.body).findSome? (Node.fault? (contextOf program f)) := by
    unfold lowerFunction
    rw [refusal_bind_pure, refusal_lowerBlock]
    rfl
  rw [hmap, Module.ofProgram, refusal_bind_pure, refusal_mapM]
  simp only [hfunction]

theorem exists_node_of_refusal {program : Program} {fault : EmitFault}
    (h : Target.wat.emit program = .error fault) : ∃ f ∈ program.functions,
      ∃ node ∈ blockNodes f.body, node.fault? (contextOf program f) = some fault := by
  have hrefusal := refusal_emit program
  rw [h] at hrefusal
  obtain ⟨f, hf, hnodes⟩ := List.exists_of_findSome?_eq_some hrefusal.symm
  obtain ⟨node, hnode, hfault⟩ := List.exists_of_findSome?_eq_some hnodes
  exact ⟨f, hf, node, hnode, hfault⟩

theorem fault?_eq_none_of_emit {program : Program} {text : String}
    (h : Target.wat.emit program = .ok text) {f : Function} (hf : f ∈ program.functions)
    {node : Node} (hnode : node ∈ blockNodes f.body) :
    node.fault? (contextOf program f) = none := by
  have hrefusal := refusal_emit program
  rw [h] at hrefusal
  exact List.findSome?_eq_none_iff.mp (List.findSome?_eq_none_iff.mp hrefusal.symm f hf) node hnode

end Splice.Wat
