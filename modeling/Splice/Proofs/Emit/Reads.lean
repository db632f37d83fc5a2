import Splice.Proofs.Emit.Listing
import Splice.Proofs.Emit.Refusals
import Splice.Proofs.Emit.Related
import Splice.Proofs.Tree.RoundTrip

/-! What a function may read.  Only parameters have storage on the machine: a function that reads
another name is refused, and every read that has code gets the first parameter of its name.  That is
not yet the variable of the program: a parameter may come twice, and a binding may give the name
another value. -/
namespace Splice.Wat

def Node.read? : Node → Option String
  | .expr (.name n) => some n
  | _ => none

def Node.bound? : Node → Option String
  | .stmt (.binding name _) => some name
  | _ => none

def Node.literal? : Node → Option Float
  | .expr (.number x) => some x
  | _ => none

/-- The names that a function reads where it is lowered, in the order of its code. -/
def reads (f : Function) : List String :=
  (blockNodes f.body).filterMap Node.read?

def bindings (f : Function) : List String :=
  (blockNodes f.body).filterMap Node.bound?

def literals (f : Function) : List Float :=
  (blockNodes f.body).filterMap Node.literal?

def Op.local? : Op → Option Nat
  | .localGet index => some index
  | _ => none

def localsRead (code : List Instr) : List Nat :=
  (opsAll code).filterMap Op.local?

@[simp] theorem localsRead_append (code code' : List Instr) :
    localsRead (code ++ code') = localsRead code ++ localsRead code' := by
  rw [localsRead, opsAll_append, List.filterMap_append, localsRead, localsRead]

theorem localsRead_widgetCode (widget : Widget) : localsRead (widgetCode widget) = [] := by
  cases widget <;> rfl

theorem localsRead_branch (yes : List Instr) :
    localsRead [.branch yes none] = localsRead yes := by
  simp [localsRead, opsAll, Instr.ops, List.filterMap_cons, Op.local?]

theorem localsRead_branchElse (yes no : List Instr) :
    localsRead [.branch yes (some no)] = localsRead yes ++ localsRead no := by
  simp [localsRead, opsAll, Instr.ops, List.filterMap_cons, Op.local?]

theorem localsRead_loop (test body : List Instr) :
    localsRead [.block "break" [.loop "continue" (round test body)]] =
      localsRead test ++ localsRead body := by
  simp [localsRead, opsAll, Instr.ops, List.filterMap_cons, Op.local?, round]

section

variable {ctx : Context}

def firstParams (ctx : Context) (nodes : List Node) : List Nat :=
  (nodes.filterMap Node.read?).map ctx.params.idxOf

@[simp] theorem firstParams_append (nodes nodes' : List Node) :
    firstParams ctx (nodes ++ nodes') = firstParams ctx nodes ++ firstParams ctx nodes' := by
  rw [firstParams, List.filterMap_append, List.map_append, firstParams, firstParams]

theorem firstParams_cons {node : Node} (h : node.read? = none) (nodes : List Node) :
    firstParams ctx (node :: nodes) = firstParams ctx nodes := by
  rw [firstParams, List.filterMap_cons_none h, firstParams]

mutual

theorem ExprLowers.localsRead_eq {e : Expr} {code : List Instr} (h : ExprLowers ctx e code) :
    localsRead code = firstParams ctx (exprNodes e) := by
  match h with
  | .number _ => rfl
  | .param h =>
    show [_] = [ctx.params.idxOf _]
    rw [List.idxOf_eq_getD_idxOf?, h, Option.getD_some]
  | .binary hleft hright =>
    rw [exprNodes, firstParams_cons rfl, firstParams_append, localsRead_append, localsRead_append,
      hleft.localsRead_eq, hright.localsRead_eq]
    exact List.append_nil _
  | .print h =>
    rw [exprNodes, firstParams_cons rfl, localsRead_append, h.localsRead_eq rfl]
    exact List.append_nil _
  | .call _ _ hargs =>
    rw [exprNodes, firstParams_cons rfl, localsRead_append, hargs.localsRead_eq]
    exact List.append_nil _
  | .ui h =>
    rw [exprNodes, firstParams_cons rfl, localsRead_append, localsRead_widgetCode,
      h.localsRead_eq rfl, List.nil_append]

theorem ArgsLower.localsRead_eq {es : List Expr} {code : List Instr} (h : ArgsLower ctx es code) :
    localsRead code = firstParams ctx (exprsNodes es) := by
  match h with
  | .nil => rfl
  | .cons hfirst hrest =>
    rw [exprsNodes, firstParams_append, localsRead_append, hfirst.localsRead_eq,
      hrest.localsRead_eq]

theorem EachLowers.localsRead_eq {use : Instr} {es : List Expr} {code : List Instr}
    (h : EachLowers ctx use es code) (huse : localsRead [use] = []) :
    localsRead code = firstParams ctx (exprsNodes es) := by
  match h with
  | .nil => rfl
  | .cons hfirst hrest =>
    rw [exprsNodes, firstParams_append, List.append_cons, localsRead_append, localsRead_append,
      huse, List.append_nil, hfirst.localsRead_eq, hrest.localsRead_eq huse]

end

mutual

theorem StmtLowers.localsRead_eq {s : Stmt} {code : List Instr} (h : StmtLowers ctx s code) :
    localsRead code = firstParams ctx (stmtNodes s) := by
  match h with
  | .binding => rfl
  | .retNone => rfl
  | .init h | .ret h | .expr h =>
    rw [stmtNodes, firstParams_cons rfl, localsRead_append, h.localsRead_eq]
    exact List.append_nil _
  | .branch htest hyes =>
    rw [stmtNodes, firstParams_cons rfl, firstParams_append, localsRead_append,
      localsRead_branch, htest.localsRead_eq, hyes.localsRead_eq]
  | .branchElse htest hyes hno =>
    rw [stmtNodes, firstParams_cons rfl, firstParams_append, firstParams_append,
      localsRead_append, localsRead_branchElse, htest.localsRead_eq, hyes.localsRead_eq,
      hno.localsRead_eq]
  | .loop htest hbody =>
    rw [stmtNodes, firstParams_cons rfl, firstParams_append, localsRead_loop,
      htest.localsRead_eq, hbody.localsRead_eq]
  | .remark h =>
    cases s with
    | generate | optimize | ask | load | search | inspect => rfl
    | _ => cases h

theorem BlockLowers.localsRead_eq {ss : List Stmt} {code : List Instr}
    (h : BlockLowers ctx ss code) : localsRead code = firstParams ctx (blockNodes ss) := by
  match h with
  | .nil => rfl
  | .cons hfirst hrest =>
    rw [blockNodes, firstParams_append, localsRead_append, hfirst.localsRead_eq,
      hrest.localsRead_eq]

end

end

theorem mem_literals_of_fault {program : Program} {f : Function} {node : Node} {x : Float}
    (hnode : node ∈ blockNodes f.body)
    (h : node.fault? (contextOf program f) = some (.numberOutOfRange x)) :
    x ∈ literals f ∧ int32? x = none := by
  unfold Node.fault? at h
  split at h
  · split at h
    · cases h
    · rename_i hnone
      cases h
      exact ⟨List.mem_filterMap.mpr ⟨_, hnode, rfl⟩, Option.not_isSome_iff_eq_none.mp hnone⟩
  -- No other node is refused for a number.
  all_goals grind

theorem mem_params_of_mem_reads {program : Program} {text : String}
    (h : Target.wat.emit program = .ok text) {f : Function} (hf : f ∈ program.functions)
    {n : String} (hn : n ∈ reads f) : n ∈ f.params := by
  obtain ⟨node, hnode, hread⟩ := List.mem_filterMap.mp hn
  have hfault := fault?_eq_none_of_emit h hf hnode
  unfold Node.read? at hread
  split at hread
  · cases hread
    by_contra hmem
    simp [Node.fault?, contextOf, hmem] at hfault
  · cases hread

/-- Where a parameter comes once, a call binds its name to the argument at its place. -/
theorem get?_bind_of_count {params : List String} {name : String} {args : List Value}
    {scope : Scope} (hcount : params.count name = 1) (hargs : args.length = params.length) :
    (Frames.bind scope params args).get? name = args[params.idxOf name]? := by
  induction params generalizing scope args with
  | nil => simp at hcount
  | cons param params ih =>
    cases args with
    | nil => cases hargs
    | cons arg args =>
      by_cases hname : param = name
      · subst hname
        have hnot : param ∉ params := by
          rw [List.count_cons_self] at hcount
          exact List.count_eq_zero.mp (by omega)
        rw [List.idxOf_cons_self]
        exact (get?_bind_of_notMem hnot).trans (scope.get?_put_self _ _)
      · rw [List.count_cons_of_ne hname] at hcount
        rw [List.idxOf_cons_ne _ hname]
        exact ih hcount (Nat.succ.inj hargs)

/-- What holds of the reads of a function and of its code. -/
structure ReadsParams (f : Function) (func : Func) : Prop where
  params : ∀ n ∈ reads f, n ∈ f.params
  /-- Each read gets the first parameter of its name. -/
  code : localsRead func.body = (reads f).map f.params.idxOf
  /-- That is what the name means at the start of a call, if the parameter comes once. -/
  argument : ∀ n, f.params.count n = 1 → ∀ (frames : Frames) (args : List Value),
    args.length = f.params.length →
      (frames.pushCall f.params args).get? n = args[f.params.idxOf n]?

/-- Every read that has code is a read of a parameter.  A program that reads another name is
refused: as unsupported, if all its numbers fit a word. -/
theorem reads_params_of_emit (program : Program) :
    (∀ text, Target.wat.emit program = .ok text →
      ∃ module, Module.ofProgram program = .ok module ∧ module.render = text ∧
        List.Forall₂ ReadsParams program.functions module.funcs) ∧
    ∀ f ∈ program.functions, ∀ n ∈ reads f, n ∉ f.params →
      ∃ fault, Target.wat.emit program = .error fault ∧
        ((∀ g ∈ program.functions, ∀ x ∈ literals g, (int32? x).isSome) →
          ∃ construct, fault = .unsupported construct) := by
  refine ⟨fun text hemit => ?_, fun f hf n hn hnot => ?_⟩
  · obtain ⟨module, hmodule, hrender⟩ := exists_module_of_emit hemit
    refine ⟨module, hmodule, hrender, ?_⟩
    have hreads : ∀ f ∈ program.functions, ∀ n ∈ reads f, n ∈ f.params :=
      fun f hf n => mem_params_of_mem_reads hemit hf
    refine ((List.forall₂_and_left _ _).mpr ⟨hreads, funcs_of_ofProgram hmodule⟩).imp
      fun f func h => ?_
    obtain ⟨hparams, code, hbody, rfl⟩ := h
    refine ⟨hparams, ?_, ?_⟩
    · rw [localsRead_append, hbody.localsRead_eq]
      exact List.append_nil _
    · exact fun n hcount frames args hargs => get?_bind_of_count hcount hargs
  · cases hemit : Target.wat.emit program with
    | ok text => exact absurd (mem_params_of_mem_reads hemit hf hn) hnot
    | error fault =>
      refine ⟨fault, rfl, fun hfit => ?_⟩
      cases fault with
      | unsupported construct => exact ⟨construct, rfl⟩
      | numberOutOfRange x =>
        obtain ⟨g, hg, node, hnode, hfault⟩ := exists_node_of_refusal hemit
        obtain ⟨hx, hnone⟩ := mem_literals_of_fault hnode hfault
        have hsome := hfit g hg x hx
        rw [hnone] at hsome
        cases hsome

def clamp : Function :=
  ⟨"clamp", ["low", "x"],
    [.branch (.binary .less (.name "x") (.name "low")) [.ret (some (.name "low"))] none,
      .binding "gap" (some (.name "x")), .ret (some (.name "x"))]⟩

def gap : Function :=
  ⟨"gap", ["low", "x"],
    [.binding "gap" (some (.binary .sub (.name "x") (.name "low"))), .ret (some (.name "gap"))]⟩

theorem reads_params_of_emit_gap :
    (∃ module, Module.ofProgram ⟨[.function clamp.name clamp.params clamp.body]⟩ = .ok module ∧
      ∀ func ∈ module.funcs, localsRead func.body = [1, 0, 0, 1, 1]) ∧
    ∃ construct, Target.wat.emit ⟨[.function gap.name gap.params gap.body]⟩ =
      .error (.unsupported construct) := by
  constructor
  · obtain ⟨text, hemit⟩ := exists_of_toBool (by decide +kernel :
      (Target.wat.emit ⟨[.function clamp.name clamp.params clamp.body]⟩).toBool = true)
    obtain ⟨module, hmodule, -, hfuncs⟩ := (reads_params_of_emit _).1 text hemit
    refine ⟨module, hmodule, fun func hfunc => ?_⟩
    obtain ⟨f, hf, hreads⟩ := exists_of_forall₂ hfuncs hfunc
    cases List.mem_singleton.mp hf
    rw [hreads.code]
    decide
  · obtain ⟨fault, hemit, hfault⟩ :=
      (reads_params_of_emit ⟨[.function gap.name gap.params gap.body]⟩).2 gap
        List.mem_cons_self "gap" (by decide) (by decide)
    obtain ⟨construct, rfl⟩ := hfault (by decide)
    exact ⟨construct, hemit⟩

def rebound : Program :=
  ⟨[.function "twice" ["a", "a"] [.ret (some (.name "a"))],
    .function "bump" ["n"]
      [.binding "n" (some (.binary .add (.name "n") (.number 1))), .ret (some (.name "n"))]]⟩

def reboundText : String :=
  "fn twice(a, a):\n    return a\nfn bump(n):\n    var n = n + 1\n    return n\n"

def reboundModule : Module :=
  ⟨[⟨"twice", 2, [.localGet 0, .ret, .const 0]⟩,
    ⟨"bump", 1, [.localGet 0, .const 1, .arith .add, .drop, .localGet 0, .ret, .const 0]⟩]⟩

/-- Both have code, which computes something else than the program. -/
theorem emit_rebound :
    compile reboundText = .ok rebound ∧ Target.wat.emit rebound = .ok reboundModule.render ∧
      rebound.functions.map (fun f => (f.params, reads f, bindings f)) =
        [(["a", "a"], ["a"], []), (["n"], ["n", "n"], ["n"])] ∧
      (Run.call 20 "twice" [.number 1, .number 2]
        (rebound.functions.foldl Session.register {})).1 = .ok (.number 2) ∧
      Machine.invoke ⟨reboundModule, fun _ => 0⟩ 20 "twice" [1, 2] = .ok (1, []) ∧
      (Run.call 20 "bump" [.number 1]
        (rebound.functions.foldl Session.register {})).1 = .ok (.number 2) ∧
      Machine.invoke ⟨reboundModule, fun _ => 0⟩ 20 "bump" [1] = .ok (1, []) := by
  have hcompile : compile reboundText = .ok rebound :=
    compile_of_printAll (by decide +kernel) (List.cons_ne_nil _ _) (by decide) (by decide)
      (by decide +kernel)
  exact ⟨hcompile, by decide +kernel, by decide, by decide +kernel, by decide, by decide +kernel,
    by decide⟩

end Splice.Wat
