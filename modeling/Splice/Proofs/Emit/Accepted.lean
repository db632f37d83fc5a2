import Splice.Proofs.Emit.Refusals

/-! Which programs have code.  What may stand at a position is said here in terms of the program
alone; a program has code if that holds at every position that lowering comes to, and is refused for
the first position where it does not. -/
namespace Splice.Wat

/-- The declaration that a name stands for: of several the last. -/
def LastDeclared (functions : List Function) (name : String) (g : Function) : Prop :=
  g.name = name ∧ ∃ before after, functions = before ++ g :: after ∧ ∀ h ∈ after, h.name ≠ name

section

variable {functions : List Function} {name : String}

theorem arityIn_eq_some_iff {n : Nat} : arityIn functions name = some n ↔
    ∃ g, LastDeclared functions name g ∧ g.params.length = n := by
  unfold arityIn LastDeclared
  rw [Option.map_eq_some_iff]
  refine exists_congr fun g => and_congr_left fun _ => ?_
  rw [List.find?_eq_some_iff_append, beq_iff_eq]
  refine and_congr_right fun _ => ?_
  constructor
  · rintro ⟨after, before, hsplit, hafter⟩
    refine ⟨before.reverse, after.reverse, ?_, fun h hh => ?_⟩
    · rw [← List.reverse_reverse functions, hsplit]
      simp
    · simpa using hafter h (List.mem_reverse.mp hh)
  · rintro ⟨before, after, rfl, hafter⟩
    refine ⟨after.reverse, before.reverse, by simp, fun h hh => ?_⟩
    simpa using hafter h (List.mem_reverse.mp hh)

theorem arityIn_eq_none_iff :
    arityIn functions name = none ↔ ∀ g ∈ functions, g.name ≠ name := by
  unfold arityIn
  rw [Option.map_eq_none_iff, List.find?_eq_none]
  simp

end

def IsWord (x : Float) : Prop :=
  ∃ n, Decimal.integer? x = some n ∧ -2147483648 ≤ n ∧ n ≤ 2147483647

theorem isSome_int32?_iff {x : Float} : (int32? x).isSome = true ↔ IsWord x := by
  unfold int32? IsWord
  rw [Option.isSome_iff_exists]
  refine exists_congr fun n => ?_
  rw [Option.filter_eq_some_iff, Bool.and_eq_true, decide_eq_true_eq, decide_eq_true_eq]

def Supported (program : Program) (f : Function) : Node → Prop
  | .stmt (.function ..) => False
  | .expr (.number x) => IsWord x
  | .expr (.text _) => False
  | .expr (.name n) => n ∈ f.params
  | .expr (.call callee args) => callee = "print" ∨
      ∃ g, LastDeclared program.functions callee g ∧ g.params.length = args.length
  | _ => True

/-- Why something may not stand at a position. -/
inductive Refused (program : Program) (f : Function) : Node → EmitFault → Prop where
  | function {name : String} {params : List String} {body : List Stmt} :
      Refused program f (.stmt (.function name params body)) (.unsupported (.nestedFunction name))
  | number {x : Float} (h : ¬ IsWord x) :
      Refused program f (.expr (.number x)) (.numberOutOfRange x)
  | text {t : String} : Refused program f (.expr (.text t)) (.unsupported (.textLiteral t))
  | name {n : String} (h : n ∉ f.params) :
      Refused program f (.expr (.name n)) (.unsupported (.variableRead n))
  | undeclared {callee : String} {args : List Expr} (hprint : callee ≠ "print")
      (h : ∀ g ∈ program.functions, g.name ≠ callee) :
      Refused program f (.expr (.call callee args)) (.unsupported (.undeclaredCall callee))
  | arity {callee : String} {args : List Expr} {g : Function} (hprint : callee ≠ "print")
      (hlast : LastDeclared program.functions callee g) (h : g.params.length ≠ args.length) :
      Refused program f (.expr (.call callee args))
        (.unsupported (.arity callee args.length g.params.length))

section

variable {program : Program} {f : Function}

theorem refused_of_call {callee : String} {args : List Expr} {fault : EmitFault}
    (h : (Node.expr (.call callee args)).fault? (contextOf program f) = some fault) :
    Refused program f (.expr (.call callee args)) fault := by
  simp only [Node.fault?, contextOf] at h
  split at h
  · cases h
  rename_i hprint
  cases hdeclared : arityIn program.functions callee with
  | none =>
    rw [hdeclared] at h
    cases h
    exact .undeclared hprint (arityIn_eq_none_iff.mp hdeclared)
  | some expected =>
    obtain ⟨g, hlast, rfl⟩ := arityIn_eq_some_iff.mp hdeclared
    simp only [hdeclared] at h
    split at h
    · cases h
    · cases h
      exact .arity hprint hlast ‹_›

theorem fault?_eq_some_iff {node : Node} {fault : EmitFault} :
    node.fault? (contextOf program f) = some fault ↔ Refused program f node fault := by
  constructor
  · intro h
    match node with
    | .expr (.call callee args) => exact refused_of_call h
    | .expr (.number x) =>
      simp only [Node.fault?, isSome_int32?_iff] at h
      split at h
      · cases h
      · cases h
        exact .number (mt isSome_int32?_iff.mpr ‹_›)
    | .expr (.text t) =>
      cases h
      exact .text
    | .expr (.name n) =>
      simp only [Node.fault?] at h
      split at h
      · cases h
      · cases h
        exact .name ‹_›
    | .stmt (.function name params body) =>
      cases h
      exact .function
    | .expr (.binary ..) | .expr (.ui ..) | .stmt (.binding ..) | .stmt (.branch ..)
    | .stmt (.loop ..) | .stmt (.ret _) | .stmt (.expr _) | .stmt (.generate ..)
    | .stmt (.optimize _) | .stmt (.ask ..) | .stmt (.load _) | .stmt (.search _)
    | .stmt (.inspect _) => cases h
  · intro h
    cases h with
    | function => rfl
    | text => rfl
    | number h => simp [Node.fault?, mt isSome_int32?_iff.mp h]
    | name h => simp [Node.fault?, contextOf, h]
    | undeclared hprint h => simp [Node.fault?, contextOf, hprint, arityIn_eq_none_iff.mpr h]
    | arity hprint hlast h =>
      simp [Node.fault?, contextOf, hprint, arityIn_eq_some_iff.mpr ⟨_, hlast, rfl⟩, h]

theorem fault?_eq_none_iff {node : Node} :
    node.fault? (contextOf program f) = none ↔ Supported program f node := by
  match node with
  | .expr (.number x) =>
    simp only [Node.fault?, Supported, ← isSome_int32?_iff]
    split <;> simp_all
  | .expr (.name n) =>
    by_cases hn : n ∈ f.params <;> simp [Node.fault?, Supported, contextOf, hn]
  | .expr (.call callee args) =>
    by_cases hprint : callee = "print"
    · simp [Node.fault?, Supported, hprint]
    · cases hdeclared : arityIn program.functions callee <;>
        simp [Node.fault?, Supported, contextOf, hprint, hdeclared, ← arityIn_eq_some_iff]
  | .expr (.text _) | .stmt (.function ..) => simp [Node.fault?, Supported]
  | .expr (.binary ..) | .expr (.ui ..) | .stmt (.binding ..) | .stmt (.branch ..)
  | .stmt (.loop ..) | .stmt (.ret _) | .stmt (.expr _) | .stmt (.generate ..)
  | .stmt (.optimize _) | .stmt (.ask ..) | .stmt (.load _) | .stmt (.search _)
  | .stmt (.inspect _) => simp [Node.fault?, Supported]

theorem Refused.not_supported {node : Node} {fault : EmitFault}
    (h : Refused program f node fault) : ¬ Supported program f node := by
  rw [← fault?_eq_none_iff, fault?_eq_some_iff.mpr h]
  rintro ⟨⟩

end

/-- All that lowering comes to, in order, each node with the function it stands in. -/
def positions (program : Program) : List (Function × Node) :=
  program.functions.flatMap fun f => (blockNodes f.body).map (f, ·)

theorem findSome?_flatMap {α β γ : Type} (f : α → List β) (p : β → Option γ) (as : List α) :
    (as.flatMap f).findSome? p = as.findSome? fun a => (f a).findSome? p := by
  induction as with
  | nil => rfl
  | cons a as ih =>
    rw [List.flatMap_cons, List.findSome?_append, List.findSome?_cons, ih]
    cases (f a).findSome? p <;> rfl

theorem refusal_positions (program : Program) :
    refusal (Target.wat.emit program) =
      (positions program).findSome? fun (f, node) => node.fault? (contextOf program f) := by
  rw [refusal_emit, positions, findSome?_flatMap]
  simp only [List.findSome?_map, Function.comp_def]

theorem refusal_eq_some_iff {α : Type} {x : Except EmitFault α} {fault : EmitFault} :
    refusal x = some fault ↔ x = .error fault := by
  cases x <;> simp [refusal]

theorem refusal_eq_none_iff {α : Type} {x : Except EmitFault α} :
    refusal x = none ↔ ∃ a, x = .ok a := by
  cases x <;> simp [refusal]

theorem emit_congr {program other : Program} (h : other.functions = program.functions) :
    Target.wat.emit other = Target.wat.emit program := by
  unfold Target.emit Module.ofProgram
  rw [h]

/-- A program has code exactly if what stands at every position of its functions is supported.
Otherwise it is refused for the first position where that is not so.  What stands outside of
functions does not matter. -/
theorem emit_accepts (program : Program) :
    ((∃ text, Target.wat.emit program = .ok text) ↔
      ∀ f node, (f, node) ∈ positions program → Supported program f node) ∧
    (∀ fault, Target.wat.emit program = .error fault ↔
      ∃ before f node after, positions program = before ++ (f, node) :: after ∧
        (∀ g earlier, (g, earlier) ∈ before → Supported program g earlier) ∧
        ¬ Supported program f node ∧ Refused program f node fault) ∧
    ∀ other : Program, other.functions = program.functions →
      Target.wat.emit other = Target.wat.emit program := by
  refine ⟨?_, fun fault => ?_, fun other => emit_congr⟩
  · rw [← refusal_eq_none_iff, refusal_positions, List.findSome?_eq_none_iff]
    simp only [Prod.forall, fault?_eq_none_iff]
  · rw [← refusal_eq_some_iff, refusal_positions, List.findSome?_eq_some_iff]
    simp only [Prod.exists, Prod.forall, fault?_eq_none_iff, fault?_eq_some_iff]
    constructor
    · rintro ⟨before, f, node, after, hsplit, hrefused, hbefore⟩
      exact ⟨before, f, node, after, hsplit, hbefore, hrefused.not_supported, hrefused⟩
    · rintro ⟨before, f, node, after, hsplit, hbefore, -, hrefused⟩
      exact ⟨before, f, node, after, hsplit, hrefused, hbefore⟩

def narrow : Function :=
  ⟨"f", ["a"], [.expr (.ui .text [.text "unseen"] []), .ret (some (.name "a"))]⟩

/-- Declared under the same name, with a call that has the arity of the other. -/
def wide : Function :=
  ⟨"f", ["a", "b"], [.ret (some (.call "f" [.text "seen"]))]⟩

def redeclared : Program :=
  ⟨[.function narrow.name narrow.params narrow.body,
    .function wide.name wide.params wide.body]⟩

theorem emit_accepts_redeclared :
    Target.wat.emit redeclared = .error (.unsupported (.arity "f" 1 2)) ∧
      Target.wat.emit ⟨.expr (.text "top") :: redeclared.body⟩ = Target.wat.emit redeclared := by
  have hrefused : Refused redeclared wide (.expr (.call "f" [.text "seen"]))
      (.unsupported (.arity "f" 1 2)) :=
    .arity (g := wide) (by decide) ⟨rfl, [narrow], [], rfl, by simp⟩ (by decide)
  have hbefore : ∀ g earlier, (g, earlier) ∈ (positions redeclared).take 5 →
      Supported redeclared g earlier := by
    intro g earlier hmem
    change (g, earlier) ∈ [(narrow, Node.stmt (.expr (.ui .text [.text "unseen"] []))),
      (narrow, .expr (.ui .text [.text "unseen"] [])), (narrow, .stmt (.ret (some (.name "a")))),
      (narrow, .expr (.name "a")), (wide, .stmt (.ret (some (.call "f" [.text "seen"]))))] at hmem
    simp only [List.mem_cons, Prod.mk.injEq, List.not_mem_nil, or_false] at hmem
    rcases hmem with ⟨rfl, rfl⟩ | ⟨rfl, rfl⟩ | ⟨rfl, rfl⟩ | ⟨rfl, rfl⟩ | ⟨rfl, rfl⟩
    all_goals simp [Supported, narrow]
  exact ⟨((emit_accepts redeclared).2.1 _).mpr ⟨(positions redeclared).take 5, wide, _,
      [(wide, .expr (.text "seen"))], rfl, hbefore, hrefused.not_supported, hrefused⟩,
    (emit_accepts redeclared).2.2 _ rfl⟩

end Splice.Wat
