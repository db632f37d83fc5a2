import Splice.Proofs.Emit.Refusals
import Splice.Proofs.Emit.Validation

/-! What the calls of a module refer to.  A module has five imports and one function for each
declaration of the program.  Nothing keeps two declarations from having one name, or a declaration
from having the name of an import; where neither is the case, every call refers to one function and
has as many arguments as that function takes. -/
namespace Splice.Wat

def Module.entries (m : Module) : List (String × Signature) :=
  imports.map (fun (name, params, answers) => (name, importSignature params answers)) ++
    m.funcs.map fun f => (f.name, ⟨f.arity, 1⟩)

def Module.identifiers (m : Module) : List String :=
  m.entries.map (·.1)

def Module.signatures (m : Module) (name : String) : List Signature :=
  (m.entries.filter (·.1 == name)).map (·.2)

namespace Module

variable {m : Module} {name : String} {sig : Signature}

theorem mem_signatures : sig ∈ m.signatures name ↔ (name, sig) ∈ m.entries := by
  simp [signatures]

theorem mem_identifiers_of_mem_signatures (h : sig ∈ m.signatures name) :
    name ∈ m.identifiers :=
  List.mem_map.mpr ⟨_, mem_signatures.mp h, rfl⟩

theorem length_signatures (m : Module) (name : String) :
    (m.signatures name).length = m.identifiers.count name := by
  rw [signatures, List.length_map, identifiers, List.count, List.countP_map,
    List.countP_eq_length_filter]
  rfl

theorem length_signatures_le_one (h : m.identifiers.Nodup) (name : String) :
    (m.signatures name).length ≤ 1 := by
  rw [length_signatures]
  exact List.nodup_iff_count_le_one.mp h name

theorem signatures_eq_of_mem (h : m.identifiers.Nodup) (hsig : sig ∈ m.signatures name) :
    m.signatures name = [sig] := by
  have hlength := length_signatures_le_one h name
  cases hsigs : m.signatures name with
  | nil =>
    rw [hsigs] at hsig
    cases hsig
  | cons first more =>
    rw [hsigs, List.length_cons] at hlength
    obtain rfl : more = [] := List.length_eq_zero_iff.mp (by omega)
    rw [hsigs] at hsig
    rw [List.mem_singleton.mp hsig]

theorem mem_signatures_of_lookup {params : Nat} {answers : Bool}
    (h : imports.lookup name = some (params, answers)) :
    importSignature params answers ∈ m.signatures name := by
  obtain ⟨before, after, himports, -⟩ := List.lookup_eq_some_iff.mp h
  have hmem : (name, params, answers) ∈ imports := by
    rw [himports]
    exact List.mem_append_right _ List.mem_cons_self
  exact mem_signatures.mpr (List.mem_append_left _ (List.mem_map.mpr ⟨_, hmem, rfl⟩))

end Module

section

variable {program : Program} {module : Module}

theorem entries_ofProgram (h : Module.ofProgram program = .ok module) :
    module.funcs.map (fun f => (f.name, (⟨f.arity, 1⟩ : Signature))) =
      program.functions.map fun f => (f.name, ⟨f.params.length, 1⟩) := by
  refine Eq.symm ?_
  rw [← List.forall₂_eq_eq_eq, List.forall₂_map_left_iff, List.forall₂_map_right_iff]
  refine (funcs_of_ofProgram h).imp fun f func hfunc => ?_
  obtain ⟨code, -, rfl⟩ := hfunc
  rfl

theorem identifiers_ofProgram (h : Module.ofProgram program = .ok module) :
    module.identifiers = imports.map (·.1) ++ program.functions.map (·.name) := by
  rw [Module.identifiers, Module.entries, entries_ofProgram h, List.map_append, List.map_map,
    List.map_map]
  rfl

theorem mem_signatures_of_arityIn (h : Module.ofProgram program = .ok module) {name : String}
    {n : Nat} (harity : arityIn program.functions name = some n) :
    ⟨n, 1⟩ ∈ module.signatures name := by
  obtain ⟨f, hf, rfl, rfl⟩ := exists_function_of_arityIn harity
  rw [Module.mem_signatures, Module.entries, entries_ofProgram h]
  exact List.mem_append_right _ (List.mem_map.mpr ⟨f, hf, rfl⟩)

theorem known_signatures (h : Module.ofProgram program = .ok module) (f : Function) :
    (contextOf program f).Known module.signatures f.params.length := by
  refine ⟨rfl, fun name sig hsig => ?_⟩
  rcases List.mem_append.mp hsig with hsig | hsig
  · obtain ⟨n, harity, rfl⟩ := Option.map_eq_some_iff.mp (Option.mem_toList.mp hsig)
    exact mem_signatures_of_arityIn h harity
  · obtain ⟨⟨params, answers⟩, hlookup, rfl⟩ :=
      Option.map_eq_some_iff.mp (Option.mem_toList.mp hsig)
    exact Module.mem_signatures_of_lookup hlookup

theorem nodup_identifiers_iff (h : Module.ofProgram program = .ok module) :
    module.identifiers.Nodup ↔ (program.functions.map (·.name)).Nodup ∧
      ∀ f ∈ program.functions, f.name ∉ imports.map (·.1) := by
  have himports : (imports.map (·.1)).Nodup := by decide
  rw [identifiers_ofProgram h, List.nodup_append]
  constructor
  · rintro ⟨-, hnames, hdisjoint⟩
    exact ⟨hnames, fun f hf hmem => hdisjoint _ hmem _ (List.mem_map_of_mem hf) rfl⟩
  · rintro ⟨hnames, hfree⟩
    refine ⟨himports, hnames, fun name hmem other hother heq => ?_⟩
    obtain ⟨f, hf, rfl⟩ := List.mem_map.mp hother
    exact hfree f hf (heq ▸ hmem)

end

theorem exists_signature_of_call {sigs : String → List Signature} {params : Nat} {name : String}
    {ops : List Op} {frames last : List Frame} (hlast : last ∈ checkAll sigs params ops frames)
    (hcall : .call name ∈ ops) : ∃ sig, sig ∈ sigs name := by
  induction ops generalizing frames with
  | nil => cases hcall
  | cons op ops ih =>
    obtain ⟨mid, hmid, hlast⟩ := mem_checkAll_cons.mp hlast
    rcases List.mem_cons.mp hcall with rfl | hcall
    · -- Each way of checking a call comes from a signature of its name.
      cases frames with
      | nil => cases hmid
      | cons top outer =>
        obtain ⟨sig, hsig, -⟩ := List.mem_filterMap.mp hmid
        exact ⟨sig, hsig⟩
    · exact ih hlast hcall

/-- Every call in a module refers to one function, and has as many arguments as it takes. -/
structure Resolves (program : Program) (module : Module) : Prop where
  calls : ∀ func ∈ module.funcs, ∀ name, .call name ∈ func.ops →
    ∃ sig, module.signatures name = [sig]
  checked : ∀ func ∈ module.funcs, ∃ dead,
    func.checked module.signatures = [[⟨.function, 1, dead⟩]]
  args : ∀ f ∈ program.functions, ∀ callee args, .expr (.call callee args) ∈ blockNodes f.body →
    callee ≠ "print" → module.signatures callee = [⟨args.length, 1⟩]

section

variable {program : Program} {module : Module}

theorem mem_checked_signatures (h : Module.ofProgram program = .ok module) {func : Func}
    (hfunc : func ∈ module.funcs) :
    ∃ dead, [⟨.function, 1, dead⟩] ∈ func.checked module.signatures := by
  obtain ⟨f, -, code, hbody, rfl⟩ := exists_of_mem_funcs h hfunc
  exact ⟨_, hbody.checked (known_signatures h f) f.name⟩

theorem mem_signatures_of_call (h : Module.ofProgram program = .ok module) {f : Function}
    (hf : f ∈ program.functions) {callee : String} {args : List Expr}
    (hcall : .expr (.call callee args) ∈ blockNodes f.body) (hcallee : callee ≠ "print") :
    ⟨args.length, 1⟩ ∈ module.signatures callee := by
  have hfault := fault?_eq_none_of_emit (emit_of_ofProgram h) hf hcall
  simp only [Node.fault?, if_neg hcallee] at hfault
  split at hfault
  · cases hfault
  · rename_i expected harity
    split at hfault
    · rename_i hcount
      exact mem_signatures_of_arityIn h (hcount ▸ harity)
    · cases hfault

theorem resolves_of_nodup (h : Module.ofProgram program = .ok module)
    (hnodup : module.identifiers.Nodup) : Resolves program module where
  calls func hfunc name hcall := by
    obtain ⟨dead, hchecked⟩ := mem_checked_signatures h hfunc
    obtain ⟨sig, hsig⟩ := exists_signature_of_call hchecked hcall
    exact ⟨sig, Module.signatures_eq_of_mem hnodup hsig⟩
  checked func hfunc := by
    obtain ⟨dead, hchecked⟩ := mem_checked_signatures h hfunc
    exact ⟨dead, checkAll_eq_of_mem (Module.length_signatures_le_one hnodup) hchecked⟩
  args f hf callee args hcall hcallee :=
    Module.signatures_eq_of_mem hnodup (mem_signatures_of_call h hf hcall hcallee)

/-- The names of a module are those of the imports and of the declarations, and every call is of one
of them.  Where the declarations have names of their own, none of an import, and only there, no name
comes twice; then every call refers to one function and has as many arguments as it takes. -/
theorem identifiers_of_emit {text : String} (hemit : Target.wat.emit program = .ok text) :
    ∃ module, Module.ofProgram program = .ok module ∧ module.render = text ∧
      module.identifiers = imports.map (·.1) ++ program.functions.map (·.name) ∧
      (∀ func ∈ module.funcs, ∀ name, .call name ∈ func.ops → name ∈ module.identifiers) ∧
      (module.identifiers.Nodup ↔ (program.functions.map (·.name)).Nodup ∧
        ∀ f ∈ program.functions, f.name ∉ imports.map (·.1)) ∧
      (module.identifiers.Nodup → Resolves program module) := by
  obtain ⟨module, hmodule, hrender⟩ := exists_module_of_emit hemit
  refine ⟨module, hmodule, hrender, identifiers_ofProgram hmodule, ?_,
    nodup_identifiers_iff hmodule, resolves_of_nodup hmodule⟩
  intro func hfunc name hcall
  obtain ⟨dead, hchecked⟩ := mem_checked_signatures hmodule hfunc
  obtain ⟨sig, hsig⟩ := exists_signature_of_call hchecked hcall
  exact Module.mem_identifiers_of_mem_signatures hsig

end

theorem identifiers_of_emit_picture :
    ∃ module, Module.ofProgram picture = .ok module ∧
      module.identifiers =
        ["log", "createBox", "createText", "createButton", "appendChild", "add", "main"] ∧
      module.signatures "add" = [⟨2, 1⟩] := by
  obtain ⟨text, hemit⟩ := exists_of_toBool
    (by decide +kernel : (Target.wat.emit picture).toBool = true)
  obtain ⟨module, hmodule, -, hidentifiers, -, hnodup, hresolves⟩ := identifiers_of_emit hemit
  have hresolves := hresolves (hnodup.mpr (by decide))
  refine ⟨module, hmodule, hidentifiers, ?_⟩
  exact hresolves.args _ (List.mem_cons_of_mem _ List.mem_cons_self) "add" [.number 1, .number 2]
    (by simp [blockNodes, stmtNodes, exprNodes]) (by decide)

/-- A function that is declared twice, and one that has the name of an import. -/
def clashing : Program :=
  ⟨[.function "f" ["a"] [.ret (some (.name "a"))],
    .function "f" ["a", "b"] [.ret (some (.call "f" [.name "a", .name "b"]))],
    .function "log" ["a"] [.ret (some (.call "log" [.name "a"]))]]⟩

def clashingText : String :=
  "fn f(a):\n    return a\nfn f(a, b):\n    return f(a, b)\nfn log(a):\n    return log(a)\n"

/-- They have code, in which no call is of one function only. -/
theorem emit_clashing :
    ∃ module, compile clashingText = .ok clashing ∧ Module.ofProgram clashing = .ok module ∧
      Target.wat.emit clashing = .ok module.render ∧ ¬ module.identifiers.Nodup ∧
      module.signatures "f" = [⟨1, 1⟩, ⟨2, 1⟩] ∧
      module.signatures "log" = [⟨1, 0⟩, ⟨1, 1⟩] := by
  have hcompile : compile clashingText = .ok clashing :=
    compile_of_printAll (by decide +kernel) (List.cons_ne_nil _ _) (by decide) (by decide)
      (by decide +kernel)
  obtain ⟨text, hemit⟩ := exists_of_toBool
    (by decide +kernel : (Target.wat.emit clashing).toBool = true)
  obtain ⟨module, hmodule, -⟩ := exists_module_of_emit hemit
  refine ⟨module, hcompile, hmodule, emit_of_ofProgram hmodule, ?_, ?_, ?_⟩
  · rw [identifiers_ofProgram hmodule]
    decide
  · rw [Module.signatures, Module.entries, entries_ofProgram hmodule]
    decide
  · rw [Module.signatures, Module.entries, entries_ofProgram hmodule]
    decide

end Splice.Wat
