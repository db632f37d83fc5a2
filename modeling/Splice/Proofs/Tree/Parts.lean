import Splice.Proofs.Tree.Spelling

/-! The parts of a tree: the number literals in it, and the statements that stand in a block or,
at any depth, in the blocks of its statements. -/
namespace Splice

mutual

def Expr.numbers : Expr → List Float
  | .binary _ left right => left.numbers ++ right.numbers
  | .number value => [value]
  | .call _ args => Expr.allNumbers args
  | .ui _ args children => Expr.allNumbers args ++ Expr.allNumbers children
  | .name _ | .text _ => []

def Expr.allNumbers : List Expr → List Float
  | [] => []
  | e :: es => e.numbers ++ Expr.allNumbers es

end

mutual

def Stmt.numbers : Stmt → List Float
  | .function _ _ body => Stmt.allNumbers body
  | .binding _ (some init) => init.numbers
  | .branch test yes none => test.numbers ++ Stmt.allNumbers yes
  | .branch test yes (some no) => test.numbers ++ Stmt.allNumbers yes ++ Stmt.allNumbers no
  | .loop test body => test.numbers ++ Stmt.allNumbers body
  | .ret (some value) => value.numbers
  | .expr e => e.numbers
  | .optimize body => Stmt.allNumbers body
  | .ask _ (some body) => Stmt.allNumbers body
  | .inspect target => target.numbers
  | _ => []

def Stmt.allNumbers : List Stmt → List Float
  | [] => []
  | s :: ss => s.numbers ++ Stmt.allNumbers ss

end

namespace Stmt

def blocks : Stmt → List (List Stmt)
  | .function _ _ body => [body]
  | .branch _ yes none => [yes]
  | .branch _ yes (some no) => [yes, no]
  | .loop _ body => [body]
  | .optimize body => [body]
  | .ask _ (some body) => [body]
  | _ => []

def exprs : Stmt → List Expr
  | .binding _ (some init) => [init]
  | .branch test _ _ => [test]
  | .loop test _ => [test]
  | .ret (some value) => [value]
  | .expr e => [e]
  | .inspect target => [target]
  | _ => []

/-- A statement stands in a block, at any depth. -/
inductive Within (s : Stmt) : List Stmt → Prop where
  | here {block : List Stmt} (hmem : s ∈ block) : Within s block
  | inside {block inner : List Stmt} {outer : Stmt} (hmem : outer ∈ block)
      (hinner : inner ∈ outer.blocks) (h : Within s inner) : Within s block

theorem Within.mono {s : Stmt} {part block : List Stmt} (h : s.Within part)
    (hpart : part ⊆ block) : s.Within block := by
  cases h with
  | here hmem => exact .here (hpart hmem)
  | inside hmem hinner hwithin => exact .inside (hpart hmem) hinner hwithin

end Stmt

theorem Program.mem_body_of_mem_functions {program : Program} {f : Function}
    (hf : f ∈ program.functions) : Stmt.function f.name f.params f.body ∈ program.body := by
  obtain ⟨stmt, hmem, hfunction⟩ := List.mem_filterMap.mp hf
  cases stmt with
  | function name params body =>
    cases hfunction
    exact hmem
  | _ => cases hfunction

section Numbers

variable {p q : Float → Bool}

mutual

theorem Expr.wellFormed_of_numbers (e : Expr) (hwf : e.wellFormed p = true)
    (h : ∀ x ∈ e.numbers, p x = true → q x = true) : e.wellFormed q = true := by
  match e with
  | .binary op left right =>
    rw [wellFormed, Bool.and_eq_true] at hwf ⊢
    exact ⟨left.wellFormed_of_numbers hwf.1 fun x hx => h x (List.mem_append_left _ hx),
      right.wellFormed_of_numbers hwf.2 fun x hx => h x (List.mem_append_right _ hx)⟩
  | .name n => exact hwf
  | .number value => exact h value List.mem_cons_self hwf
  | .text value => exact hwf
  | .call callee args =>
    rw [wellFormed, Bool.and_eq_true] at hwf ⊢
    exact ⟨hwf.1, Expr.allWellFormed_of_numbers args hwf.2 h⟩
  | .ui widget args children =>
    rw [wellFormed, Bool.and_eq_true] at hwf ⊢
    exact ⟨Expr.allWellFormed_of_numbers args hwf.1 fun x hx => h x (List.mem_append_left _ hx),
      Expr.allWellFormed_of_numbers children hwf.2 fun x hx => h x (List.mem_append_right _ hx)⟩

theorem Expr.allWellFormed_of_numbers (es : List Expr) (hwf : Expr.allWellFormed es p = true)
    (h : ∀ x ∈ Expr.allNumbers es, p x = true → q x = true) :
    Expr.allWellFormed es q = true := by
  match es with
  | [] => rfl
  | e :: es =>
    rw [allWellFormed, Bool.and_eq_true] at hwf ⊢
    exact ⟨e.wellFormed_of_numbers hwf.1 fun x hx => h x (List.mem_append_left _ hx),
      Expr.allWellFormed_of_numbers es hwf.2 fun x hx => h x (List.mem_append_right _ hx)⟩

end

mutual

theorem Stmt.wellFormed_of_numbers (s : Stmt) (hwf : s.wellFormed p = true)
    (h : ∀ x ∈ s.numbers, p x = true → q x = true) : s.wellFormed q = true := by
  match s with
  | .function name params body =>
    simp only [wellFormed, Bool.and_eq_true] at hwf ⊢
    exact ⟨hwf.1, Stmt.allWellFormed_of_numbers body hwf.2 h⟩
  | .binding name none => exact hwf
  | .binding name (some init) =>
    rw [wellFormed, Bool.and_eq_true] at hwf ⊢
    exact ⟨hwf.1, init.wellFormed_of_numbers hwf.2 h⟩
  | .branch test yes none =>
    simp only [wellFormed, Bool.and_eq_true] at hwf ⊢
    exact ⟨⟨test.wellFormed_of_numbers hwf.1.1 fun x hx => h x (List.mem_append_left _ hx),
        hwf.1.2⟩,
      Stmt.allWellFormed_of_numbers yes hwf.2 fun x hx => h x (List.mem_append_right _ hx)⟩
  | .branch test yes (some no) =>
    simp only [wellFormed, Bool.and_eq_true] at hwf ⊢
    simp only [numbers, List.mem_append] at h
    exact ⟨⟨⟨⟨test.wellFormed_of_numbers hwf.1.1.1.1 fun x hx => h x (.inl (.inl hx)), hwf.1.1.1.2⟩,
      Stmt.allWellFormed_of_numbers yes hwf.1.1.2 fun x hx => h x (.inl (.inr hx))⟩, hwf.1.2⟩,
      Stmt.allWellFormed_of_numbers no hwf.2 fun x hx => h x (.inr hx)⟩
  | .loop test body =>
    simp only [wellFormed, Bool.and_eq_true] at hwf ⊢
    exact ⟨⟨test.wellFormed_of_numbers hwf.1.1 fun x hx => h x (List.mem_append_left _ hx),
        hwf.1.2⟩,
      Stmt.allWellFormed_of_numbers body hwf.2 fun x hx => h x (List.mem_append_right _ hx)⟩
  | .ret none => rfl
  | .ret (some value) => exact value.wellFormed_of_numbers hwf h
  | .expr e => exact e.wellFormed_of_numbers hwf h
  | .generate name params description => exact hwf
  | .optimize body =>
    rw [wellFormed, Bool.and_eq_true] at hwf ⊢
    exact ⟨hwf.1, Stmt.allWellFormed_of_numbers body hwf.2 h⟩
  | .ask instruction none => exact hwf
  | .ask instruction (some body) =>
    simp only [wellFormed, Bool.and_eq_true] at hwf ⊢
    exact ⟨hwf.1, Stmt.allWellFormed_of_numbers body hwf.2 h⟩
  | .load library => exact hwf
  | .search query => exact hwf
  | .inspect target => exact target.wellFormed_of_numbers hwf h

theorem Stmt.allWellFormed_of_numbers (ss : List Stmt) (hwf : Stmt.allWellFormed ss p = true)
    (h : ∀ x ∈ Stmt.allNumbers ss, p x = true → q x = true) :
    Stmt.allWellFormed ss q = true := by
  match ss with
  | [] => rfl
  | s :: ss =>
    rw [allWellFormed, Bool.and_eq_true] at hwf ⊢
    exact ⟨s.wellFormed_of_numbers hwf.1 fun x hx => h x (List.mem_append_left _ hx),
      Stmt.allWellFormed_of_numbers ss hwf.2 fun x hx => h x (List.mem_append_right _ hx)⟩

end

namespace Stmt

theorem wellFormed_of_mem {s : Stmt} {ss : List Stmt} (hwf : allWellFormed ss p = true)
    (hs : s ∈ ss) : s.wellFormed p = true := by
  induction ss with
  | nil => cases hs
  | cons t ss ih =>
    rw [allWellFormed, Bool.and_eq_true] at hwf
    rcases List.mem_cons.mp hs with rfl | hs
    · exact hwf.1
    · exact ih hwf.2 hs

theorem allWellFormed_of_mem_blocks {s : Stmt} {block : List Stmt} (hwf : s.wellFormed p = true)
    (hblock : block ∈ s.blocks) : allWellFormed block p = true := by
  match s with
  | .function _ _ body | .loop _ body | .optimize body | .ask _ (some body)
  | .branch _ body none =>
    obtain rfl := List.mem_singleton.mp hblock
    simp only [wellFormed, Bool.and_eq_true] at hwf
    exact hwf.2
  | .branch _ yes (some no) =>
    simp only [wellFormed, Bool.and_eq_true] at hwf
    rcases List.mem_cons.mp hblock with rfl | hno
    · exact hwf.1.1.2
    · obtain rfl := List.mem_singleton.mp hno
      exact hwf.2

theorem Within.wellFormed {s : Stmt} {block : List Stmt} (h : s.Within block)
    (hwf : allWellFormed block p = true) : s.wellFormed p = true := by
  induction h with
  | here hmem => exact wellFormed_of_mem hwf hmem
  | inside hmem hinner _ ih =>
    exact ih (allWellFormed_of_mem_blocks (wellFormed_of_mem hwf hmem) hinner)

end Stmt

end Numbers

end Splice
