import Mathlib.Order.Bounds.Basic
import Splice.Proofs.Token.Blocks

/-! The open blocks of a text as a stack of widths over zero.  Whatever lines come, and in whatever
order, the widths of the stack increase.  So a line stands at the width of an open block exactly if
no block is left between that width and its own once the deeper blocks are closed. -/
namespace Splice.Layout

/-- The widths that are open, the text's own first and the innermost block's last. -/
def stack (layout : Layout) : List Nat :=
  0 :: layout.widths.reverse

inductive Step where
  | moveTo (width : Nat)
  | closeAll (place : Place)

def Step.apply : Step → Layout → Layout
  | .moveTo width, layout => (layout.moveTo width).2
  | .closeAll place, layout => (layout.closeAll place).2

def after (steps : List Step) : Layout :=
  steps.foldl (fun layout step => step.apply layout) {}

def Nested (layout : Layout) : Prop :=
  layout.stack.Pairwise (· < ·)

variable {layout : Layout} {width : Nat}

theorem stack_cons (width : Nat) (outer : List Nat) :
    stack ⟨width :: outer⟩ = stack ⟨outer⟩ ++ [width] := by
  rw [stack, List.reverse_cons]
  rfl

theorem getLast?_stack (layout : Layout) : layout.stack.getLast? = some layout.top := by
  obtain ⟨_ | ⟨width, outer⟩⟩ := layout
  · rfl
  · rw [stack_cons, List.getLast?_concat]
    rfl

theorem mem_stack_of_top (layout : Layout) : layout.top ∈ layout.stack :=
  List.mem_of_getLast? layout.getLast?_stack

namespace Nested

theorem stack_split (h : layout.Nested) :
    ∃ front, layout.stack = front ++ [layout.top] ∧ ∀ w ∈ front, w < layout.top := by
  obtain ⟨front, hfront⟩ := List.getLast?_eq_some_iff.mp layout.getLast?_stack
  refine ⟨front, hfront, fun w hw => ?_⟩
  rw [Nested, hfront, List.pairwise_append] at h
  exact h.2.2 w hw _ (List.mem_singleton_self _)

theorem le_top (h : layout.Nested) : ∀ w ∈ layout.stack, w ≤ layout.top := by
  obtain ⟨front, hfront, hbelow⟩ := h.stack_split
  intro w hw
  rw [hfront, List.mem_append, List.mem_singleton] at hw
  rcases hw with hw | rfl
  · exact Nat.le_of_lt (hbelow w hw)
  · exact Nat.le_refl _

theorem stack_eq_filter (h : layout.Nested) :
    layout.stack = layout.stack.filter (· < layout.top) ++ [layout.top] := by
  obtain ⟨front, hfront, hbelow⟩ := h.stack_split
  have hkept : front.filter (· < layout.top) = front := by
    rw [List.filter_eq_self]
    exact fun w hw => decide_eq_true (hbelow w hw)
  rw [hfront, List.filter_append, hkept]
  simp

theorem push (h : layout.Nested) (hwidth : layout.top < width) :
    Nested ⟨width :: layout.widths⟩ := by
  rw [Nested, stack_cons, List.pairwise_append]
  refine ⟨h, List.pairwise_singleton _ _, fun w hw v hv => ?_⟩
  cases List.mem_singleton.mp hv
  exact Nat.lt_of_le_of_lt (h.le_top w hw) hwidth

end Nested

theorem stack_closeTo (h : layout.Nested) (width : Nat) :
    (layout.closeTo width).stack = layout.stack.filter (· ≤ width) := by
  obtain ⟨widths⟩ := layout
  induction widths with
  | nil => simp [closeTo, stack]
  | cons inner outer ih =>
    rw [Nested, stack_cons, List.pairwise_append] at h
    rw [stack_cons, List.filter_append]
    by_cases hinner : width < inner
    · have hclose : closeTo ⟨inner :: outer⟩ width = closeTo ⟨outer⟩ width := by
        simp [closeTo, hinner]
      rw [hclose, ih h.1]
      simp [Nat.not_le_of_lt hinner]
    · have hclose : closeTo ⟨inner :: outer⟩ width = ⟨inner :: outer⟩ := by
        simp [closeTo, hinner]
      have hkept : (stack ⟨outer⟩).filter (· ≤ width) = stack ⟨outer⟩ := by
        rw [List.filter_eq_self]
        intro w hw
        have hless := h.2.2 w hw inner (List.mem_singleton_self _)
        exact decide_eq_true (by omega)
      rw [hclose, hkept, stack_cons]
      simp [Nat.le_of_not_lt hinner]

theorem Nested.closeTo (h : layout.Nested) (width : Nat) : (layout.closeTo width).Nested := by
  rw [Nested, stack_closeTo h]
  exact h.filter _

theorem Nested.moveTo (h : layout.Nested) (width : Nat) : (layout.moveTo width).2.Nested := by
  unfold Layout.moveTo
  split
  · rename_i hdeeper
    exact h.push hdeeper
  · dsimp only
    split <;> exact h.closeTo width

theorem nested_after (steps : List Step) : (after steps).Nested := by
  have hrun (steps : List Step) (layout : Layout) (h : layout.Nested) :
      (steps.foldl (fun layout step => step.apply layout) layout).Nested := by
    induction steps generalizing layout with
    | nil => exact h
    | cons step steps ih =>
      cases step with
      | moveTo width => exact ih _ (h.moveTo width)
      | closeAll place =>
        have hclosed : Step.apply (.closeAll place) layout = {} :=
          congrArg Prod.snd (closeAll_eq place layout)
        rw [List.foldl_cons, hclosed]
        exact ih _ (List.pairwise_singleton _ _)
  exact hrun steps {} (List.pairwise_singleton _ _)

theorem isGreatest_top_closeTo (h : layout.Nested) (width : Nat) :
    IsGreatest {w | w ∈ layout.stack ∧ w ≤ width} (layout.closeTo width).top := by
  have hmem (w : Nat) : w ∈ (layout.closeTo width).stack ↔ w ∈ layout.stack ∧ w ≤ width := by
    rw [stack_closeTo h, List.mem_filter, decide_eq_true_iff]
  constructor
  · exact (hmem _).mp (layout.closeTo width).mem_stack_of_top
  · intro w hw
    exact (h.closeTo width).le_top w ((hmem w).mpr hw)

theorem top_closeTo_eq_iff (h : layout.Nested) (width : Nat) :
    (layout.closeTo width).top = width ↔ width ∈ layout.stack := by
  have hgreatest := isGreatest_top_closeTo h width
  constructor
  · intro heq
    exact heq ▸ hgreatest.1.1
  · intro hopen
    exact hgreatest.unique ⟨⟨hopen, Nat.le_refl _⟩, fun w hw => hw.2⟩

theorem isGreatest_below (h : layout.Nested) (hclosed : width ∉ layout.stack) :
    IsGreatest {w | w ∈ layout.stack ∧ w < width} (layout.closeTo width).top := by
  have hbelow : {w | w ∈ layout.stack ∧ w < width} = {w | w ∈ layout.stack ∧ w ≤ width} := by
    ext w
    refine and_congr_right fun hopen => ⟨Nat.le_of_lt, fun hle => Nat.lt_of_le_of_ne hle ?_⟩
    rintro rfl
    exact hclosed hopen
  rw [hbelow]
  exact isGreatest_top_closeTo h width

theorem moveTo_cases (h : layout.Nested) (width : Nat) :
    layout.top < width ∧ layout.moveTo width = (.opens, ⟨width :: layout.widths⟩) ∨
    width ∈ layout.stack ∧ layout.moveTo width =
      (.closes (layout.depth - (layout.closeTo width).depth), layout.closeTo width) ∨
    (width < layout.top ∧ width ∉ layout.stack) ∧ layout.moveTo width =
      (.mismatch (layout.closeTo width).top, layout.closeTo width) := by
  by_cases hdeeper : layout.top < width
  · exact .inl ⟨hdeeper, if_pos hdeeper⟩
  right
  have hmove : layout.moveTo width = if (layout.closeTo width).top = width then
      (.closes (layout.depth - (layout.closeTo width).depth), layout.closeTo width)
      else (.mismatch (layout.closeTo width).top, layout.closeTo width) := if_neg hdeeper
  by_cases hopen : width ∈ layout.stack
  · left
    refine ⟨hopen, ?_⟩
    rw [hmove, if_pos ((top_closeTo_eq_iff h width).mpr hopen)]
  · right
    refine ⟨⟨Nat.lt_of_le_of_ne (Nat.le_of_not_lt hdeeper) ?_, hopen⟩, ?_⟩
    · rintro rfl
      exact hopen layout.mem_stack_of_top
    · rw [hmove, if_neg (mt (top_closeTo_eq_iff h width).mp hopen)]

/-- How a line at a width is answered: with marks for the blocks that it opens and closes, after
which it stands in the innermost block, or with the width that it should have had.  The deeper
blocks are closed in either case. -/
structure Moves (layout : Layout) (width : Nat) (place : Place)
    (answer : Except ScanFault (List Token)) (moved : Layout) : Prop where
  error_iff : (∃ fault, answer = .error fault) ↔ width < layout.top ∧ width ∉ layout.stack
  of_error : ∀ fault, answer = .error fault →
    ∃ expected, fault = ⟨.indentMismatch expected width, place.line, 1, place.span⟩ ∧
      IsGreatest {w | w ∈ layout.stack ∧ w < width} expected ∧
      moved.stack = layout.stack.filter (· ≤ width)
  of_ok : ∀ marks, answer = .ok marks →
    moved.stack = layout.stack.filter (· < width) ++ [width] ∧ moved.top = width ∧
      moved.depth + (marks.map (·.kind)).count .dedent =
        layout.depth + (marks.map (·.kind)).count .indent

theorem moves_moveTo (h : layout.Nested) (width : Nat) (place : Place) :
    layout.Moves width place ((layout.moveTo width).1.tokens place width)
      (layout.moveTo width).2 := by
  rcases moveTo_cases h width with ⟨hdeeper, hmove⟩ | ⟨hopen, hmove⟩ | ⟨hbetween, hmove⟩
  · rw [hmove]
    have hall : layout.stack.filter (· < width) = layout.stack := by
      rw [List.filter_eq_self]
      intro w hw
      exact decide_eq_true (Nat.lt_of_le_of_lt (h.le_top w hw) hdeeper)
    constructor
    · simp [Shift.tokens]
      omega
    · rintro fault ⟨⟩
    · rintro marks ⟨⟩
      refine ⟨?_, rfl, ?_⟩
      · rw [stack_cons, hall]
      · simp [depth]
  · rw [hmove]
    have hkept := stack_closeTo h width
    have htop := (top_closeTo_eq_iff h width).mpr hopen
    constructor
    · simp [Shift.tokens, hopen]
    · rintro fault ⟨⟩
    · rintro marks ⟨⟩
      refine ⟨?_, htop, ?_⟩
      · have hsplit := (h.closeTo width).stack_eq_filter
        have hless : ∀ w, (decide (w < width) && decide (w ≤ width)) = decide (w < width) := by
          intro w
          rw [Bool.and_eq_left_iff_imp, decide_eq_true_iff, decide_eq_true_iff]
          exact Nat.le_of_lt
        rw [htop, hkept, List.filter_filter] at hsplit
        simpa only [hkept, hless] using hsplit
      · have hle := layout.depth_closeTo_le width
        simp [List.count_replicate]
        omega
  · rw [hmove]
    constructor
    · exact ⟨fun _ => hbetween, fun _ => ⟨_, rfl⟩⟩
    · rintro fault ⟨⟩
      exact ⟨_, rfl, isGreatest_below h hbetween.2, stack_closeTo h width⟩
    · rintro marks ⟨⟩

/-- Whatever has happened to a layout, failed moves included, its stack starts with zero and
increases.  So a move fails only to a width between those of open blocks, and closing the layout
takes one mark for each open block. -/
theorem stack_after_steps (steps : List Step) (place : Place) :
    let layout := after steps
    layout.stack.head? = some 0 ∧ layout.stack.Pairwise (· < ·) ∧
      (∀ width, layout.Moves width place ((layout.moveTo width).1.tokens place width)
        (layout.moveTo width).2) ∧
      (layout.closeAll place).1 = List.replicate layout.depth ⟨place, .dedent, ""⟩ ∧
      (layout.closeAll place).2.depth = 0 := by
  intro layout
  have hnested := nested_after steps
  refine ⟨rfl, hnested, fun width => moves_moveTo hnested width place, ?_, ?_⟩
  · rw [closeAll_eq]
  · rw [closeAll_eq]
    rfl

example : (after [.moveTo 4, .moveTo 9, .moveTo 6, .moveTo 5]).stack = [0, 4, 5] := by decide

end Splice.Layout
