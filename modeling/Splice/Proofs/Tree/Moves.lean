import Splice.Tree.Parser

/-! How a cursor moves over its tokens.  Reading on leads from one cursor to another one without
passing the end of input. -/
namespace Splice

theorem Kind.operator?_eq_some {kind : Kind} {op : Operator} :
    kind.operator? = some op ↔ kind = .operator op := by
  cases kind <;> simp [operator?]

namespace Cursor

variable {c c' d e : Cursor}

def Ended (c : Cursor) : Prop :=
  ((c.here :: c.after).getLast (List.cons_ne_nil _ _)).kind = .endOfInput

abbrev left (c : Cursor) : Nat :=
  c.after.length

theorem advance_of_not_atEnd {c : Cursor} (hkind : c.kind ≠ .endOfInput) {next : Token}
    {later : List Token} (hafter : c.after = next :: later) :
    c.advance = { c with before := c.here :: c.before, here := next, after := later } := by
  unfold advance
  rw [hafter]
  dsimp only
  rw [if_neg (by simpa [atEnd] using hkind)]

theorem advance_of_atEnd {c : Cursor} (hkind : c.kind = .endOfInput) : c.advance = c := by
  unfold advance
  split
  · rfl
  · rw [if_pos (by simpa [atEnd] using hkind)]

theorem advance_cases (c : Cursor) : c.advance = c ∨ ∃ next later, c.after = next :: later ∧
    c.advance = { c with before := c.here :: c.before, here := next, after := later } := by
  unfold advance
  split
  · exact .inl rfl
  · rename_i next later hafter
    split
    · exact .inl rfl
    · exact .inr ⟨next, later, hafter, rfl⟩

theorem nesting_advance (c : Cursor) : c.advance.nesting = c.nesting := by
  rcases c.advance_cases with hstay | ⟨next, later, -, hmove⟩
  · rw [hstay]
  · rw [hmove]

theorem Ended.exists_after {c : Cursor} (h : c.Ended) (hkind : c.kind ≠ .endOfInput) :
    ∃ next later, c.after = next :: later := by
  cases hafter : c.after with
  | nil =>
    unfold Ended at h
    simp only [hafter] at h
    exact absurd h hkind
  | cons next later => exact ⟨next, later, rfl⟩

theorem Ended.advance {c : Cursor} (h : c.Ended) : c.advance.Ended := by
  by_cases hkind : c.kind = .endOfInput
  · rw [advance_of_atEnd hkind]
    exact h
  · obtain ⟨next, later, hafter⟩ := h.exists_after hkind
    rw [advance_of_not_atEnd hkind hafter]
    unfold Ended at h ⊢
    simpa [hafter] using h

theorem Ended.left_advance {c : Cursor} (h : c.Ended) (hkind : c.kind ≠ .endOfInput) :
    c.advance.left < c.left := by
  obtain ⟨next, later, hafter⟩ := h.exists_after hkind
  rw [advance_of_not_atEnd hkind hafter]
  simp [left, hafter]

theorem Ended.left_advance_le {c : Cursor} (h : c.Ended) : c.advance.left ≤ c.left := by
  by_cases hkind : c.kind = .endOfInput
  · exact Nat.le_of_eq (congrArg left (advance_of_atEnd hkind))
  · exact Nat.le_of_lt (h.left_advance hkind)

theorem skipNewlines_go {c : Cursor} (before : List Token) (here : Token) (after : List Token)
    (h : ((here :: after).getLast (List.cons_ne_nil _ _)).kind = .endOfInput) :
    (skipNewlines.go c before here after).Ended ∧
      (skipNewlines.go c before here after).left ≤ after.length := by
  induction after generalizing before here with
  | nil => exact ⟨h, Nat.le_refl _⟩
  | cons next later ih =>
    unfold skipNewlines.go
    split
    · have hnext := ih (here :: before) next (by simpa using h)
      exact ⟨hnext.1, Nat.le_succ_of_le hnext.2⟩
    · exact ⟨h, Nat.le_refl _⟩

theorem Ended.skipNewlines {c : Cursor} (h : c.Ended) :
    c.skipNewlines.Ended ∧ c.skipNewlines.left ≤ c.left :=
  skipNewlines_go c.before c.here c.after h

theorem skipNewlines_eq_self (hkind : c.kind ≠ .newline) : c.skipNewlines = c := by
  unfold skipNewlines
  cases hafter : c.after with
  | nil => rw [skipNewlines.go, ← hafter]
  | cons next later =>
    rw [skipNewlines.go, if_neg (show ¬ c.here.kind = .newline from hkind), ← hafter]

theorem skipNewlines_go_congr (h : c.nesting = c'.nesting) (before : List Token) (here : Token)
    (after : List Token) :
    skipNewlines.go c before here after = skipNewlines.go c' before here after := by
  induction after generalizing before here with
  | nil => simp [skipNewlines.go, h]
  | cons next later ih => simp [skipNewlines.go, h, ih]

theorem skipNewlines_advance (hkind : c.kind = .newline) :
    c.advance.skipNewlines = c.skipNewlines := by
  unfold Cursor.advance
  cases hafter : c.after with
  | nil => rfl
  | cons next later =>
    dsimp only
    rw [if_neg (by simp [atEnd, hkind])]
    unfold skipNewlines
    rw [hafter]
    conv => rhs; rw [skipNewlines.go, if_pos (show c.here.kind = .newline from hkind)]
    exact @skipNewlines_go_congr ⟨c.here :: c.before, next, later, c.nesting⟩ c rfl _ _ _

theorem skipNewlines_induction {motive : Cursor → Prop} {c : Cursor}
    (hstep : ∀ c, c.kind = .newline → motive c → motive c.advance) (h : motive c) :
    motive c.skipNewlines := by
  by_cases hkind : c.kind = .newline
  · cases hafter : c.after with
    | nil =>
      have hstay : c.skipNewlines = c := by
        unfold skipNewlines
        rw [hafter, skipNewlines.go, ← hafter]
      rw [hstay]
      exact h
    | cons next later =>
      have hmove := advance_of_not_atEnd (by simp [hkind]) hafter
      have hless : c.advance.after.length < c.after.length := by simp [hmove, hafter]
      rw [← skipNewlines_advance hkind]
      exact skipNewlines_induction hstep (hstep c hkind h)
  · rw [skipNewlines_eq_self hkind]
    exact h
termination_by c.after.length

theorem nesting_skipNewlines (c : Cursor) : c.skipNewlines.nesting = c.nesting := by
  refine @skipNewlines_induction (·.nesting = c.nesting) c (fun other _ hother => ?_) rfl
  rw [nesting_advance, hother]

def AfterDedent (c : Cursor) : Prop :=
  c.before.head?.map (·.kind) = some .dedent

theorem afterDedent_advance (h : c.Ended) (hkind : c.kind ≠ .endOfInput) :
    c.advance.AfterDedent ↔ c.kind = .dedent := by
  obtain ⟨next, later, hafter⟩ := h.exists_after hkind
  rw [advance_of_not_atEnd hkind hafter]
  exact Option.some_inj

theorem not_afterDedent_advance (h : c.Ended) (hkind : c.kind.endsStatement = false) :
    ¬ c.advance.AfterDedent := by
  have hend : c.kind ≠ .endOfInput := by
    intro heq
    rw [heq] at hkind
    cases hkind
  intro hlast
  rw [(afterDedent_advance h hend).mp hlast] at hkind
  cases hkind

theorem ended_closeAfter (last : Token) (tokens : List Token) :
    ((last :: closeAfter last tokens).getLast (List.cons_ne_nil _ _)).kind = .endOfInput := by
  induction tokens generalizing last with
  | nil =>
    unfold closeAfter
    split
    · assumption
    · rfl
  | cons token later ih => simpa [closeAfter] using ih token

theorem closeAfter_of_last {last : Token} {tokens : List Token}
    (h : ((last :: tokens).getLast (List.cons_ne_nil _ _)).kind = .endOfInput) :
    closeAfter last tokens = tokens := by
  induction tokens generalizing last with
  | nil => exact if_pos h
  | cons token later ih => rw [closeAfter, ih (by simpa using h)]

theorem ended_ofTokens (tokens : List Token) : (ofTokens tokens).Ended := by
  cases tokens with
  | nil => rfl
  | cons token later => exact ended_closeAfter token later

theorem before_ofTokens (tokens : List Token) : (ofTokens tokens).before = [] := by
  cases tokens <;> rfl

theorem nesting_ofTokens (tokens : List Token) : (ofTokens tokens).nesting = 0 := by
  cases tokens <;> rfl

/-- Reading on from the first cursor leads to the second one.  The end of input is not read. -/
def Leads (c d : Cursor) : Prop :=
  ∃ read : List Token, c.here :: c.after = read ++ d.here :: d.after ∧
    d.before = read.reverse ++ c.before ∧ ∀ token ∈ read, token.kind ≠ .endOfInput

theorem Leads.refl (c : Cursor) : c.Leads c :=
  ⟨[], rfl, rfl, List.forall_mem_nil _⟩

theorem Leads.trans (hcd : c.Leads d) (hde : d.Leads e) : c.Leads e := by
  obtain ⟨first, hc, hd, hfirst⟩ := hcd
  obtain ⟨second, hd', he, hsecond⟩ := hde
  refine ⟨first ++ second, ?_, ?_, List.forall_mem_append.mpr ⟨hfirst, hsecond⟩⟩
  · rw [hc, hd', List.append_assoc]
  · rw [he, hd, List.reverse_append, List.append_assoc]

theorem leads_advance (c : Cursor) : c.Leads c.advance := by
  by_cases hkind : c.kind = .endOfInput
  · rw [advance_of_atEnd hkind]
    exact .refl c
  · cases hafter : c.after with
    | nil =>
      have hstay : c.advance = c := by
        unfold advance
        rw [hafter]
      rw [hstay]
      exact .refl c
    | cons next later =>
      rw [advance_of_not_atEnd hkind hafter]
      exact ⟨[c.here], by rw [hafter]; rfl, rfl, List.forall_mem_singleton.mpr hkind⟩

theorem leads_skipNewlines (c : Cursor) : c.Leads c.skipNewlines :=
  skipNewlines_induction (fun d _ hd => hd.trans d.leads_advance) (.refl c)

theorem Leads.position_le (h : c.Leads d) : c.position ≤ d.position := by
  obtain ⟨read, -, hd, -⟩ := h
  simp only [position, hd, List.length_append]
  omega

theorem Leads.ended (h : c.Leads d) (hc : c.Ended) : d.Ended := by
  obtain ⟨read, htokens, -, -⟩ := h
  unfold Ended at hc ⊢
  simpa [htokens] using hc

end Cursor

namespace Parser

theorem exists_of_bind_eq_ok {α β : Type} {p : Parser α} {f : α → Parser β} {c : Cursor}
    {result : β × Cursor} (h : (p >>= f) c = .ok result) :
    ∃ a c', p c = .ok (a, c') ∧ f a c' = .ok result := by
  cases hp : p c with
  | error fault =>
    rw [bind_of_error hp] at h
    cases h
  | ok pair =>
    rw [bind_of_ok hp] at h
    exact ⟨pair.1, pair.2, rfl, h⟩

end Parser

end Splice
