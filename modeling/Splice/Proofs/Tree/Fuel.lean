import Splice.Proofs.Tree.Logic

/-! The bound on the recursion is never felt.  Every parser calls only parsers of lower rank until a
token is read, so from a cursor whose tokens end with the end of input a parse needs no more fuel
than ten levels for each token.  With that much it never reaches the bound, and with more its result
is the same. -/
namespace Splice

namespace Parser

variable {α β : Type} {c : Cursor}

/-- What is known since a parser was called: whether a token was read, and whether the one under the
cursor can be. -/
structure Reading where
  read : Bool := false
  solid : Bool := false

/-- A cursor with up to `n` tokens left when the parser was called. -/
structure Reading.At (n : Nat) (s : Reading) (c : Cursor) : Prop where
  ended : c.Ended
  left : c.left ≤ n
  read : s.read = true → c.left < n
  solid : s.solid = true → c.kind ≠ .endOfInput

@[simp] def Step.reading (s : Reading) : Step β → β → Reading
  | .kind, found => ⟨s.read, s.solid || found ≠ .endOfInput⟩
  | .isNext wanted, found => ⟨s.read, s.solid || (found && wanted ≠ .endOfInput)⟩
  | .operator?, found => ⟨s.read, s.solid || found.isSome⟩
  | .advance, _ => ⟨s.read || s.solid, false⟩
  | .accept _, found => ⟨s.read || found, s.solid && !found⟩
  | .expect _ _, _ | .breakLine, _ => ⟨true, false⟩
  | .skipNewlines, _ => ⟨s.read, false⟩
  | .acceptOtherwise, found => ⟨s.read || found, false⟩
  | .ends, _ | .enter, _ | .leave, _ | .endStatement, _ | .opensGenerated, _ => s

@[simp] def Step.isSolid : Step β → Prop
  | .accept wanted | .expect wanted _ => wanted ≠ .endOfInput
  | _ => True

/-- The number of calls that a parser may be away from the next token. -/
@[simp] def Rule.rank : Rule α → Nat
  | .operation level => 6 - min level 4
  | .argumentList | .childList | .statementForm => 6
  | .statement => 7
  | .statements _ => 8
  | _ => 1

@[simp] def Rule.reads : Rule α → Bool
  | .operands _ _ | .childList | .statements _ => false
  | _ => true

/-- A parser of one rank calls others of lower rank only, before it has read a token. -/
def ranked (rank : Nat) : Logic Reading where
  allows step _ := step.isSolid
  leads step s a t := t = step.reading s a
  fails cause _ := cause ≠ .boundReached
  needs rule s := s.read = true ∨ rule.rank < rank
  gives rule s _ t := t = ⟨s.read || rule.reads, false⟩

namespace Reading.At

variable {n : Nat} {s : Reading}

theorem advance (h : s.At n c) : Reading.At n ⟨s.read || s.solid, false⟩ c.advance where
  ended := h.ended.advance
  left := Nat.le_trans h.ended.left_advance_le h.left
  read hread := by
    rcases Bool.or_eq_true_iff.mp hread with hread | hsolid
    · exact Nat.lt_of_le_of_lt h.ended.left_advance_le (h.read hread)
    · exact Nat.lt_of_lt_of_le (h.ended.left_advance (h.solid hsolid)) h.left
  solid := Bool.noConfusion

theorem advance_of_kind (h : s.At n c) {wanted : Kind} (hwanted : wanted ≠ .endOfInput)
    (hkind : c.kind = wanted) : Reading.At n ⟨true, false⟩ c.advance := by
  have hlt := Nat.lt_of_lt_of_le (h.ended.left_advance (hkind ▸ hwanted)) h.left
  exact ⟨h.ended.advance, Nat.le_of_lt hlt, fun _ => hlt, Bool.noConfusion⟩

theorem skipNewlines (h : s.At n c) : Reading.At n ⟨s.read, false⟩ c.skipNewlines := by
  obtain ⟨hended, hleft⟩ := h.ended.skipNewlines
  exact ⟨hended, Nat.le_trans hleft h.left,
    fun hread => Nat.lt_of_le_of_lt hleft (h.read hread), Bool.noConfusion⟩

end Reading.At

theorem sound_ranked (rank n : Nat) :
    (ranked rank).Sound (Reading.At n) (· ≠ .boundReached) where
  fail h := h
  step step s c hs hc := by
    cases step with
    | kind =>
      refine ⟨_, rfl, hc.ended, hc.left, hc.read, fun hsolid => ?_⟩
      rcases Bool.or_eq_true_iff.mp hsolid with hsolid | hkind
      · exact hc.solid hsolid
      · exact of_decide_eq_true hkind
    | isNext wanted =>
      refine ⟨_, rfl, hc.ended, hc.left, hc.read, fun hsolid => ?_⟩
      simp only [Step.reading, Bool.or_eq_true, Bool.and_eq_true, decide_eq_true_eq] at hsolid
      rcases hsolid with hsolid | ⟨hkind, hwanted⟩
      · exact hc.solid hsolid
      · exact hkind ▸ hwanted
    | operator? =>
      refine ⟨_, rfl, hc.ended, hc.left, hc.read, fun hsolid hend => ?_⟩
      rcases Bool.or_eq_true_iff.mp hsolid with hsolid | hfound
      · exact hc.solid hsolid hend
      · rw [hend] at hfound
        cases hfound
    | ends => exact ⟨_, rfl, hc⟩
    | advance => exact ⟨_, rfl, hc.advance⟩
    | accept wanted =>
      simp only [Step.run, accept]
      split
      next hkind => exact ⟨_, rfl, by simpa using hc.advance_of_kind hs hkind⟩
      next => exact ⟨_, rfl, by simpa using hc⟩
    | expect wanted what =>
      by_cases hkind : c.kind = wanted
      · rw [Step.run, bind_of_ok (if_pos hkind)]
        exact ⟨_, rfl, hc.advance_of_kind hs hkind⟩
      · rw [Step.run, bind_of_error (if_neg hkind)]
        exact ParseFault.Cause.noConfusion
    | breakLine =>
      by_cases hkind : c.kind = .newline
      · rw [Step.run, bind_of_ok (if_pos hkind)]
        exact ⟨_, rfl, hc.advance_of_kind Kind.noConfusion hkind⟩
      · rw [Step.run, bind_of_error (if_neg hkind)]
        exact ParseFault.Cause.noConfusion
    | skipNewlines => exact ⟨_, rfl, hc.skipNewlines⟩
    | enter =>
      simp only [Step.run, enter]
      split
      next => exact ParseFault.Cause.noConfusion
      next => exact ⟨_, rfl, hc.ended, hc.left, hc.read, hc.solid⟩
    | leave => exact ⟨_, rfl, hc.ended, hc.left, hc.read, hc.solid⟩
    | endStatement =>
      simp only [Step.run, endStatement]
      split
      next => exact ⟨_, rfl, hc⟩
      next => exact ParseFault.Cause.noConfusion
    | acceptOtherwise =>
      simp only [Step.run, acceptOtherwise]
      split
      next hword =>
        exact ⟨_, rfl, by simpa using hc.skipNewlines.advance_of_kind Kind.noConfusion hword⟩
      next => exact ⟨_, rfl, hc.ended, hc.left, by simpa using hc.read, Bool.noConfusion⟩
    | opensGenerated => exact ⟨_, rfl, hc⟩

open Routine in
theorem Rule.wp_ranked (rule : Rule α) : rule.routine.wp (ranked rule.rank) {}
    fun _ t => rule.reads = true → t.read = true := by
  cases rule with
  | operation level =>
    simp only [routine, wp_ite, wp_bind, wp_call]
    refine ⟨fun hlevel => ⟨.inr ?_, ?_⟩, fun hlevel => ⟨.inr ?_, ?_⟩⟩
    · simp; omega
    · simp [ranked]
    · simp; omega
    · simp [ranked]
  | operands level left =>
    simp only [routine, wp_bind, wp_step]
    refine ⟨trivial, ?_⟩
    rintro next _ rfl
    split <;> simp [ranked]
  | primary =>
    simp only [routine, wp_bind, wp_step]
    refine ⟨trivial, ?_⟩
    rintro next _ rfl
    split <;> simp [ranked]
  | statementForm =>
    simp only [routine, wp_bind, wp_step]
    refine ⟨trivial, ?_⟩
    rintro next _ rfl
    split <;> simp [ranked, Routine.params, Routine.generated, Routine.optionalText]
  | _ => simp [routine, ranked, Routine.openBlock]

theorem Rule.rank_pos (rule : Rule α) : 0 < rule.rank := by
  cases rule with
  | operation level => simp only [rank]; omega
  | _ => simp

theorem Rule.rank_le (rule : Rule α) : rule.rank ≤ 8 := by
  cases rule with
  | operation level => simp only [rank]; omega
  | _ => simp

theorem Rule.lands_of_fuel {fuel : Nat} (rule : Rule α) (hc : c.Ended)
    (hfuel : 10 * c.left + rule.rank ≤ fuel) :
    Lands (Reading.At c.left) (· ≠ .boundReached) (fun _ t => rule.reads = true → t.read = true)
      (rule.parse fuel c) := by
  induction fuel generalizing α c with
  | zero => exact absurd hfuel (Nat.not_le.mpr (Nat.add_pos_right _ rule.rank_pos))
  | succ fuel ih =>
    rw [rule.parse_succ]
    refine rule.routine.lands (sound_ranked rule.rank c.left) (fun callee s d hs hd => ?_)
      rule.wp_ranked ⟨hc, Nat.le_refl _, Bool.noConfusion, Bool.noConfusion⟩
    have hleft := hd.left
    refine (ih callee hd.ended ?_).mono fun a t c' hread hc' => ⟨_, rfl, hc'.ended,
      Nat.le_trans hc'.left hleft, fun hsome => ?_, Bool.noConfusion⟩
    · have hrank := callee.rank_le
      rcases hs with hs | hs
      · have hless := hd.read hs
        omega
      · omega
    · rcases Bool.or_eq_true_iff.mp hsome with hs | hreads
      · exact Nat.lt_of_le_of_lt hc'.left (hd.read hs)
      · exact Nat.lt_of_lt_of_le (hc'.read (hread hreads)) hleft

/-- A parser that has the same result as another one, unless it reaches the bound. -/
def Refines (p q : Parser α) : Prop :=
  ∀ c, p c = q c ∨ ∃ fault, p c = .error fault ∧ fault.cause = .boundReached

theorem Refines.refl (p : Parser α) : Refines p p :=
  fun _ => .inl rfl

theorem Refines.bind {p q : Parser α} {f g : α → Parser β} (hp : Refines p q)
    (hf : ∀ a, Refines (f a) (g a)) : Refines (p >>= f) (q >>= g) := by
  intro c
  rcases hp c with hsame | ⟨fault, hfault, hcause⟩
  · cases hrun : p c with
    | error fault =>
      rw [bind_of_error hrun, bind_of_error (hsame ▸ hrun)]
      exact .inl rfl
    | ok pair =>
      rw [bind_of_ok hrun, bind_of_ok (hsame ▸ hrun)]
      exact hf pair.1 pair.2
  · exact .inr ⟨fault, bind_of_error hfault, hcause⟩

theorem Routine.run_refines {parse parse' : ∀ {β : Type}, Rule β → Parser β}
    (h : ∀ {β : Type} (rule : Rule β), Refines (parse rule) (parse' rule)) (r : Routine α) :
    Refines (r.run parse) (r.run parse') := by
  induction r with
  | done a => exact .refl _
  | fail cause => exact .refl _
  | step first next ih => exact .bind (.refl _) ih
  | call rule next ih => exact .bind (h rule) ih

theorem Rule.parse_refines {fuel fuel' : Nat} (hle : fuel ≤ fuel') (rule : Rule α) :
    Refines (rule.parse fuel) (rule.parse fuel') := by
  induction fuel generalizing α fuel' with
  | zero =>
    rw [rule.parse_zero]
    exact fun c => .inr ⟨_, rfl, rfl⟩
  | succ fuel ih =>
    obtain ⟨fuel', rfl⟩ : ∃ k, fuel' = k + 1 := ⟨fuel' - 1, by omega⟩
    rw [rule.parse_succ, rule.parse_succ]
    exact Routine.run_refines (ih (Nat.le_of_succ_le_succ hle)) rule.routine

theorem boundFor_eq (c : Cursor) : boundFor c = 10 * (c.left + 2) :=
  rfl

/-- With fuel for the tokens left more fuel makes no difference, and the bound is not reached. -/
theorem Rule.settled {fuel : Nat} (rule : Rule α) (hc : c.Ended) (hfuel : boundFor c ≤ fuel) :
    rule.parse fuel c = rule.parse (boundFor c) c ∧
      ∀ fault, rule.parse fuel c = .error fault → fault.cause ≠ .boundReached := by
  have henough : 10 * c.left + rule.rank ≤ boundFor c := by
    have hrank := rule.rank_le
    rw [boundFor_eq]
    omega
  have hlands := rule.lands_of_fuel hc henough
  have hsame : rule.parse (boundFor c) c = rule.parse fuel c := by
    refine (rule.parse_refines hfuel c).resolve_right ?_
    rintro ⟨fault, hfault, hcause⟩
    rw [hfault] at hlands
    exact hlands hcause
  refine ⟨hsame.symm, fun fault hfault => ?_⟩
  rw [hsame, hfault] at hlands
  exact hlands

theorem Rule.left_lt {fuel : Nat} {a : α} {c' : Cursor} (rule : Rule α) (hc : c.Ended)
    (hfuel : boundFor c ≤ fuel) (hreads : rule.reads = true)
    (hrun : rule.parse fuel c = .ok (a, c')) : c'.left < c.left := by
  have henough : 10 * c.left + rule.rank ≤ fuel := by
    have hrank := rule.rank_le
    rw [boundFor_eq] at hfuel
    omega
  have hlands := rule.lands_of_fuel hc henough
  rw [hrun] at hlands
  obtain ⟨t, hread, ht⟩ := hlands
  exact ht.read (hread hreads)

theorem statements_boundFor (tokens : List Token) {fuel : Nat}
    (hfuel : boundFor (Cursor.ofTokens tokens) ≤ fuel) :
    statements false fuel (Cursor.ofTokens tokens) =
      statements false (boundFor (Cursor.ofTokens tokens)) (Cursor.ofTokens tokens) :=
  ((Rule.statements false).settled (Cursor.ended_ofTokens tokens) hfuel).1

theorem statements_of_end {c : Cursor} {fuel : Nat} (h : c.skipNewlines.kind = .endOfInput) :
    statements false (fuel + 1) c = .ok ([], c.skipNewlines) := by
  unfold statements
  refine (bind_of_ok rfl).trans ((bind_of_ok rfl).trans ?_)
  rw [if_pos (.inl h)]
  rfl

theorem statements_of_not_end {c : Cursor} {fuel : Nat} (h : c.skipNewlines.kind ≠ .endOfInput) :
    statements false (fuel + 1) c =
      (do let stmt ← statement fuel; return stmt :: (← statements false fuel)) c.skipNewlines := by
  conv => lhs; unfold statements
  refine (bind_of_ok rfl).trans ((bind_of_ok rfl).trans ?_)
  rw [if_neg (by simp [h])]

theorem kind_of_statements {fuel : Nat} {stmts : List Stmt} {c c' : Cursor}
    (h : statements false fuel c = .ok (stmts, c')) : c'.kind = .endOfInput := by
  induction fuel generalizing c stmts with
  | zero => cases h
  | succ fuel ih =>
    by_cases hend : c.skipNewlines.kind = .endOfInput
    · rw [statements_of_end hend] at h
      cases h
      exact hend
    · rw [statements_of_not_end hend] at h
      obtain ⟨_, _, -, h⟩ := exists_of_bind_eq_ok h
      obtain ⟨_, _, hmore, h⟩ := exists_of_bind_eq_ok h
      cases h
      exact ih hmore

end Parser

theorem Program.ofTokens_eq_ok {tokens : List Token} {program : Program} {fuel : Nat}
    (hfuel : Parser.boundFor (Cursor.ofTokens tokens) ≤ fuel) :
    Program.ofTokens tokens = .ok program ↔
      ∃ c', Parser.statements false fuel (Cursor.ofTokens tokens) = .ok (program.body, c') := by
  rw [Parser.statements_boundFor tokens hfuel]
  unfold Program.ofTokens
  dsimp only
  cases Parser.statements false (Parser.boundFor (Cursor.ofTokens tokens))
      (Cursor.ofTokens tokens) with
  | error fault =>
    constructor
    · rintro ⟨⟩
    · rintro ⟨_, ⟨⟩⟩
  | ok pair =>
    constructor
    · rintro ⟨⟩
      exact ⟨pair.2, rfl⟩
    · rintro ⟨c', hpair⟩
      cases hpair
      rfl

theorem Program.ofTokens_eq_error {tokens : List Token} {fault : ParseFault} {fuel : Nat}
    (hfuel : Parser.boundFor (Cursor.ofTokens tokens) ≤ fuel) :
    Program.ofTokens tokens = .error fault ↔
      Parser.statements false fuel (Cursor.ofTokens tokens) = .error fault := by
  rw [Parser.statements_boundFor tokens hfuel]
  unfold Program.ofTokens
  dsimp only
  cases Parser.statements false (Parser.boundFor (Cursor.ofTokens tokens))
      (Cursor.ofTokens tokens) with
  | error first =>
    constructor
    · rintro ⟨⟩
      rfl
    · rintro ⟨⟩
      rfl
  | ok pair =>
    constructor
    · rintro ⟨⟩
    · rintro ⟨⟩

end Splice
