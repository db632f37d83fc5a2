import Splice.Proofs.Tree.Logic
import Splice.Proofs.Tree.Reading.Expr

/-! What two runs of one parser know of each other.  They read alike as long as neither asks whether
a statement ends where only the other one may see it end, and every routine keeps to that. -/
namespace Splice.Parser

variable {α β : Type} {n : Nat}

/-- What is known of the word that both runs have next: nothing, or that the word before it ends no
statement, or its kind. -/
inductive Sight where
  | any
  | fresh
  | seen (kind : Kind)
deriving Inhabited

/-- What is known of two runs: that they stand at a pair of cursors, or behind one before the indent
of a block, or that only the first one matters, since it will fail or has met the end of input. -/
inductive Twin where
  | paired (nesting : Nat) (sight : Sight)
  | opening (nesting : Nat)
  | astray
  | lost (next : Kind)

namespace Twin

def Follows : Twin → Prop
  | paired _ _ | opening _ => True
  | astray | lost _ => False

def Pairs (p : Nat → Sight → Prop) : Twin → Prop
  | paired n sight => p n sight
  | _ => False

def Sees (found : Kind) : Twin → Twin → Prop
  | paired n (.seen next), t => found = next ∧ t = paired n (.seen next)
  | paired n _, t => t = if found.endsStatement then lost found else paired n (.seen found)
  | lost next, t => found = next ∧ t = lost next
  | _, t => t = lost found

def MayExpect (wanted : Kind) : Twin → Prop
  | paired _ sight => wanted.endsStatement = false ∨ (wanted = .dedent ∧ sight = .seen .dedent)
  | lost next => next ≠ wanted
  | _ => False

def Skips : Twin → Twin → Prop
  | paired n _, t =>
    (∃ kind, kind ≠ .endOfInput ∧ paired n (.seen kind) = t) ∨ t = lost .endOfInput
  | opening n, t => t = paired n (.seen .indent)
  | astray, t => ∃ kind, kind ≠ .indent ∧ lost kind = t
  | lost _, t => ∃ kind, t = lost kind

section

variable {p : Nat → Sight → Prop} {sight : Sight} {kind found wanted : Kind} {s t : Twin}

@[simp] theorem pairs_paired : (paired n sight).Pairs p ↔ p n sight :=
  Iff.rfl

@[simp] theorem not_pairs_lost : ¬ (lost kind).Pairs p :=
  id

theorem Pairs.exists_eq (h : s.Pairs p) : ∃ n sight, s = paired n sight ∧ p n sight := by
  cases s with
  | paired n sight => exact ⟨n, sight, rfl, h⟩
  | opening | astray | lost => cases h

@[simp] theorem sees_seen :
    (paired n (.seen kind)).Sees found t ↔ found = kind ∧ t = paired n (.seen kind) :=
  Iff.rfl

@[simp] theorem sees_any : (paired n .any).Sees found t ↔
    t = if found.endsStatement then lost found else paired n (.seen found) :=
  Iff.rfl

@[simp] theorem sees_fresh : (paired n .fresh).Sees found t ↔
    t = if found.endsStatement then lost found else paired n (.seen found) :=
  Iff.rfl

@[simp] theorem sees_lost : (lost kind).Sees found t ↔ found = kind ∧ t = lost kind :=
  Iff.rfl

theorem Sees.cases (h : (paired n sight).Sees found t) :
    t = paired n (.seen found) ∨ (found.endsStatement = true ∧ t = lost found) := by
  cases sight with
  | seen kind =>
    obtain ⟨rfl, rfl⟩ := h
    exact .inl rfl
  | any | fresh =>
    cases hends : found.endsStatement with
    | true => exact .inr ⟨rfl, h.trans (if_pos hends)⟩
    | false => exact .inl (h.trans (if_neg (by simp [hends])))

@[simp] theorem mayExpect_paired : (paired n sight).MayExpect wanted ↔
    wanted.endsStatement = false ∨ (wanted = .dedent ∧ sight = .seen .dedent) :=
  Iff.rfl

@[simp] theorem mayExpect_lost : (lost kind).MayExpect wanted ↔ kind ≠ wanted :=
  Iff.rfl

@[simp] theorem skips_paired : (paired n sight).Skips t ↔
    (∃ kind, kind ≠ .endOfInput ∧ paired n (.seen kind) = t) ∨ t = lost .endOfInput :=
  Iff.rfl

@[simp] theorem skips_opening : (opening n).Skips t ↔ t = paired n (.seen .indent) :=
  Iff.rfl

@[simp] theorem skips_astray : astray.Skips t ↔ ∃ kind, kind ≠ .indent ∧ lost kind = t :=
  Iff.rfl

end

end Twin

@[simp] def Step.Followed : Step β → Twin → Prop
  | .kind, _ | .skipNewlines, _ => True
  | .isNext wanted, s => s.Pairs fun _ sight =>
    wanted.endsStatement = false ∧ (wanted.startsLine → sight = .fresh)
  | .ends, s => s.Pairs fun _ sight => sight = .fresh
  | .advance, s => s.Pairs fun _ sight => ∃ kind, sight = .seen kind ∧ kind.endsStatement = false
  | .accept wanted, s => s.Pairs fun _ _ =>
    wanted.endsStatement = false ∧ wanted.startsLine = false
  | .expect wanted _, s => s.MayExpect wanted
  | .leave, s => s.Pairs fun n _ => 0 < n
  | _, s => s.Pairs fun _ _ => True

@[simp] def Step.Twinned : Step β → Twin → β → Twin → Prop
  | .kind, s, found, t => s.Sees found t
  | .isNext wanted, s, found, t => s.Pairs fun n sight =>
    t = .paired n (if found then .seen wanted else sight)
  | .operator?, s, found, t => s.Pairs fun n sight =>
    t = .paired n (found.elim sight fun op => .seen (.operator op))
  | .advance, s, _, t => s.Pairs fun n _ => t = .paired n .fresh
  | .accept _, s, found, t | .acceptOtherwise, s, found, t => s.Pairs fun n sight =>
    t = .paired n (if found then .fresh else sight)
  | .expect wanted _, s, _, t => s.Pairs fun n _ =>
    t = .paired n (if wanted = .dedent then .any else .fresh)
  | .breakLine, s, _, t => s.Pairs fun n _ => t = .opening n ∨ t = .astray
  | .skipNewlines, s, _, t => s.Skips t
  | .enter, s, _, t => s.Pairs fun n sight => t = .paired (n + 1) sight
  | .leave, s, _, t => s.Pairs fun n sight => t = .paired (n - 1) sight
  | .opensGenerated, s, found, t => s.Pairs fun n _ => ∃ kind,
    (found = true → kind.endsStatement = false) ∧
      (if found then .paired n (.seen kind) else .lost kind) = t
  | .ends, s, _, t | .endStatement, s, _, t => t = s

@[simp] def Rule.Followed : Rule α → Twin → Prop
  | .statement, s | .statementForm, s => s.Pairs fun _ sight => ∃ kind, sight = .seen kind
  | .statements nested, s => s.Pairs fun _ _ => nested
  | _, s => s.Pairs fun _ _ => True

@[simp] def Rule.Twinned : Rule α → Twin → Twin → Prop
  | .childList, s, t | .statements _, s, t => s.Pairs fun n _ =>
    t = .paired n (.seen .dedent) ∨ t = .lost .endOfInput
  | _, s, t => s.Pairs fun n _ => ∃ sight, t = .paired n sight

@[simps] def twins : Logic Twin where
  allows := Step.Followed
  leads := Step.Twinned
  fails _ _ := True
  needs := Rule.Followed
  gives rule s _ := rule.Twinned s

theorem Rule.Followed.exists_eq {rule : Rule α} {s : Twin} (h : rule.Followed s) :
    ∃ n sight, s = .paired n sight := by
  have hpairs : s.Pairs fun _ _ => True := by
    cases s with
    | paired => trivial
    | opening | astray | lost => cases rule <;> cases h
  obtain ⟨n, sight, rfl, -⟩ := hpairs.exists_eq
  exact ⟨n, sight, rfl⟩

theorem Rule.Followed.follows {rule : Rule α} {s : Twin} (h : rule.Followed s) : s.Follows := by
  obtain ⟨n, sight, rfl⟩ := h.exists_eq
  trivial

namespace Routine

open Kind

variable {sight : Sight}

@[simp] theorem wp_openBlock {goal : Unit → Twin → Prop} :
    openBlock.wp twins (.paired n sight) goal ↔ goal () (.paired n .fresh) := by
  simp +decide [openBlock, or_imp, forall_and]

@[simp] theorem wp_params {goal : List String → Twin → Prop} :
    params.wp twins (.paired n sight) goal ↔ ∀ names, goal names (.paired n .fresh) := by
  have hnil (p : List String → Prop) : ((∀ names, p names) ∧ p []) ↔ ∀ names, p names :=
    ⟨And.left, fun h => ⟨h, h []⟩⟩
  simpa +decide [params] using hnil _

@[simp] theorem wp_optionalText {goal : Option String → Twin → Prop} :
    optionalText.wp twins (.paired n .fresh) goal ↔ ∀ text, goal text (.paired n .fresh) := by
  simp +decide [optionalText, Option.forall]

theorem wp_generated {sight' : Sight} : generated.wp twins (.paired n sight) fun _ =>
    Rule.statementForm.Twinned (.paired n sight') := by
  simp +contextual +decide [generated]

end Routine

open Routine Kind in
theorem Rule.wp_twins (rule : Rule α) {s : Twin} (h : rule.Followed s) :
    rule.routine.wp twins s fun _ => rule.Twinned s := by
  obtain ⟨n, sight, rfl⟩ := h.exists_eq
  cases rule with
  | operands level left =>
    simp only [routine, wp_bind, wp_step]
    refine ⟨trivial, ?_⟩
    rintro found _ rfl
    split <;> simp +decide [endsStatement]
  | primary =>
    simp only [routine, wp_bind, wp_step]
    refine ⟨trivial, fun found t ht => ?_⟩
    obtain rfl | ⟨hends, rfl⟩ := ht.cases
    · split <;> simp +decide [endsStatement]
    · cases found with
      | newline | dedent | endOfInput => trivial
      | _ => cases hends
  | childList =>
    simp only [routine, wp_bind, wp_step]
    refine ⟨trivial, fun _ t ht => ⟨trivial, ?_⟩⟩
    obtain ⟨kind, hkind, rfl⟩ | rfl := ht
    all_goals rintro found _ ⟨rfl, rfl⟩
    · simp [hkind]
    · simp
  | statement =>
    obtain ⟨kind, rfl⟩ := h
    simp [routine]
  | statementForm =>
    obtain ⟨kind, rfl⟩ := h
    simp only [routine, wp_bind, wp_step]
    refine ⟨trivial, ?_⟩
    rintro found _ ⟨rfl, rfl⟩
    split <;> simp +decide [wp_generated]
  | statements nested =>
    obtain rfl : nested = true := h
    simp only [routine, wp_bind, wp_step]
    refine ⟨trivial, fun _ t ht => ⟨trivial, ?_⟩⟩
    obtain ⟨kind, hkind, rfl⟩ | rfl := ht
    all_goals rintro found _ ⟨rfl, rfl⟩
    · simp [hkind]
    · simp
  | children | block => simp +decide [routine, or_imp, forall_and]
  | _ => simp +decide [routine]

end Splice.Parser
