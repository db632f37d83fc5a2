import Splice.Proofs.Tree.Spelling
import Splice.Proofs.Tree.Moves

/-! How a parser runs over words that are known to come next.  A run either gives its tree and
stands behind the words, or it fails because the words nest too deep; which of the two is decided
by the greatest nesting that the run reaches. -/
namespace Splice

namespace Cursor

def Passes (c : Cursor) (ws : List Word) (c' : Cursor) : Prop :=
  ∃ tokens : List Token, tokens.map Token.word = ws ∧
    c.here :: c.after = tokens ++ c'.here :: c'.after ∧
    c'.before = tokens.reverse ++ c.before ∧ c'.nesting = c.nesting

def within (c : Cursor) (nesting : Nat) : Cursor :=
  { c with nesting := nesting }

@[simp] theorem nesting_within (c : Cursor) (nesting : Nat) :
    (c.within nesting).nesting = nesting := rfl

variable {c c' : Cursor} {ws us vs : List Word}

theorem Passes.nesting (h : c.Passes ws c') : c'.nesting = c.nesting := by
  obtain ⟨_, _, _, _, hnesting⟩ := h
  exact hnesting

theorem Passes.nil (h : c.Passes [] c') : c' = c := by
  obtain ⟨tokens, hwords, hsame, hbefore, hnesting⟩ := h
  obtain rfl := List.map_eq_nil_iff.mp hwords
  injection hsame with hhere hafter
  cases c
  cases c'
  simp_all

theorem Passes.append (h : c.Passes (us ++ vs) c') : ∃ mid, c.Passes us mid ∧ mid.Passes vs c' := by
  obtain ⟨tokens, hwords, hsame, hbefore, hnesting⟩ := h
  obtain ⟨first, last, rfl, hfirst, hlast⟩ := List.map_eq_append_iff.mp hwords
  obtain ⟨here, after, hmid⟩ : ∃ here after, last ++ c'.here :: c'.after = here :: after :=
    List.exists_cons_of_ne_nil (by simp)
  refine ⟨⟨first.reverse ++ c.before, here, after, c.nesting⟩,
    ⟨first, hfirst, ?_, rfl, rfl⟩, ⟨last, hlast, hmid.symm, ?_, hnesting⟩⟩
  · rw [hsame, List.append_assoc, hmid]
  · rw [hbefore, List.reverse_append, List.append_assoc]

theorem Passes.next {kind : Kind} {text : String} (h : c.Passes ((kind, text) :: ws) c')
    (hkind : kind ≠ .endOfInput) :
    c.kind = kind ∧ c.here.text = text ∧ c.advance.Passes ws c' := by
  obtain ⟨tokens, hwords, hsame, hbefore, hnesting⟩ := h
  obtain ⟨token, later, rfl, htoken, hlater⟩ := List.map_eq_cons_iff.mp hwords
  rw [List.cons_append] at hsame
  injection hsame with hhere hafter
  injection htoken with htokenKind htokenText
  have hck : c.kind = kind := by
    rw [← htokenKind, ← hhere]
    rfl
  obtain ⟨next, more, hmore⟩ : ∃ next more, c.after = next :: more := by
    rw [hafter]
    exact List.exists_cons_of_ne_nil (by simp)
  have hmove : c.advance = ⟨c.here :: c.before, next, more, c.nesting⟩ := by
    unfold Cursor.advance
    rw [hmore]
    dsimp only
    rw [if_neg (by simp [atEnd, hck, hkind])]
  refine ⟨hck, by rw [hhere, htokenText], later, hlater, ?_, ?_, ?_⟩
  · rw [hmove, ← hafter, hmore]
  · rw [hmove, hbefore, hhere, List.reverse_cons, List.append_assoc]
    rfl
  · rw [hmove]
    exact hnesting

theorem Passes.last {w : Word} (h : c.Passes (ws ++ [w]) c') :
    c'.before.head?.map (·.kind) = some w.1 := by
  obtain ⟨tokens, hwords, -, hbefore, -⟩ := h
  obtain ⟨first, last, rfl, -, hlast⟩ := List.map_eq_append_iff.mp hwords
  obtain ⟨token, rfl, htoken⟩ := List.map_eq_singleton_iff.mp hlast
  rw [hbefore, ← htoken]
  simp [Token.word]

theorem Passes.within (h : c.Passes ws c') (nesting : Nat) :
    (c.within nesting).Passes ws (c'.within nesting) := by
  obtain ⟨tokens, hwords, hsame, hbefore, -⟩ := h
  exact ⟨tokens, hwords, hsame, hbefore, rfl⟩

end Cursor

namespace Parser

variable {α β : Type} {c c' mid : Cursor} {peak more : Nat} {a : α} {b : β}

def Gives (p : Parser α) (c c' : Cursor) (peak : Nat) (a : α) : Prop :=
  if peak ≤ maxNesting then p c = .ok (a, c')
  else ∃ fault, p c = .error fault ∧ fault.cause = .nestingTooDeep maxNesting

def Yields (p : Nat → Parser α) (c c' : Cursor) (peak : Nat) (a : α) : Prop :=
  ∃ enough, ∀ fuel, enough ≤ fuel → Gives (p fuel) c c' peak a

theorem Gives.bind {p : Parser α} {f : α → Parser β} (hp : Gives p c mid peak a)
    (hf : peak ≤ maxNesting → Gives (f a) mid c' more b) :
    Gives (p >>= f) c c' (max peak more) b := by
  unfold Gives at *
  by_cases hpeak : peak ≤ maxNesting
  · rw [if_pos hpeak] at hp
    rw [bind_of_ok hp]
    have hf := hf hpeak
    by_cases hmore : more ≤ maxNesting
    · rw [if_pos hmore] at hf
      rw [if_pos (by omega)]
      exact hf
    · rw [if_neg hmore] at hf
      rw [if_neg (by omega)]
      exact hf
  · rw [if_neg hpeak] at hp
    obtain ⟨fault, hfault, hcause⟩ := hp
    rw [if_neg (by omega)]
    exact ⟨fault, bind_of_error hfault, hcause⟩

namespace Yields

theorem bind {p : Nat → Parser α} {f : Nat → α → Parser β} (hp : Yields p c mid peak a)
    (hf : peak ≤ maxNesting → Yields (fun fuel => f fuel a) mid c' more b) :
    Yields (fun fuel => p fuel >>= f fuel) c c' (max peak more) b := by
  obtain ⟨n, hp⟩ := hp
  by_cases hpeak : peak ≤ maxNesting
  · obtain ⟨m, hf⟩ := hf hpeak
    exact ⟨max n m, fun fuel hfuel => (hp fuel (by omega)).bind fun _ => hf fuel (by omega)⟩
  · exact ⟨n, fun fuel hfuel => (hp fuel hfuel).bind fun h => absurd h hpeak⟩

theorem succ {p : Nat → Parser α} (h : Yields (fun fuel => p (fuel + 1)) c c' peak a) :
    Yields p c c' peak a := by
  obtain ⟨n, h⟩ := h
  refine ⟨n + 1, fun fuel hfuel => ?_⟩
  obtain ⟨fuel, rfl⟩ : ∃ k, fuel = k + 1 := ⟨fuel - 1, by omega⟩
  exact h fuel (by omega)

theorem congr {p : Nat → Parser α} (h : Yields p c c' peak a) (heq : peak = more) :
    Yields p c c' more a :=
  heq ▸ h

theorem within {p : Nat → Parser α} (h : Yields p c c' peak a) (hpeak : peak ≤ maxNesting)
    (hmore : more ≤ maxNesting) : Yields p c c' more a := by
  obtain ⟨n, h⟩ := h
  refine ⟨n, fun fuel hfuel => ?_⟩
  have hgives := h fuel hfuel
  unfold Gives at hgives ⊢
  rw [if_pos hpeak] at hgives
  rw [if_pos hmore]
  exact hgives

theorem andThen {p : Nat → Parser α} {f : Nat → α → Parser β} {total : Nat}
    (hp : Yields p c mid peak a) (more : Nat)
    (hf : peak ≤ maxNesting → Yields (fun fuel => f fuel a) mid c' more b)
    (htotal : max peak more = total) : Yields (fun fuel => p fuel >>= f fuel) c c' total b :=
  (hp.bind hf).congr htotal

theorem pure (c : Cursor) (a : α) : Yields (fun _ => pure a) c c 0 a :=
  ⟨0, fun _ _ => rfl⟩

theorem of_ok {p : Parser α} {f : Nat → α → Parser β} (hp : p c = .ok (a, mid))
    (hf : Yields (fun fuel => f fuel a) mid c' peak b) :
    Yields (fun fuel => p >>= f fuel) c c' peak b := by
  obtain ⟨n, hf⟩ := hf
  refine ⟨n, fun fuel hfuel => ?_⟩
  have hgives := hf fuel hfuel
  unfold Gives at hgives ⊢
  dsimp only at hgives ⊢
  rw [bind_of_ok hp]
  exact hgives

theorem map {p : Nat → Parser α} (make : α → β) (h : Yields p c c' peak a) :
    Yields (fun fuel => do return make (← p fuel)) c c' peak (make a) :=
  (h.bind fun _ => pure c' (make a)).congr (Nat.max_zero peak)

theorem kind {f : Nat → Kind → Parser β} (h : Yields (fun fuel => f fuel c.kind) c c' peak b) :
    Yields (fun fuel => Parser.kind >>= f fuel) c c' peak b :=
  of_ok rfl h

theorem advance {f : Nat → Token → Parser β}
    (h : Yields (fun fuel => f fuel c.here) c.advance c' peak b) :
    Yields (fun fuel => Parser.advance >>= f fuel) c c' peak b :=
  of_ok rfl h

theorem expect {kind : Kind} {what : ParseFault.Expected} {f : Nat → Token → Parser β}
    (hkind : c.kind = kind) (h : Yields (fun fuel => f fuel c.here) c.advance c' peak b) :
    Yields (fun fuel => Parser.expect kind what >>= f fuel) c c' peak b :=
  of_ok (if_pos hkind) h

theorem accept {kind : Kind} {f : Nat → Bool → Parser β} (hkind : c.kind = kind)
    (h : Yields (fun fuel => f fuel true) c.advance c' peak b) :
    Yields (fun fuel => Parser.accept kind >>= f fuel) c c' peak b :=
  of_ok (congrArg Except.ok (if_pos hkind)) h

theorem decline {kind : Kind} {f : Nat → Bool → Parser β} (hkind : c.kind ≠ kind)
    (h : Yields (fun fuel => f fuel false) c c' peak b) :
    Yields (fun fuel => Parser.accept kind >>= f fuel) c c' peak b :=
  of_ok (congrArg Except.ok (if_neg hkind)) h

theorem enter {f : Nat → Unit → Parser β} (hpeak : c.nesting < peak)
    (h : c.nesting < maxNesting →
      Yields (fun fuel => f fuel ()) (c.within (c.nesting + 1)) c' peak b) :
    Yields (fun fuel => Parser.enter >>= f fuel) c c' peak b := by
  by_cases hdeep : maxNesting ≤ c.nesting
  · refine ⟨0, fun fuel _ => ?_⟩
    unfold Gives
    rw [if_neg (by omega)]
    have henter : Parser.enter c = .error (c.fault (.nestingTooDeep maxNesting)) := if_pos hdeep
    exact ⟨c.fault (.nestingTooDeep maxNesting), bind_of_error henter, rfl⟩
  · exact of_ok (if_neg hdeep) (h (by omega))

theorem close {kind : Kind} {text : String} {what : ParseFault.Expected}
    (h : c.Passes [(kind, text)] (c'.within (c'.nesting + 1))) (hkind : kind ≠ .endOfInput) :
    Yields (fun _ => do let _ ← Parser.expect kind what; leave; return a) c c' 0 a := by
  obtain ⟨hnext, -, hrest⟩ := h.next hkind
  refine expect hnext (of_ok rfl ?_)
  rw [← hrest.nil]
  exact pure c' a

end Yields

end Parser

end Splice
