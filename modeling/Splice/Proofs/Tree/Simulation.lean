import Splice.Proofs.Tree.Fuel
import Splice.Proofs.Tree.Twins

/-! Two runs of the parsers over words that differ only where statements end.  A `Simulation` says
which pairs of cursors the runs may stand at and how far such a pair agrees on the next word; then
every parser that succeeds from the first cursor of a pair gives the same tree from the second one,
and a parser that fails does so at a cursor that the first run has reached. -/
namespace Splice

namespace Parser

/-- A pairing of cursors that the parsers keep, for each count of open groups.  Behind the end of a
statement the second run may stand at the first word of a further statement, but only after a
block. -/
structure Simulation where
  Reached : Cursor → Prop
  Paired : Nat → Cursor → Cursor → Prop
  ended : ∀ {c}, Reached c → c.Ended
  reached_advance : ∀ {c}, Reached c → Reached c.advance
  reached : ∀ {n c d}, Paired n c d → Reached c
  nesting_eq : ∀ {n c d}, Paired n c d → c.nesting = n ∧ d.nesting = n
  paired_within : ∀ {n c d} m, Paired n c d → Paired m (c.within m) (d.within m)
  word_eq : ∀ {n c d}, Paired n c d → c.kind.endsStatement = false → d.here.word = c.here.word
  ends : ∀ {n c d}, Paired n c d → c.kind.endsStatement = true →
    d.kind.endsStatement = true ∨ (c.AfterDedent ∧ d.kind.startsLine = true)
  afterDedent : ∀ {n c d}, Paired n c d → c.AfterDedent → d.AfterDedent
  paired_advance : ∀ {n c d}, Paired n c d → d.kind = c.kind → c.kind ≠ .newline →
    c.kind ≠ .endOfInput → Paired n c.advance d.advance
  /-- Behind line breaks the runs agree on the next word, but for the end of input. -/
  paired_skip : ∀ {n c d}, Paired n c d → c.skipNewlines.kind ≠ .endOfInput →
    Paired n c.skipNewlines d.skipNewlines ∧ d.skipNewlines.here.word = c.skipNewlines.here.word
  no_otherwise : ∀ {n c d}, Paired n c d → c.skipNewlines.kind = .endOfInput →
    d.skipNewlines.kind ≠ .keyword .otherwise
  paired_block : ∀ {n c d}, Paired n c d → c.kind = .newline →
    c.advance.skipNewlines.kind = .indent →
      d.kind = .newline ∧ Paired n c.advance.skipNewlines d.advance.skipNewlines

namespace Simulation

variable {S : Simulation} {n : Nat} {c d : Cursor}

def Fails (S : Simulation) (fault : ParseFault) : Prop :=
  ∃ c cause, S.Reached c ∧ fault = c.fault cause

theorem reached_skip (h : S.Reached c) : S.Reached c.skipNewlines :=
  Cursor.skipNewlines_induction (fun _ _ => S.reached_advance) h

theorem kind_eq (h : S.Paired n c d) (hkind : c.kind.endsStatement = false) : d.kind = c.kind :=
  congrArg Prod.fst (S.word_eq h hkind)

theorem advance_of_not_ends (h : S.Paired n c d) (hkind : c.kind.endsStatement = false) :
    S.Paired n c.advance d.advance := by
  refine S.paired_advance h (kind_eq h hkind) ?_ ?_ <;> intro heq <;> rw [heq] at hkind <;>
    cases hkind

/-- The runs agree on whether a word of one kind is next, unless the second run may start a
further statement with it. -/
theorem kind_eq_iff {kind : Kind} (h : S.Paired n c d) (hkind : kind.endsStatement = false)
    (hfresh : kind.startsLine = false ∨ ¬ c.AfterDedent) : d.kind = kind ↔ c.kind = kind := by
  cases hends : c.kind.endsStatement with
  | false => rw [kind_eq h hends]
  | true =>
    have hleft : c.kind ≠ kind := by
      rintro rfl
      rw [hkind] at hends
      cases hends
    have hright : d.kind ≠ kind := by
      rintro rfl
      rcases S.ends h hends with hd | ⟨hblock, hstarts⟩
      · rw [hkind] at hd
        cases hd
      · rcases hfresh with hline | hno
        · rw [hline] at hstarts
          cases hstarts
        · exact hno hblock
    exact ⟨fun heq => absurd heq hright, fun heq => absurd heq hleft⟩

end Simulation

variable {α β : Type} {S : Simulation} {n : Nat} {c d : Cursor}

def Sight.At : Sight → Cursor → Cursor → Prop
  | any, _, _ => True
  | fresh, c, _ => ¬ c.AfterDedent
  | seen kind, c, d => c.kind = kind ∧ d.here.word = c.here.word

theorem Sight.At.within {sight : Sight} (h : sight.At c d) (m k : Nat) :
    sight.At (c.within m) (d.within k) := by
  cases sight <;> exact h

def Twin.At (S : Simulation) : Twin → Cursor → Cursor → Prop
  | paired n sight, c, d => S.Paired n c d ∧ sight.At c d
  | opening n, c, d => S.Reached c ∧ c.skipNewlines.kind = .indent ∧
      S.Paired n c.skipNewlines d.skipNewlines
  | astray, c, _ => S.Reached c ∧ c.skipNewlines.kind ≠ .indent
  | lost next, c, _ => S.Reached c ∧ c.kind = next

/-- What two runs come to, as far as the first one matters: it fails where it has been, or the
second one gives the same answer, unless it has been left behind. -/
def Tracks (S : Simulation) (goal : α → Twin → Prop) :
    Except ParseFault (α × Cursor) → Except ParseFault (α × Cursor) → Prop
  | .ok (a, c), second => ∃ t d, goal a t ∧ t.At S c d ∧ (t.Follows → second = .ok (a, d))
  | .error fault, _ => S.Fails fault

theorem Tracks.of_ok {goal : α → Twin → Prop} {first second : Except ParseFault (α × Cursor)}
    {a : α} {t : Twin} (hfirst : first = .ok (a, c)) (hsecond : t.Follows → second = .ok (a, d))
    (hgoal : goal a t) (hat : t.At S c d) : Tracks S goal first second := by
  subst hfirst
  exact ⟨t, d, hgoal, hat, hsecond⟩

theorem Tracks.of_error {goal : α → Twin → Prop} {first second : Except ParseFault (α × Cursor)}
    {fault : ParseFault} (hfirst : first = .error fault) (h : S.Fails fault) :
    Tracks S goal first second := by
  subst hfirst
  exact h

theorem Tracks.bind {p q : Parser α} {f g : α → Parser β} {mid : α → Twin → Prop}
    {goal : β → Twin → Prop} {second : Except ParseFault (β × Cursor)}
    (hp : Tracks S mid (p c) (q d))
    (hf : ∀ a t c' d', mid a t → t.At S c' d' → (t.Follows → (q >>= g) d = g a d') →
      Tracks S goal (f a c') second) : Tracks S goal ((p >>= f) c) second := by
  cases hrun : p c with
  | error fault =>
    rw [hrun] at hp
    exact .of_error (bind_of_error hrun) hp
  | ok pair =>
    rw [hrun] at hp
    obtain ⟨t, d', hmid, hat, hfollows⟩ := hp
    rw [bind_of_ok hrun]
    exact hf pair.1 t pair.2 d' hmid hat fun ht => bind_of_ok (hfollows ht)

namespace Twin.At

variable {s : Twin} {sight : Sight}

theorem reached (h : s.At S c d) : S.Reached c := by
  cases s with
  | paired => exact S.reached h.1
  | opening | astray | lost => exact h.1

theorem fails (h : s.At S c d) (cause : ParseFault.Cause) : S.Fails (c.fault cause) :=
  ⟨c, cause, h.reached, rfl⟩

theorem advance (h : (paired n sight).At S c d) (hkind : c.kind.endsStatement = false) :
    (paired n .fresh).At S c.advance d.advance :=
  ⟨S.advance_of_not_ends h.1 hkind, Cursor.not_afterDedent_advance (S.ended h.reached) hkind⟩

end Twin.At

namespace Step

variable {s : Twin} {sight : Sight}

theorem tracks_kind (h : s.At S c d) :
    Tracks S (Step.kind.Twinned s) (Step.kind.run c) (Step.kind.run d) := by
  cases s with
  | opening | astray => exact ⟨.lost c.kind, d, rfl, ⟨h.1, rfl⟩, False.elim⟩
  | lost next => exact ⟨.lost next, d, ⟨h.2, rfl⟩, h, False.elim⟩
  | paired n sight =>
    have hseen (hword : d.here.word = c.here.word) :
        (Twin.paired n (.seen c.kind)).At S c d ∧ Step.kind.run d = .ok (c.kind, d) := by
      have hkind : d.kind = c.kind := congrArg Prod.fst hword
      exact ⟨⟨h.1, rfl, hword⟩, by rw [← hkind]; rfl⟩
    cases sight with
    | seen next =>
      obtain ⟨hat, hrun⟩ := hseen h.2.2
      exact ⟨_, d, ⟨h.2.1, rfl⟩, h.2.1 ▸ hat, fun _ => hrun⟩
    | any | fresh =>
      cases hends : c.kind.endsStatement with
      | true => exact ⟨.lost c.kind, d, (if_pos hends).symm, ⟨h.reached, rfl⟩, False.elim⟩
      | false =>
        obtain ⟨hat, hrun⟩ := hseen (S.word_eq h.1 hends)
        exact ⟨_, d, (if_neg (by simp [hends])).symm, hat, fun _ => hrun⟩

theorem tracks_skipNewlines (h : s.At S c d) :
    Tracks S (Step.skipNewlines.Twinned s) (Step.skipNewlines.run c) (Step.skipNewlines.run d) := by
  cases s with
  | opening n =>
    have hword := S.word_eq h.2.2 (by rw [h.2.1]; rfl)
    exact ⟨_, _, rfl, ⟨h.2.2, h.2.1, hword⟩, fun _ => rfl⟩
  | astray => exact ⟨_, d, ⟨_, h.2, rfl⟩, ⟨S.reached_skip h.1, rfl⟩, False.elim⟩
  | lost next => exact ⟨_, d, ⟨_, rfl⟩, ⟨S.reached_skip h.1, rfl⟩, False.elim⟩
  | paired n sight =>
    by_cases hend : c.skipNewlines.kind = .endOfInput
    · exact ⟨_, d, .inr rfl, ⟨S.reached_skip h.reached, hend⟩, False.elim⟩
    · obtain ⟨hpair, hword⟩ := S.paired_skip h.1 hend
      exact ⟨_, _, .inl ⟨_, hend, rfl⟩, ⟨hpair, rfl, hword⟩, fun _ => rfl⟩

theorem tracks_expect {wanted : Kind} {what : ParseFault.Expected} (hs : s.MayExpect wanted)
    (h : s.At S c d) : Tracks S ((Step.expect wanted what).Twinned s)
      ((Step.expect wanted what).run c) ((Step.expect wanted what).run d) := by
  by_cases hkind : c.kind = wanted
  · cases s with
    | opening | astray => cases hs
    | lost next => exact absurd (h.2.symm.trans hkind) hs
    | paired n sight =>
      obtain ⟨hword, hnext⟩ : d.here.word = c.here.word ∧ (Twin.paired n
          (if wanted = .dedent then .any else .fresh)).At S c.advance d.advance := by
        rcases hs with hread | ⟨rfl, rfl⟩
        · rw [← hkind] at hread
          have hdedent : wanted ≠ .dedent := by
            rintro rfl
            rw [hkind] at hread
            cases hread
          rw [if_neg hdedent]
          exact ⟨S.word_eq h.1 hread, h.advance hread⟩
        · have hsame : d.kind = c.kind := congrArg Prod.fst h.2.2
          exact ⟨h.2.2, S.paired_advance h.1 hsame (by simp [hkind]) (by simp [hkind]), trivial⟩
      have hother : d.kind = wanted := (congrArg Prod.fst hword).trans hkind
      rw [run, bind_of_ok (if_pos hkind), bind_of_ok (if_pos hother),
        show d.here.text = c.here.text from congrArg Prod.snd hword]
      exact ⟨_, _, rfl, hnext, fun _ => rfl⟩
  · rw [run, bind_of_error (if_neg hkind)]
    exact h.fails _

theorem tracks_isNext {wanted : Kind} (hwanted : wanted.endsStatement = false)
    (hfresh : wanted.startsLine = true → sight = .fresh) (h : (Twin.paired n sight).At S c d) :
    Tracks S ((Step.isNext wanted).Twinned (.paired n sight)) ((Step.isNext wanted).run c)
      ((Step.isNext wanted).run d) := by
  have hiff : d.kind = wanted ↔ c.kind = wanted := by
    refine S.kind_eq_iff h.1 hwanted ?_
    cases hline : wanted.startsLine with
    | false => exact .inl rfl
    | true =>
      obtain rfl := hfresh hline
      exact .inr h.2
  have hrun : (Step.isNext wanted).run d = .ok (decide (c.kind = wanted), d) := by
    rw [← decide_eq_decide.mpr hiff]
    rfl
  refine ⟨_, d, rfl, ⟨h.1, ?_⟩, fun _ => hrun⟩
  by_cases hkind : c.kind = wanted
  · rw [if_pos (decide_eq_true hkind)]
    exact ⟨hkind, S.word_eq h.1 (hkind ▸ hwanted)⟩
  · rw [if_neg (by simp [hkind])]
    exact h.2

theorem tracks_accept {wanted : Kind} (hwanted : wanted.endsStatement = false)
    (hline : wanted.startsLine = false) (h : (Twin.paired n sight).At S c d) :
    Tracks S ((Step.accept wanted).Twinned (.paired n sight)) ((Step.accept wanted).run c)
      ((Step.accept wanted).run d) := by
  have hiff := S.kind_eq_iff h.1 hwanted (.inl hline)
  by_cases hkind : c.kind = wanted
  · exact .of_ok (congrArg Except.ok (if_pos hkind))
      (fun _ => congrArg Except.ok (if_pos (hiff.mpr hkind))) rfl (h.advance (hkind ▸ hwanted))
  · exact .of_ok (congrArg Except.ok (if_neg hkind))
      (fun _ => congrArg Except.ok (if_neg fun hother => hkind (hiff.mp hother))) rfl h

theorem tracks_operator? (h : (Twin.paired n sight).At S c d) :
    Tracks S (Step.operator?.Twinned (.paired n sight)) (Step.operator?.run c)
      (Step.operator?.run d) := by
  have hnone {kind : Kind} (hkind : kind.endsStatement = true ∨ kind.startsLine = true) :
      kind.operator? = none := by
    cases kind with
    | operator op => rcases hkind with hkind | hkind <;> cases hkind
    | _ => rfl
  cases hends : c.kind.endsStatement with
  | true =>
    -- Neither the end of a statement nor the first word of a further one is an operator.
    have hother : d.kind.operator? = none :=
      hnone ((S.ends h.1 hends).imp_right And.right)
    have hrun : Step.operator?.run d = .ok (c.kind.operator?, d) := by
      rw [hnone (.inl hends), ← hother]
      rfl
    refine ⟨_, d, rfl, ?_, fun _ => hrun⟩
    rw [hnone (.inl hends)]
    exact h
  | false =>
    have hword := S.word_eq h.1 hends
    have hkind : d.kind = c.kind := congrArg Prod.fst hword
    have hrun : Step.operator?.run d = .ok (c.kind.operator?, d) := by
      rw [← hkind]
      rfl
    refine ⟨_, d, rfl, ⟨h.1, ?_⟩, fun _ => hrun⟩
    cases hop : c.kind with
    | operator op => exact ⟨hop, hword⟩
    | _ => exact h.2

theorem tracks_breakLine (h : (Twin.paired n sight).At S c d) :
    Tracks S (Step.breakLine.Twinned (.paired n sight)) (Step.breakLine.run c)
      (Step.breakLine.run d) := by
  by_cases hbreak : c.kind = .newline
  · have hreached := S.reached_advance h.reached
    have hrun : Step.breakLine.run c = .ok ((), c.advance) := bind_of_ok (if_pos hbreak)
    by_cases hindent : c.advance.skipNewlines.kind = .indent
    · obtain ⟨hother, hpair⟩ := S.paired_block h.1 hbreak hindent
      exact .of_ok hrun (fun _ => bind_of_ok (if_pos hother)) (.inl rfl) ⟨hreached, hindent, hpair⟩
    · exact .of_ok (d := d) hrun False.elim (.inr rfl) ⟨hreached, hindent⟩
  · exact .of_error (bind_of_error (if_neg hbreak)) (h.fails _)

theorem tracks_endStatement (h : (Twin.paired n sight).At S c d) :
    Tracks S (Step.endStatement.Twinned (.paired n sight)) (Step.endStatement.run c)
      (Step.endStatement.run d) := by
  by_cases hends : c.AfterDedent ∨ c.kind.endsStatement
  · have hother : d.AfterDedent ∨ d.kind.endsStatement := by
      rcases hends with hblock | hends
      · exact .inl (S.afterDedent h.1 hblock)
      · exact ((S.ends h.1 hends).imp_right fun hblock => S.afterDedent h.1 hblock.1).symm
    exact .of_ok (if_pos hends) (fun _ => if_pos hother) rfl h
  · exact .of_error (if_neg hends) (h.fails _)

theorem tracks_acceptOtherwise (h : (Twin.paired n sight).At S c d) :
    Tracks S (Step.acceptOtherwise.Twinned (.paired n sight)) (Step.acceptOtherwise.run c)
      (Step.acceptOtherwise.run d) := by
  by_cases hend : c.skipNewlines.kind = .endOfInput
  · have hno : c.skipNewlines.kind ≠ .keyword .otherwise := by simp [hend]
    exact .of_ok (congrArg Except.ok (if_neg hno))
      (fun _ => congrArg Except.ok (if_neg (S.no_otherwise h.1 hend))) rfl h
  · obtain ⟨hskip, hword⟩ := S.paired_skip h.1 hend
    have hkind : d.skipNewlines.kind = c.skipNewlines.kind := congrArg Prod.fst hword
    by_cases helse : c.skipNewlines.kind = .keyword .otherwise
    · have hat : (Twin.paired n .any).At S c.skipNewlines d.skipNewlines := ⟨hskip, trivial⟩
      exact .of_ok (congrArg Except.ok (if_pos helse))
        (fun _ => congrArg Except.ok (if_pos (hkind.trans helse))) rfl
        (hat.advance (by rw [helse]; rfl))
    · exact .of_ok (congrArg Except.ok (if_neg helse))
        (fun _ => congrArg Except.ok (if_neg (hkind ▸ helse))) rfl h

theorem tracks_enter (h : (Twin.paired n sight).At S c d) :
    Tracks S (Step.enter.Twinned (.paired n sight)) (Step.enter.run c) (Step.enter.run d) := by
  obtain ⟨rfl, hother⟩ := S.nesting_eq h.1
  by_cases hdeep : maxNesting ≤ c.nesting
  · exact .of_error (if_pos hdeep) (h.fails _)
  · refine .of_ok (if_neg hdeep) (fun _ => if_neg (by omega)) rfl ⟨?_, h.2.within _ _⟩
    rw [hother]
    exact S.paired_within (c.nesting + 1) h.1

theorem tracks_leave (h : (Twin.paired n sight).At S c d) :
    Tracks S (Step.leave.Twinned (.paired n sight)) (Step.leave.run c) (Step.leave.run d) := by
  obtain ⟨rfl, hother⟩ := S.nesting_eq h.1
  refine .of_ok rfl (fun _ => rfl) rfl ⟨?_, h.2.within _ _⟩
  rw [hother]
  exact S.paired_within (c.nesting - 1) h.1

theorem tracks_opensGenerated (h : (Twin.paired n sight).At S c d) :
    Tracks S (Step.opensGenerated.Twinned (.paired n sight)) (Step.opensGenerated.run c)
      (Step.opensGenerated.run d) := by
  by_cases hopens : c.kind = .keyword .function ∨ (c.kind = .ident ∧ c.here.text = "function")
  · have hread : c.kind.endsStatement = false := by
      rcases hopens with hword | ⟨hword, -⟩ <;> rw [hword] <;> rfl
    have hword := S.word_eq h.1 hread
    have hother :
        d.kind = .keyword .function ∨ (d.kind = .ident ∧ d.here.text = "function") := by
      rw [show d.kind = c.kind from congrArg Prod.fst hword,
        show d.here.text = c.here.text from congrArg Prod.snd hword]
      exact hopens
    simp only [run, Parser.opensGenerated, hopens, hother, decide_true]
    exact ⟨_, d, ⟨c.kind, fun _ => hread, rfl⟩, ⟨h.1, rfl, hword⟩, fun _ => rfl⟩
  · simp only [run, Parser.opensGenerated, hopens, decide_false]
    exact ⟨_, d, ⟨c.kind, Bool.noConfusion, rfl⟩, ⟨h.reached, rfl⟩, False.elim⟩

theorem tracks_ends (h : (Twin.paired n .fresh).At S c d) :
    Tracks S (Step.ends.Twinned (.paired n .fresh)) (Step.ends.run c) (Step.ends.run d) := by
  have hsame : d.kind.endsStatement = c.kind.endsStatement := by
    cases hends : c.kind.endsStatement with
    | true => exact (S.ends h.1 hends).resolve_right fun hblock => h.2 hblock.1
    | false => rw [S.kind_eq h.1 hends, hends]
  exact .of_ok rfl (fun _ => congrArg (fun found => Except.ok (found, d)) hsame) rfl h

theorem tracks_advance {kind : Kind} (hkind : kind.endsStatement = false)
    (h : (Twin.paired n (.seen kind)).At S c d) :
    Tracks S (Step.advance.Twinned (.paired n (.seen kind))) (Step.advance.run c)
      (Step.advance.run d) := by
  obtain ⟨rfl, hword⟩ := h.2
  have htext : d.here.text = c.here.text := congrArg Prod.snd hword
  exact .of_ok rfl (fun _ => congrArg (fun text => Except.ok (text, d.advance)) htext) rfl
    (h.advance hkind)

theorem tracks (step : Step β) (hs : step.Followed s) (h : s.At S c d) :
    Tracks S (step.Twinned s) (step.run c) (step.run d) := by
  cases step with
  | kind => exact tracks_kind h
  | skipNewlines => exact tracks_skipNewlines h
  | expect wanted what => exact tracks_expect hs h
  | isNext wanted =>
    obtain ⟨n, sight, rfl, hwanted, hfresh⟩ := hs.exists_eq
    exact tracks_isNext hwanted hfresh h
  | accept wanted =>
    obtain ⟨n, sight, rfl, hwanted, hline⟩ := hs.exists_eq
    exact tracks_accept hwanted hline h
  | ends =>
    obtain ⟨n, _, rfl, rfl⟩ := hs.exists_eq
    exact tracks_ends h
  | advance =>
    obtain ⟨n, _, rfl, kind, rfl, hkind⟩ := hs.exists_eq
    exact tracks_advance hkind h
  | operator? =>
    obtain ⟨n, sight, rfl, -⟩ := hs.exists_eq
    exact tracks_operator? h
  | breakLine =>
    obtain ⟨n, sight, rfl, -⟩ := hs.exists_eq
    exact tracks_breakLine h
  | enter =>
    obtain ⟨n, sight, rfl, -⟩ := hs.exists_eq
    exact tracks_enter h
  | leave =>
    obtain ⟨n, sight, rfl, -⟩ := hs.exists_eq
    exact tracks_leave h
  | endStatement =>
    obtain ⟨n, sight, rfl, -⟩ := hs.exists_eq
    exact tracks_endStatement h
  | acceptOtherwise =>
    obtain ⟨n, sight, rfl, -⟩ := hs.exists_eq
    exact tracks_acceptOtherwise h
  | opensGenerated =>
    obtain ⟨n, sight, rfl, -⟩ := hs.exists_eq
    exact tracks_opensGenerated h

theorem follows_of_twinned {step : Step β} {b : β} {t : Twin} (h : step.Twinned s b t)
    (ht : t.Follows) : s.Follows := by
  cases s with
  | paired | opening => trivial
  | astray =>
    cases step with
    | skipNewlines =>
      obtain ⟨_, -, rfl⟩ := h
      exact ht
    | kind =>
      obtain rfl : t = .lost b := h
      exact ht
    | ends | endStatement => exact h ▸ ht
    | _ => exact h
  | lost next =>
    cases step with
    | kind =>
      obtain ⟨-, rfl⟩ := h
      exact ht
    | skipNewlines =>
      obtain ⟨_, rfl⟩ := h
      exact ht
    | ends | endStatement => exact h ▸ ht
    | _ => exact h

end Step

/-- A run of a routine is followed by the other one as long as its steps are. -/
theorem Routine.tracks {parse : ∀ {β : Type}, Rule β → Parser β}
    (hcall : ∀ {β : Type} (rule : Rule β) {s c d}, rule.Followed s → s.At S c d →
      Tracks S (fun _ => rule.Twinned s) (parse rule c) (parse rule d))
    (r : Routine α) {s : Twin} {goal : α → Twin → Prop} {second : Except ParseFault (α × Cursor)}
    (h : r.wp twins s goal) (hat : s.At S c d) (hsecond : s.Follows → second = r.run parse d) :
    Tracks S goal (r.run parse c) second := by
  induction r generalizing s c d with
  | done a => exact .of_ok rfl hsecond h hat
  | fail cause => exact .of_error rfl (hat.fails cause)
  | step first next ih =>
    exact (first.tracks h.1 hat).bind fun b t c' d' hleads hat' hnext =>
      ih b (h.2 b t hleads) hat' fun ht =>
        (hsecond (Step.follows_of_twinned hleads ht)).trans (hnext ht)
  | call rule next ih =>
    exact (hcall rule h.1 hat).bind fun b t c' d' hgives hat' hnext =>
      ih b (h.2 b t hgives) hat' fun ht => (hsecond (Rule.Followed.follows h.1)).trans (hnext ht)

theorem Rule.tracks (rule : Rule α) (fuel : Nat) {s : Twin} (h : rule.Followed s)
    (hat : s.At S c d) :
    Tracks S (fun _ => rule.Twinned s) (rule.parse fuel c) (rule.parse fuel d) := by
  induction fuel generalizing α s c d with
  | zero =>
    rw [rule.parse_zero]
    exact .of_error rfl (hat.fails _)
  | succ fuel ih =>
    rw [rule.parse_succ]
    exact rule.routine.tracks (fun rule _ _ _ => ih rule) (rule.wp_twins h) hat fun _ => rfl

namespace Simulation

/-- A statement that both runs see the first word of. -/
theorem statement_tracks (fuel : Nat) (h : S.Paired n c d)
    (hword : d.here.word = c.here.word) :
    Tracks S (fun _ t => ∃ sight, t = .paired n sight) (statement fuel c) (statement fuel d) :=
  Rule.statement.tracks fuel (s := .paired n (.seen c.kind)) ⟨_, rfl⟩ ⟨h, rfl, hword⟩

theorem statements_fails {fuel : Nat} {fault : ParseFault} (h : S.Paired n c d)
    (hrun : statements false fuel c = .error fault) : S.Fails fault := by
  induction fuel generalizing c d with
  | zero =>
    cases hrun
    exact ⟨c, _, S.reached h, rfl⟩
  | succ fuel ih =>
    by_cases hend : c.skipNewlines.kind = .endOfInput
    · rw [statements_of_end hend] at hrun
      cases hrun
    rw [statements_of_not_end hend] at hrun
    obtain ⟨hskip, hword⟩ := S.paired_skip h hend
    have hfirst := statement_tracks fuel hskip hword
    cases hstmt : statement fuel c.skipNewlines with
    | error first =>
      rw [hstmt] at hfirst
      rw [bind_of_error hstmt] at hrun
      cases hrun
      exact hfirst
    | ok pair =>
      rw [hstmt] at hfirst
      obtain ⟨_, d', ⟨sight, rfl⟩, hnext, -⟩ := hfirst
      rw [bind_of_ok hstmt] at hrun
      cases hmore : statements false fuel pair.2 with
      | error later =>
        rw [bind_of_error hmore] at hrun
        cases hrun
        exact ih hnext.1 hmore
      | ok _ =>
        rw [bind_of_ok hmore] at hrun
        cases hrun

/-- Where the first run ends with the end of input, the second one goes on. -/
theorem statements_goes_on {fuel : Nat} {stmts : List Stmt} {c' : Cursor} (h : S.Paired n c d)
    (hrun : statements false fuel c = .ok (stmts, c')) :
    ∃ c₀ d₀ rest, S.Paired n c₀ d₀ ∧ c₀.skipNewlines.kind = .endOfInput ∧
      fuel = stmts.length + (rest + 1) ∧
      ∀ more d', statements false (rest + 1) d₀ = .ok (more, d') →
        statements false fuel d = .ok (stmts ++ more, d') := by
  induction fuel generalizing c d stmts with
  | zero => cases hrun
  | succ fuel ih =>
    by_cases hend : c.skipNewlines.kind = .endOfInput
    · rw [statements_of_end hend] at hrun
      cases hrun
      exact ⟨c, d, fuel, h, hend, by simp, fun more d' hmore => hmore⟩
    rw [statements_of_not_end hend] at hrun
    obtain ⟨hskip, hword⟩ := S.paired_skip h hend
    have hkind : d.skipNewlines.kind = c.skipNewlines.kind := congrArg Prod.fst hword
    have hfirst := statement_tracks fuel hskip hword
    obtain ⟨stmt, c₁, hstmt, hrun⟩ := exists_of_bind_eq_ok hrun
    obtain ⟨later, c₂, hlater, ⟨⟩⟩ := exists_of_bind_eq_ok hrun
    rw [hstmt] at hfirst
    obtain ⟨_, d₁, ⟨sight, rfl⟩, hnext, hfollows⟩ := hfirst
    obtain ⟨c₀, d₀, rest, hpair, hlast, hfuel, hgo⟩ := ih hnext.1 hlater
    refine ⟨c₀, d₀, rest, hpair, hlast, by simp [hfuel]; omega, fun more d' hrest => ?_⟩
    rw [statements_of_not_end (hkind ▸ hend), bind_of_ok (hfollows trivial),
      bind_of_ok (hgo more d' hrest)]
    rfl

end Simulation

end Parser

end Splice
