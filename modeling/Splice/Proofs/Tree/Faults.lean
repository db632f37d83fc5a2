import Mathlib.Order.Lattice.Nat
import Splice.Proofs.Tree.Progress

/-! A fault of a token sequence is settled by the tokens up to the one that it names.  No step
before the fault has looked any further, so every sequence that starts with these tokens has the
same fault. -/
namespace Splice

namespace Cursor

variable {tokens others : List Token} {c d : Cursor} {m n : Nat}

theorem Alike.mono (h : c.Alike n d) (hle : m ≤ n) (hreach : c.position ≤ m) : c.Alike m d := by
  refine ⟨h.before, h.nesting, hreach, ?_⟩
  have hahead := congrArg (List.take (m + 1 - c.position)) h.ahead
  rwa [List.take_take, List.take_take, min_eq_left (by omega)] at hahead

theorem alike_ofTokens (hn : n < (Token.completed tokens).length)
    (hstart : (Token.completed tokens).take (n + 1) <+: Token.completed others) :
    (ofTokens tokens).Alike n (ofTokens others) := by
  have hsame := List.prefix_iff_eq_take.mp hstart
  rw [List.length_take, min_eq_left hn] at hsame
  refine ⟨?_, ?_, ?_, ?_⟩
  · rw [before_ofTokens, before_ofTokens]
  · rw [nesting_ofTokens, nesting_ofTokens]
  · simp [position, before_ofTokens]
  · rw [here_cons_after_completed, here_cons_after_completed]
    simpa [position, before_ofTokens] using hsame

theorem On.getElem?_position (h : c.On tokens) : tokens[c.position]? = some c.here := by
  rw [← h.tokens_eq]
  simp [position]

end Cursor

namespace Parser

variable {tokens : List Token} {fault : ParseFault} {fuel k : Nat}

/-- With some fuel, the fault shows at the token at one place, whatever follows. -/
structure ShowsAt (tokens : List Token) (fault : ParseFault) (fuel k : Nat) : Prop where
  token : ∃ token, (Token.completed tokens)[k]? = some token ∧ fault.place = token.toPlace ∧
    fault.found = token.kind
  same : ∀ d, (Cursor.ofTokens tokens).Alike k d → statements false fuel d = .error fault

theorem ShowsAt.lt_length (h : ShowsAt tokens fault fuel k) :
    k < (Token.completed tokens).length := by
  obtain ⟨token, htoken, -⟩ := h.token
  exact (List.getElem?_eq_some_iff.mp htoken).1

theorem exists_showsAt (hrun : statements false fuel (Cursor.ofTokens tokens) = .error fault)
    (hcause : fault.cause ≠ .boundReached) : ∃ k, ShowsAt tokens fault fuel k := by
  let rule := Rule.statements false
  let s := rule.script fuel
  have hs : s.run = statements false fuel := rule.run_script fuel
  have hobeys := @Rule.obeys_script _ rule fuel ⟨0, .owing⟩ trivial
  rw [← hs] at hrun
  have hended := Cursor.ended_ofTokens tokens
  have hstart : Stage.Holds ⟨0, .owing⟩ 0 (Cursor.ofTokens tokens) :=
    ⟨Cursor.nesting_ofTokens tokens, by simp [Cursor.nesting_ofTokens], .inl (Nat.zero_le _)⟩
  obtain ⟨-, hsees⟩ := hobeys.position_le hended hstart hrun hcause
  have hon := (Cursor.on_ofTokens tokens).leads (s.leads_last _)
  refine ⟨_, ⟨_, hon.getElem?_position, ?_⟩, fun d hd => ?_⟩
  · rcases s.run_cases (Cursor.ofTokens tokens) with ⟨a, hlast⟩ | ⟨cause, hlast⟩
    · cases hrun.symm.trans hlast
    · cases hrun.symm.trans hlast
      exact ⟨rfl, rfl⟩
  · rw [← hs]
    exact s.run_alike hd hended hsees le_rfl hrun

/-- Each amount of fuel has its own place; none is further than the furthest of them. -/
theorem exists_furthest (h : Program.ofTokens tokens = .error fault) :
    ∃ k fuel, ShowsAt tokens fault fuel k ∧ ∀ enough, boundFor (Cursor.ofTokens tokens) ≤ enough →
      ∃ j ≤ k, ShowsAt tokens fault enough j := by
  have hcause := ((Rule.statements false).settled (Cursor.ended_ofTokens tokens) le_rfl).2 fault
    ((Program.ofTokens_eq_error le_rfl).mp h)
  have hshows (enough : Nat) (henough : boundFor (Cursor.ofTokens tokens) ≤ enough) :
      ∃ k, ShowsAt tokens fault enough k :=
    exists_showsAt ((Program.ofTokens_eq_error henough).mp h) hcause
  let places := {k | ∃ fuel, ShowsAt tokens fault fuel k}
  have hbounded : BddAbove places := by
    refine ⟨(Token.completed tokens).length, fun k hk => ?_⟩
    obtain ⟨fuel, hk⟩ := hk
    exact Nat.le_of_lt hk.lt_length
  have hsome : places.Nonempty := by
    obtain ⟨k, hk⟩ := hshows _ le_rfl
    exact ⟨k, _, hk⟩
  obtain ⟨fuel, hfurthest⟩ := Nat.sSup_mem hsome hbounded
  refine ⟨sSup places, fuel, hfurthest, fun enough henough => ?_⟩
  obtain ⟨j, hj⟩ := hshows enough henough
  exact ⟨j, le_csSup hbounded ⟨enough, hj⟩, hj⟩

end Parser

/-- A fault of a token sequence names one of its tokens, and every sequence that agrees up to this
token has the same fault, whatever follows. -/
theorem Program.fault_settled {tokens : List Token} {fault : ParseFault}
    (h : Program.ofTokens tokens = .error fault) :
    ∃ k token, (Token.completed tokens)[k]? = some token ∧ fault.place = token.toPlace ∧
      fault.found = token.kind ∧
      ∀ others, (Token.completed tokens).take (k + 1) <+: Token.completed others →
        Program.ofTokens others = .error fault := by
  obtain ⟨k, fuel, hk, hall⟩ := Parser.exists_furthest h
  obtain ⟨token, htoken, hplace, hfound⟩ := hk.token
  refine ⟨k, token, htoken, hplace, hfound, fun others hstart => ?_⟩
  obtain ⟨j, hle, hj⟩ := hall _ (le_max_left _ (Parser.boundFor (Cursor.ofTokens others)))
  have halike := Cursor.alike_ofTokens hk.lt_length hstart
  have hnear := halike.mono hle (by simp [Cursor.position, Cursor.before_ofTokens])
  exact (Program.ofTokens_eq_error (le_max_right _ _)).mpr (hj.same _ hnear)

/-- The block of an `if`, a blank line behind it, and a parenthesis where an `else` might stand. -/
def Token.strayParen : List Token :=
  [(Kind.keyword .branch, "if"), (.ident, "x"), (.colon, ":"), (.newline, ""), (.indent, ""),
    (.ident, "y"), (.newline, ""), (.dedent, ""), (.newline, ""), (.rightParen, ")")].map
    fun word => ⟨⟨1, 1, ⟨0, 0⟩⟩, word.1, word.2⟩

theorem Program.fault_settled_strayParen :
    ∃ fault, Program.ofTokens Token.strayParen = .error fault ∧ fault.found = .rightParen ∧
      ∃ k token, (Token.completed Token.strayParen)[k]? = some token ∧
        fault.place = token.toPlace ∧ fault.found = token.kind ∧
        ∀ others, (Token.completed Token.strayParen).take (k + 1) <+: Token.completed others →
          Program.ofTokens others = .error fault :=
  ⟨⟨.unexpectedToken .rightParen, ⟨1, 1, ⟨0, 0⟩⟩, .rightParen⟩, rfl, rfl,
    Program.fault_settled rfl⟩

end Splice
