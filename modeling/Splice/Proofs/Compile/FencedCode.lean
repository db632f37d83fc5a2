import Splice.Proofs.Collaborator.Fence
import Splice.Proofs.Compile.BlankLines

/-! Code in a fence is the same program as the code without it.  All that a fence leaves behind is a
line break, and a break behind a text neither makes a program of it nor changes the one it is. -/
namespace Splice

theorem Text.respaced_break (cs : List Char) : Respaced cs (cs ++ ['\n']) := by
  have hempty : IsFiller [] := ⟨[], [], rfl, List.forall_mem_nil _, .inl rfl⟩
  by_cases hbreak : '\n' ∈ cs
  · obtain ⟨line, later, rfl, hline⟩ := List.eq_append_cons_of_mem hbreak
    have hlater := Respaced.line hline (.inl rfl) (respaced_break later)
    simpa using hlater
  · have hlast := Respaced.after hbreak (.inl rfl) (.lastFiller hempty)
    simpa using hlast
termination_by cs.length

theorem compile_break {source : String} (hsize : source.utf8ByteSize + 1 < Span.limit)
    (program : Program) :
    compile (source ++ "\n") = .ok program ↔ compile source = .ok program := by
  have hbreak : (source ++ "\n").utf8ByteSize = source.utf8ByteSize + 1 :=
    String.utf8ByteSize_append
  refine compile_of_gist (Token.ofSource_ne_crash (hbreak ▸ hsize))
    (Token.ofSource_ne_crash (Nat.lt_of_succ_lt hsize)) ?_ program
  unfold Token.gist
  rw [String.toList_append]
  exact Token.gistFrom_respaced (Text.respaced_break source.toList) {}

theorem compile_comment (length : Nat) : compile (longComment length) = .ok ⟨[]⟩ := by
  have htokens : ∃ place, Token.ofSource (longComment length) = .ok [⟨place, .endOfInput, ""⟩] := by
    unfold Token.ofSource Token.ofList
    rw [Text.cut_line (newline_notMem_longComment length), Token.ofLines, Token.ofLine_longComment]
    exact ⟨_, rfl⟩
  obtain ⟨place, htokens⟩ := htokens
  exact compile_eq_ok.mpr ⟨_, htokens, rfl⟩

end Splice
