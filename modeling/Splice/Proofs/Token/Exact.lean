import Splice.Proofs.Token.Shape

/-! How the words of a text are written.  Most kinds have one spelling, and the words of a text have
it. -/
namespace Splice

open Spelling (dedents)

/-- Whether a word is written as all words of its kind are, unless the kind leaves that open. -/
def Word.isExact (w : Word) : Bool :=
  match w.1 with
  | .ident | .number | .string | .keyword .binding => true
  | kind => w.2 = kind.text

/-- Words as whole texts have them: the end of input comes last and only there. -/
def Word.Legible (ws : List Word) : Prop :=
  ∃ body, ws = body ++ [Kind.endOfInput.word] ∧
    ∀ w ∈ body, w.isExact = true ∧ w.1 ≠ .endOfInput

namespace Word

theorem Legible.tail {w : Word} {ws : List Word} (h : Legible (w :: ws)) (hw : w.1 ≠ .endOfInput) :
    w.isExact = true ∧ Legible ws := by
  obtain ⟨body, hwords, hbody⟩ := h
  cases body with
  | nil =>
    cases hwords
    exact absurd rfl hw
  | cons v body =>
    cases hwords
    obtain ⟨hw, hbody⟩ := List.forall_mem_cons.mp hbody
    exact ⟨hw.1, body, rfl, hbody⟩

theorem Legible.end {w : Word} {ws : List Word} (h : Legible (w :: ws)) (hw : w.1 = .endOfInput) :
    w :: ws = [Kind.endOfInput.word] := by
  obtain ⟨body, hwords, hbody⟩ := h
  cases body with
  | nil => exact hwords
  | cons v body =>
    cases hwords
    exact absurd hw (hbody w List.mem_cons_self).2

end Word

namespace Line

theorem isExact_of_ofWord? {word : String} {kind : Kind} (h : Kind.ofWord? word = some kind) :
    Word.isExact (kind, word) = true := by
  unfold Kind.ofWord? at h
  split at h <;> cases h <;> rfl

theorem isExact_of_symbol? {c : Char} {kind : Kind} (h : symbol? c = some kind) :
    Word.isExact (kind, String.ofList [c]) = true := by
  unfold symbol? at h
  split at h <;> cases h <;> rfl

theorem munch_isExact {c : Char} {cs text : List Char} {kind : Kind} {more : Nat}
    (h : munch c cs = some (.token kind text, more)) :
    Word.isExact (kind, String.ofList text) = true := by
  unfold munch at h
  split at h
  · cases h
  split at h
  · cases h
  split at h
  · cases h
    unfold Kind.ofWord
    cases hword : Kind.ofWord? (String.ofList (c :: cs.takeWhile isWordPart)) with
    | some kind => exact isExact_of_ofWord? hword
    | none => rfl
  split at h
  · cases h
    rfl
  split at h
  · dsimp only at h
    split at h
    · cases h
      rfl
    · cases h
  split at h
  · cases h
    rfl
  split at h
  · cases h
    rfl
  · obtain ⟨_, hsymbol, hpair⟩ := Option.map_eq_some_iff.mp h
    cases hpair
    exact isExact_of_symbol? hsymbol

theorem words_isExact {cs : List Char} {us : List Word} (h : words cs = .ok us) :
    ∀ w ∈ us, w.isExact = true ∧ w.1 ≠ .endOfInput := by
  fun_induction words cs generalizing us with
  | case1 =>
    cases h
    simp
  | case2 => cases h
  | case3 c cs stretch more hmunch ih =>
    obtain ⟨vs, hrest, rfl⟩ := exists_of_map_eq_ok h
    intro w hw
    rcases List.mem_append.mp hw with hmem | hmem
    · cases stretch with
      | gap | comment => cases hmem
      | token kind text =>
        obtain rfl := List.mem_singleton.mp hmem
        refine ⟨munch_isExact hmunch, ?_⟩
        rintro rfl
        cases (munch_isSpelled hmunch).2
    · exact ih hrest w hmem

end Line

namespace Token

theorem lineWords_isExact {layout moved : Layout} {cs : List Char} {us : List Word}
    (h : lineWords layout cs = .ok (us, moved)) :
    ∀ w ∈ us, w.isExact = true ∧ w.1 ≠ .endOfInput := by
  have hshift (shift : Layout.Shift) : ∀ w ∈ shift.words, w.isExact = true ∧ w.1 ≠ .endOfInput := by
    cases shift with
    | opens => simp [Layout.Shift.words, Kind.word, Word.isExact]
    | closes count => simp +contextual [Layout.Shift.words, dedents, Kind.word, Word.isExact]
    | mismatch expected => simp [Layout.Shift.words]
  obtain ⟨-, rfl, -⟩ | ⟨-, shift, vs, -, -, hline, rfl⟩ := lineWords_cases h
  · simp
  · intro w hw
    rcases List.mem_append.mp hw with hmem | hmem
    · exact hshift _ w hmem
    · exact Line.words_isExact hline w hmem

theorem linesWords_legible {layout : Layout} {line : Nat} {cs : List Char}
    {later : List (List Char)} {ws : List Word} (h : linesWords layout line cs later = .ok ws) :
    Word.Legible ws := by
  induction later generalizing layout line cs ws with
  | nil =>
    obtain ⟨us, moved, hline, rfl⟩ := linesWords_nil_eq_ok.mp h
    refine ⟨us ++ dedents moved.depth, (List.append_assoc _ _ _).symm, ?_⟩
    intro w hw
    rcases List.mem_append.mp hw with hmem | hmem
    · exact lineWords_isExact hline w hmem
    · rw [List.eq_of_mem_replicate hmem]
      exact ⟨rfl, by decide⟩
  | cons next later ih =>
    obtain ⟨us, moved, vs, hline, hrest, rfl⟩ := linesWords_cons_eq_ok.mp h
    obtain ⟨body, rfl, hbody⟩ := ih hrest
    refine ⟨us ++ Kind.newline.word :: body, by simp, ?_⟩
    intro w hw
    rcases List.mem_append.mp hw with hmem | hmem
    · exact lineWords_isExact hline w hmem
    · rcases List.mem_cons.mp hmem with rfl | hmem
      · exact ⟨rfl, by decide⟩
      · exact hbody w hmem

theorem ofSource_legible {source : String} {tokens : List Token}
    (h : ofSource source = .ok tokens) : Word.Legible (tokens.map Token.word) :=
  linesWords_legible (words_of_ofSource h)

end Token

end Splice
