import Mathlib.Data.List.TakeWhile
import Splice.Proofs.Emit.Cpp.Lexemes

/-! Escapes in literals of C++.  A backslash that is not escaped itself escapes the character after
it, so a character is escaped if the run of backslashes right before it has an odd length.  What
stands for one character of a text leaves no backslash unpaired, and so every character of the text
is escaped, or not, as if it stood alone. -/
namespace Splice.Cpp

def slashes (cs : List Char) : Nat :=
  (cs.reverse.takeWhile (· == '\\')).length

def Escapes (before : List Char) : Prop :=
  slashes before % 2 = 1

instance (before : List Char) : Decidable (Escapes before) :=
  inferInstanceAs (Decidable (_ = _))

/-- The run at the end goes on into what stands before only where all else is backslashes. -/
theorem slashes_append (cs ds : List Char) :
    slashes (cs ++ ds) = slashes ds ∨ slashes (cs ++ ds) = slashes cs + slashes ds := by
  unfold slashes
  rw [List.reverse_append, List.takeWhile_append]
  split
  · rename_i hall
    right
    rw [List.length_append, hall, Nat.add_comm]
  · exact .inl rfl

theorem escapes_append {cs : List Char} (hcs : ¬ Escapes cs) (ds : List Char) :
    Escapes (cs ++ ds) ↔ Escapes ds := by
  unfold Escapes at hcs ⊢
  rcases slashes_append cs ds with h | h
  · rw [h]
  · omega

theorem not_escapes_escapeChar (c : Char) : ¬ Escapes (escapeChar c) := by
  unfold escapeChar
  split_ifs with hslash
  · decide
  · decide
  · decide
  · decide
  · decide
  · have hlone : slashes [c] = 0 := by simp [slashes, hslash]
    rw [Escapes, hlone]
    decide

theorem eq_quote_of_mem {c : Char} (h : '"' ∈ escapeChar c) : c = '"' := by
  unfold escapeChar at h
  split_ifs at h with hslash hdouble
  · simp at h
  · exact hdouble
  · simp at h
  · simp at h
  · simp at h
  · exact (List.mem_singleton.mp h).symm

theorem escapes_of_escapeChar {c : Char} {before after : List Char}
    (h : escapeChar c = before ++ '"' :: after) : Escapes before := by
  obtain rfl := eq_quote_of_mem (by simp [h] : '"' ∈ escapeChar c)
  rcases List.cons_eq_append_iff.mp h with ⟨rfl, hnext⟩ | ⟨more, rfl, hnext⟩
  · cases hnext
  · rcases List.cons_eq_append_iff.mp hnext with ⟨rfl, -⟩ | ⟨rest, -, hrest⟩
    · decide
    · simp at hrest

theorem plain_of_mem_escapeChar {c d : Char} (h : d ∈ escapeChar c) :
    d ≠ '\n' ∧ d ≠ '\t' ∧ d ≠ '\r' := by
  unfold escapeChar at h
  split_ifs at h with hslash hdouble hbreak htab hreturn
  iterate 5
    simp only [List.mem_cons, List.not_mem_nil, or_false] at h
    rcases h with rfl | rfl <;> decide
  obtain rfl := List.mem_singleton.mp h
  exact ⟨hbreak, htab, hreturn⟩

theorem not_escapes_escaped (cs : List Char) : ¬ Escapes (cs.flatMap escapeChar) := by
  induction cs with
  | nil => decide
  | cons c cs ih =>
    rw [List.flatMap_cons, escapes_append (not_escapes_escapeChar c)]
    exact ih

theorem escapes_quote {cs before after : List Char}
    (h : cs.flatMap escapeChar = before ++ '"' :: after) : Escapes before := by
  induction cs generalizing before with
  | nil => simp at h
  | cons c cs ih =>
    rw [List.flatMap_cons, List.append_eq_append_iff] at h
    rcases h with ⟨inner, rfl, hrest⟩ | ⟨inner, hchar, hrest⟩
    · -- the quote stands behind what is written for the first character
      rw [escapes_append (not_escapes_escapeChar c)]
      exact ih hrest
    · cases inner with
      | nil => exact absurd (@ih [] hrest.symm) (by decide)
      | cons d inner =>
        obtain ⟨rfl, -⟩ := List.cons.inj hrest
        exact escapes_of_escapeChar hchar

/-- The characters that stand between the quotes of a literal, each escape read as one. -/
def decode? : List Char → Option (List Char)
  | [] => some []
  | '\\' :: [] => none
  | '\\' :: c :: cs => do
    let d ← unescape? c
    let text ← decode? cs
    return d :: text
  | c :: cs => (decode? cs).map (c :: ·)

theorem decode?_escaped (text : List Char) : decode? (text.flatMap escapeChar) = some text := by
  induction text with
  | nil => rfl
  | cons c text ih =>
    rw [List.flatMap_cons]
    by_cases hspecial : c = '\\' ∨ c = '"' ∨ c = '\n' ∨ c = '\t' ∨ c = '\r'
    · rcases hspecial with rfl | rfl | rfl | rfl | rfl <;>
        simp [escapeChar, decode?, unescape?, ih]
    · simp only [not_or] at hspecial
      simp [escapeChar, decode?, hspecial, ih]

/-- The string that is made from the characters of a literal.  It is handed over without its length
and ends before the first NUL. -/
def stringOf (cs : List Char) : List Char :=
  cs.takeWhile (· ≠ '\x00')

theorem stringOf_eq_self {cs : List Char} (h : '\x00' ∉ cs) : stringOf cs = cs := by
  refine List.takeWhile_eq_self_iff.mpr fun c hc => ?_
  rw [decide_eq_true_eq]
  rintro rfl
  exact h hc

theorem toList_escape (text : String) : (escape text).toList = text.toList.flatMap escapeChar :=
  String.toList_ofList

/-- An escaped text breaks no line, none of its quotes ends a literal and its end escapes nothing;
it is read as the text.  So the literal that is written for a text ends with its own closing quote,
whatever follows, and is a string with this text. -/
theorem escape_faithful {text : String} (hnul : '\x00' ∉ text.toList) :
    (∀ c ∈ (escape text).toList, c ≠ '\n' ∧ c ≠ '\t' ∧ c ≠ '\r') ∧
      (∀ before after, (escape text).toList = before ++ '"' :: after → Escapes before) ∧
      ¬ Escapes (escape text).toList ∧
      decode? (escape text).toList = some text.toList ∧
      (∀ depth, expr depth (.text text) = literal text) ∧
      ∀ later : List Char,
        (literal text).toList ++ later =
            "string(\"".toList ++ ((escape text).toList ++ '"' :: ')' :: later) ∧
          ∃ cs, quoted? ((escape text).toList ++ '"' :: ')' :: later) =
              some (cs, (escape text).toList.length + 1) ∧
            stringOf cs = text.toList := by
  refine ⟨?_, ?_, ?_, ?_, ?_, ?_⟩
  · intro c hc
    rw [toList_escape, List.mem_flatMap] at hc
    obtain ⟨_, -, hwritten⟩ := hc
    exact plain_of_mem_escapeChar hwritten
  · intro before after h
    rw [toList_escape] at h
    exact escapes_quote h
  · rw [toList_escape]
    exact not_escapes_escaped text.toList
  · rw [toList_escape]
    exact decode?_escaped text.toList
  · intro depth
    rw [expr]
  · intro later
    refine ⟨?_, text.toList, ?_, stringOf_eq_self hnul⟩
    · simp [literal, String.toList_append]
    · rw [toList_escape]
      exact quoted?_escaped text.toList (')' :: later)

theorem escape_faithful_backslashes :
    '\x00' ∉ "a\\\"\n\\".toList ∧ (escape "a\\\"\n\\").toList = "a\\\\\\\"\\n\\\\".toList ∧
      ¬ Escapes (escape "a\\\"\n\\").toList ∧
      decode? "a\\\\\\\"\\n\\\\".toList = some "a\\\"\n\\".toList ∧
      ∃ cs, quoted? ("a\\\\\\\"\\n\\\\".toList ++ "\") + x".toList) = some (cs, 10) ∧
        stringOf cs = "a\\\"\n\\".toList := by
  have hnul : '\x00' ∉ "a\\\"\n\\".toList := by decide
  have htext : (escape "a\\\"\n\\").toList = "a\\\\\\\"\\n\\\\".toList := by decide
  obtain ⟨-, -, hend, hdecode, -, hliteral⟩ := escape_faithful hnul
  obtain ⟨-, hquoted⟩ := hliteral " + x".toList
  rw [htext] at hdecode hquoted
  exact ⟨hnul, htext, hend, hdecode, hquoted⟩

end Splice.Cpp
