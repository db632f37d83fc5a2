/-!
# Places in a source text

Lines and columns count from one, columns in characters.  Spans count bytes of the UTF-8 form from
zero and are kept in 32 bits.
-/

namespace Splice

/-- Why a computation has no result: it fails, or the whole program crashes under it. -/
inductive Halt (ε : Type) where
  | fault (reason : ε)
  | crash
  deriving DecidableEq, Repr

def Halt.map {ε δ : Type} (f : ε → δ) : Halt ε → Halt δ
  | .fault reason => .fault (f reason)
  | .crash => .crash

structure Span where
  start : Nat
  stop : Nat
  deriving DecidableEq, Repr

namespace Span

def limit : Nat := 4294967296

/-- The span between two offsets, each reduced to 32 bits.  No span ends before it starts: a stretch
of text that goes on past the limit crashes the program. -/
def between {ε : Type} (start stop : Nat) : Except (Halt ε) Span :=
  if start % limit ≤ stop % limit then .ok ⟨start % limit, stop % limit⟩ else .error .crash

theorem between_eq {ε : Type} {start stop : Nat} (hle : start ≤ stop) (hstop : stop < limit) :
    (between start stop : Except (Halt ε) Span) = .ok ⟨start, stop⟩ := by
  unfold between
  rw [Nat.mod_eq_of_lt hstop, Nat.mod_eq_of_lt (Nat.lt_of_le_of_lt hle hstop), if_pos hle]

theorem between_cases {ε : Type} (start stop : Nat) :
    (between start stop : Except (Halt ε) Span) = .error .crash ∨
      ∃ span, (between start stop : Except (Halt ε) Span) = .ok span := by
  unfold between
  split
  · exact .inr ⟨_, rfl⟩
  · exact .inl rfl

def point (offset : Nat) : Span :=
  ⟨offset % limit, offset % limit⟩

end Span

structure Place where
  line : Nat
  column : Nat
  span : Span
  deriving DecidableEq, Repr

end Splice
