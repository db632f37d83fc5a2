import Splice.Proofs.Session.Preserved

/-! The lines that a run prints.  Each of them is put behind the lines that nobody has taken yet,
and it is there just once. -/
namespace Splice

namespace Session

def printed (s : Session) : List String :=
  s.journal.toList.filterMap fun
    | .printed line => some line
    | _ => none

theorem printed_say (s : Session) (line : String) : (s.say line).printed = s.printed ++ [line] := by
  simp [say, printed]

theorem printed_note (s : Session) (text : String) : (s.note text).printed = s.printed := by
  simp [note, printed]

theorem printed_draw (s : Session) (drawing : Drawing) : (s.draw drawing).printed = s.printed := by
  simp [draw, printed]

/-- The second session comes from the first one by printing these lines. -/
structure Prints (lines : List String) (s t : Session) : Prop where
  printed : t.printed = s.printed ++ lines
  output : t.output.toList = s.output.toList ++ lines

variable {s t u : Session}

theorem Prints.trans {first second : List String} (hst : Prints first s t)
    (htu : Prints second t u) : Prints (first ++ second) s u where
  printed := by rw [htu.printed, hst.printed, List.append_assoc]
  output := by rw [htu.output, hst.output, List.append_assoc]

/-- All that is printed on the way to the second session is put out. -/
def PutsOut (s t : Session) : Prop :=
  ∃ lines, Prints lines s t

theorem PutsOut.trans : PutsOut s t → PutsOut t u → PutsOut s u :=
  fun ⟨_, hst⟩ ⟨_, htu⟩ => ⟨_, hst.trans htu⟩

theorem PutsOut.nothing (hprinted : t.printed = s.printed) (houtput : t.output = s.output) :
    PutsOut s t :=
  ⟨[], by rw [hprinted, List.append_nil], by rw [houtput, List.append_nil]⟩

end Session

namespace Run

open Session

theorem putsOut_discipline : Discipline PutsOut PutsOut where
  refl _ := .nothing rfl rfl
  trans _ _ _ := PutsOut.trans
  transStmt _ _ _ := PutsOut.trans
  weaken _ _ h := h
  say s line := ⟨[line], s.printed_say line, by simp [Session.say]⟩
  note s text := .nothing (s.printed_note text) rfl
  draw s drawing := .nothing (s.printed_draw drawing) rfl
  remember _ _ := .nothing rfl rfl
  register s _ := .nothing (s.printed_note _) rfl
  answer _ _ := .nothing rfl rfl
  define _ _ _ := .nothing rfl rfl
  call := fun _ _ _ _ ⟨lines, h⟩ => ⟨lines, h.printed, h.output⟩
  inline := fun _ _ _ _ ⟨lines, h⟩ => ⟨lines, h.printed, h.output⟩

end Run

def Session.linesOf (s : Session) (fuel : Nat) (source : String) : List String :=
  (s.runSource fuel source).2.printed.drop s.printed.length

theorem Session.prints_linesOf (s : Session) (fuel : Nat) (source : String) :
    Prints (s.linesOf fuel source) s (s.runSource fuel source).2 := by
  obtain ⟨lines, h⟩ := Run.putsOut_discipline.runSource fuel source s
  have hlines : s.linesOf fuel source = lines := by
    rw [linesOf, h.printed, List.drop_left]
  rw [hlines]
  exact h

end Splice
