import Splice.Proofs.Session.Preserved

/-! Frames over whole runs.  Expressions and calls leave every frame as it was; statements touch
only the innermost frame, where they add names or bind existing ones anew.  Both hold however the
run ends, and for code that the collaborator wrote as for any other. -/
namespace Splice

theorem Table.names_put {α : Type} (t : Table α) (name : String) (value : α) :
    (t.put name value).names = if name ∈ t.names then t.names else t.names ++ [name] := by
  obtain ⟨entries⟩ := t
  unfold put names
  dsimp only
  induction entries with
  | nil => simp [putEntries]
  | cons e rest ih =>
    obtain ⟨n, v⟩ := e
    by_cases h : n = name
    · simp [putEntries, h]
    · have h' : name ≠ n := fun hn => h hn.symm
      simp only [putEntries, if_neg h, List.map_cons, ih, List.mem_cons, h', false_or]
      split <;> simp

theorem Table.names_prefix_put {α : Type} (t : Table α) (name : String) (value : α) :
    t.names <+: (t.put name value).names := by
  rw [names_put]
  split
  · exact List.prefix_refl _
  · exact List.prefix_append _ _

namespace Frames

/-- All frames, innermost first; the globals are the last. -/
def stack (f : Frames) : List Scope :=
  f.calls ++ [f.globals]

/-- From `f` to `g` only the innermost frame changed, and its names are still there in order. -/
structure Grows (f g : Frames) : Prop where
  depth : g.depth = f.depth
  below : g.stack.tail = f.stack.tail
  names : f.current.names <+: g.current.names

theorem Grows.refl (f : Frames) : f.Grows f :=
  ⟨rfl, rfl, List.prefix_refl _⟩

theorem Grows.trans {f g h : Frames} (hfg : f.Grows g) (hgh : g.Grows h) : f.Grows h :=
  ⟨hgh.depth.trans hfg.depth, hgh.below.trans hfg.below, hfg.names.trans hgh.names⟩

theorem Grows.define (f : Frames) (name : String) (value : Value) :
    f.Grows (f.define name value) := by
  obtain ⟨globals, calls⟩ := f
  cases calls with
  | nil => exact ⟨rfl, rfl, globals.names_prefix_put name value⟩
  | cons scope outer => exact ⟨rfl, rfl, scope.names_prefix_put name value⟩

theorem Grows.pop_eq {f g : Frames} {scope : Scope}
    (h : Grows { f with calls := scope :: f.calls } g) : g.pop = f := by
  obtain ⟨globals, calls⟩ := g
  have hdepth : calls.length = f.calls.length + 1 := h.depth
  cases calls with
  | nil => simp at hdepth
  | cons top outer =>
    have hbelow : outer ++ [globals] = f.calls ++ [f.globals] := h.below
    obtain ⟨houter, hglobals⟩ := List.append_inj' hbelow rfl
    cases List.singleton_inj.mp hglobals
    subst houter
    rfl

end Frames

namespace Run

theorem frames_discipline : Discipline (fun s t => t.frames = s.frames)
    (fun s t => s.frames.Grows t.frames) where
  refl _ := rfl
  trans _ _ _ hst htu := htu.trans hst
  transStmt _ _ _ := Frames.Grows.trans
  weaken s t h := by rw [h]; exact Frames.Grows.refl _
  say _ _ := rfl
  note _ _ := rfl
  draw _ _ := rfl
  remember _ _ := rfl
  register _ _ := rfl
  answer _ _ := rfl
  define s name value := Frames.Grows.define s.frames name value
  call _ _ _ _ h := Frames.Grows.pop_eq h
  inline _ _ _ _ h := Frames.Grows.pop_eq h

/-- Frame discipline of every run from every session, whatever its outcome. -/
theorem frames_after_run (fuel : Nat) (s : Session) :
    (∀ e, (eval fuel e s).2.frames = s.frames) ∧
    (∀ name args, (call fuel name args s).2.frames = s.frames) ∧
    (∀ stmt, s.frames.Grows (exec fuel stmt s).2.frames) ∧
    (∀ stmts, s.frames.Grows (execBlock fuel stmts s).2.frames) ∧
    (∀ program, s.frames.Grows (runProgram fuel program s).2.frames) ∧
    (∀ program, s.frames.Grows (evaluate fuel program s).2.frames ∧
      (evaluate fuel program s).2.frames.depth = s.frames.depth) ∧
    (∀ source, s.frames.Grows (s.runSource fuel source).2.frames ∧
      (s.runSource fuel source).2.frames.depth = s.frames.depth) := by
  have hall := frames_discipline.all fuel
  refine ⟨fun e => hall.eval e s, fun name args => hall.call name args s,
    fun stmt => hall.exec stmt s, fun stmts => hall.execBlock stmts s,
    fun program => hall.runProgram program s, fun program => ?_, fun source => ?_⟩
  · have hgrows := frames_discipline.evaluate fuel program s
    exact ⟨hgrows, hgrows.depth⟩
  · have hgrows := frames_discipline.runSource fuel source s
    exact ⟨hgrows, hgrows.depth⟩

end Run

end Splice
