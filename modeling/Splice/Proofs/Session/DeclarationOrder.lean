import Splice.Proofs.Session.Alike

/-! The order in which a program declares its functions never matters.  Tables that are built up in
different orders hold the same entries, and a run looks functions up by their names only, while it
goes on to register and replace functions itself. -/
namespace Splice

/-- The same names with the same entries, in an order that may differ. -/
structure Table.SameEntries {α : Type} (f g : Table α) : Prop where
  get? : ∀ name, f.get? name = g.get? name
  names : f.names.Perm g.names

namespace Table.SameEntries

variable {α : Type} {f g h : Table α}

theorem refl (f : Table α) : f.SameEntries f :=
  ⟨fun _ => rfl, .refl _⟩

theorem trans (hfg : f.SameEntries g) (hgh : g.SameEntries h) : f.SameEntries h :=
  ⟨fun name => (hfg.get? name).trans (hgh.get? name), hfg.names.trans hgh.names⟩

theorem put (hfg : f.SameEntries g) (name : String) (value : α) :
    (f.put name value).SameEntries (g.put name value) where
  get? other := by
    by_cases hother : other = name
    · subst hother
      rw [get?_put_self, get?_put_self]
    · rw [get?_put_of_ne _ _ hother, get?_put_of_ne _ _ hother, hfg.get? other]
  names := by
    rw [names_put, names_put]
    simp only [hfg.names.mem_iff]
    split
    · exact hfg.names
    · exact hfg.names.append_right [name]

theorem put_put (f : Table α) {a b : String} (hab : a ≠ b) (x y : α) :
    ((f.put a x).put b y).SameEntries ((f.put b y).put a x) where
  get? other := by
    by_cases hb : other = b
    · subst hb
      rw [get?_put_self, get?_put_of_ne _ _ hab.symm, get?_put_self]
    · rw [get?_put_of_ne _ _ hb]
      by_cases ha : other = a
      · subst ha
        rw [get?_put_self, get?_put_self]
      · rw [get?_put_of_ne _ _ ha, get?_put_of_ne _ _ ha, get?_put_of_ne _ _ hb]
  names := by
    simp only [names_put]
    by_cases ha : a ∈ f.names
    · by_cases hb : b ∈ f.names
      · simp [ha, hb]
      · simp [ha, hb]
    · by_cases hb : b ∈ f.names
      · simp [ha, hb]
      · simp only [ha, hb, if_false, List.mem_append, List.mem_singleton, hab, hab.symm, or_false,
          List.append_assoc]
        exact .append_left _ (.swap b a [])

end Table.SameEntries

/-- The same statements in the same order, with the same functions declared in some other order and
anywhere among them. -/
structure Program.Reordered (p q : Program) : Prop where
  functions : p.functions.Perm q.functions
  statements : p.body.filter (·.function?.isNone) = q.body.filter (·.function?.isNone)

theorem unnoticed_order : Unnoticed Table.SameEntries (· = ·) where
  get? h := h.get?
  put h := h.put
  answer h r := by rw [h]
  after h r := by rw [h]

namespace Session

def SameButOrder : Session → Session → Prop :=
  Alike Table.SameEntries (· = ·)

theorem SameButOrder.refl (s : Session) : s.SameButOrder s :=
  ⟨rfl, rfl, rfl, rfl, rfl, .refl _, rfl⟩

theorem SameButOrder.trans {s t u : Session} (hst : s.SameButOrder t) (htu : t.SameButOrder u) :
    s.SameButOrder u :=
  ⟨hst.config.trans htu.config, hst.frames.trans htu.frames, hst.facts.trans htu.facts,
    hst.output.trans htu.output, hst.drawings.trans htu.drawings,
    hst.functions.trans htu.functions, hst.backend.trans htu.backend⟩

theorem sameButOrder_register_register (s : Session) {a b : Function} (hab : a.name ≠ b.name) :
    ((s.register a).register b).SameButOrder ((s.register b).register a) :=
  ⟨rfl, rfl, rfl, rfl, by simp, .put_put s.functions hab _ _, rfl⟩

theorem sameButOrder_registerAll {fs gs : List Function} (hperm : fs.Perm gs)
    (hnames : (fs.map (·.name)).Nodup) (s : Session) :
    (fs.foldl register s).SameButOrder (gs.foldl register s) := by
  induction hperm generalizing s with
  | nil => exact .refl s
  | cons f _ ih => exact ih (List.nodup_cons.mp hnames).2 (s.register f)
  | swap f g later =>
    have hne : g.name ≠ f.name := fun heq =>
      (List.nodup_cons.mp hnames).1 (List.mem_cons.mpr (.inl heq))
    exact unnoticed_order.coupling.registerAll 0 later (s.sameButOrder_register_register hne)
  | trans hfg _ ihfg ihgh =>
    exact (ihfg hnames s).trans (ihgh ((hfg.map _).nodup_iff.mp hnames) s)

end Session

namespace Run

open Session

theorem any_main_of_perm {fs gs : List Function} (hperm : fs.Perm gs) :
    fs.any (·.name == "main") = gs.any (·.name == "main") := by
  rw [Bool.eq_iff_iff, List.any_eq_true, List.any_eq_true]
  simp only [hperm.mem_iff]

theorem runProgram_reordered {p q : Program} (hpq : p.Reordered q)
    (hnames : (p.functions.map (·.name)).Nodup) (fuel : Nat) :
    Agree SameButOrder (runProgram fuel p) (runProgram fuel q) := by
  cases fuel with
  | zero => exact .outOfFuel
  | succ fuel =>
    have hall := unnoticed_order.coupling.all fuel
    refine Agree.bind (.modify fun s t hst => ?_) fun _ => ?_
    · exact (sameButOrder_registerAll hpq.functions hnames s).trans
        (unnoticed_order.coupling.registerAll 0 q.functions hst)
    · rw [any_main_of_perm hpq.functions, hpq.statements]
      split
      · exact (hall.call 0 "main" []).bind fun _ => .pure _
      · exact (hall.execBlock 0 _).bind fun _ => .pure _

/-- Two programs that declare functions of different names in different orders, and run the same
statements otherwise, have one outcome from every session; they leave the same session but for the
order of its functions. -/
theorem evaluate_reordered {p q : Program} (hpq : p.Reordered q)
    (hnames : (p.functions.map (·.name)).Nodup) (fuel : Nat) (s : Session) :
    (evaluate fuel p s).1 = (evaluate fuel q s).1 ∧
      (evaluate fuel p s).2.SameButOrder (evaluate fuel q s).2 :=
  Agree.evaluate (runProgram_reordered hpq hnames fuel) unnoticed_order.reportFailure s s
    (.refl s)

/-- Two functions, one of which calls the other, before the statement that needs them and around
it. -/
theorem evaluate_reordered_around :
    let ask : Stmt := .function "ask" [] [.ret (some (.call "answer" []))]
    let answer : Stmt := .function "answer" [] [.ret (some (.text "found"))]
    let use : Stmt := .expr (.call "print" [.call "ask" []])
    let p : Program := ⟨[ask, answer, use]⟩
    let q : Program := ⟨[answer, use, ask]⟩
    p.Reordered q ∧ (p.functions.map (·.name)).Nodup ∧
      (evaluate 20 p {}).2.SameButOrder (evaluate 20 q {}).2 ∧
      (evaluate 20 q {}).2.output = #["found"] ∧
      (evaluate 20 p {}).2.functions.names ≠ (evaluate 20 q {}).2.functions.names := by
  intro ask answer use p q
  have hpq : p.Reordered q := ⟨.swap _ _ [], rfl⟩
  have hnames : (p.functions.map (·.name)).Nodup := by decide
  exact ⟨hpq, hnames, (evaluate_reordered hpq hnames 20 {}).2, by decide +kernel,
    by decide +kernel⟩

end Run

end Splice
