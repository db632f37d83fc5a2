import Splice.Proofs.Session.Coupled
import Splice.Proofs.Session.FrameDiscipline

/-! A function never sees the variables of its callers.  Two sessions that differ only in the
frames over the globals run any call of a function in lock step, through inner calls, builtins of
the active frame and code that the collaborator wrote on the way. -/
namespace Splice

namespace Session

/-- Alike in all that a program or an onlooker can see, the frames apart. -/
structure SameApartFrames (s t : Session) : Prop where
  config : s.config = t.config
  functions : s.functions = t.functions
  backend : s.backend = t.backend
  facts : s.facts = t.facts
  output : s.output = t.output
  drawings : s.drawings = t.drawings

@[simp] theorem drawings_say (s : Session) (line : String) :
    (s.say line).drawings = s.drawings := by
  simp [say, drawings]

@[simp] theorem drawings_note (s : Session) (text : String) :
    (s.note text).drawings = s.drawings := by
  simp [note, drawings]

@[simp] theorem drawings_draw (s : Session) (drawing : Drawing) :
    (s.draw drawing).drawings = s.drawings ++ [drawing] := by
  simp [draw, drawings]

namespace SameApartFrames

variable {s t : Session} (h : s.SameApartFrames t)
include h

theorem say (line : String) : (s.say line).SameApartFrames (t.say line) where
  config := h.config
  functions := h.functions
  backend := h.backend
  facts := h.facts
  output := congrArg (·.push line) h.output
  drawings := by rw [drawings_say, drawings_say, h.drawings]

theorem note (text : String) : (s.note text).SameApartFrames (t.note text) where
  config := h.config
  functions := h.functions
  backend := h.backend
  facts := h.facts
  output := h.output
  drawings := by rw [drawings_note, drawings_note, h.drawings]

theorem draw (drawing : Drawing) : (s.draw drawing).SameApartFrames (t.draw drawing) where
  config := h.config
  functions := h.functions
  backend := h.backend
  facts := h.facts
  output := h.output
  drawings := by rw [drawings_draw, drawings_draw, h.drawings]

theorem remember (fact : String) : (s.remember fact).SameApartFrames (t.remember fact) :=
  { h with facts := congrArg (·.push fact) h.facts }

theorem register (decl : Function) : (s.register decl).SameApartFrames (t.register decl) :=
  { h.note _ with functions := congrArg (·.put decl.name (.function decl)) h.functions }

theorem withBackend (backend : Backend) :
    { s with backend := backend }.SameApartFrames { t with backend := backend } :=
  { h with backend := rfl }

theorem withFrames (f g : Frames) :
    { s with frames := f }.SameApartFrames { t with frames := g } :=
  { h with }

end SameApartFrames

/-- Two sessions in which the same `d + 1` innermost frames stand over frames that may differ. -/
structure SharesTop (d : Nat) (s t : Session) : Prop where
  apart : s.SameApartFrames t
  globals : s.frames.globals = t.frames.globals
  split : ∃ top a b, top.length = d + 1 ∧ a.length = b.length ∧
    s.frames.calls = top ++ a ∧ t.frames.calls = top ++ b

namespace SharesTop

variable {d : Nat} {s t : Session} (h : SharesTop d s t)
include h

theorem current : s.frames.current = t.frames.current := by
  obtain ⟨top, a, b, htop, -, hs, ht⟩ := h.split
  cases top with
  | nil => simp at htop
  | cons scope top => simp [Frames.current, hs, ht]

theorem depth : s.frames.depth = t.frames.depth := by
  obtain ⟨top, a, b, -, hab, hs, ht⟩ := h.split
  simp [Frames.depth, hs, ht, hab]

theorem push {scope scope' : Scope} (hscope : scope = scope') :
    SharesTop (d + 1) { s with frames := { s.frames with calls := scope :: s.frames.calls } }
      { t with frames := { t.frames with calls := scope' :: t.frames.calls } } := by
  obtain ⟨top, a, b, htop, hab, hs, ht⟩ := h.split
  subst hscope
  refine ⟨h.apart.withFrames _ _, h.globals, scope :: top, a, b, ?_, hab, ?_, ?_⟩
  · simp [htop]
  · simp [hs]
  · simp [ht]

theorem define (name : String) (value : Value) :
    SharesTop d (s.define name value) (t.define name value) := by
  obtain ⟨top, a, b, htop, hab, hs, ht⟩ := h.split
  cases top with
  | nil => simp at htop
  | cons scope top =>
    have hs' : s.frames.define name value =
        { s.frames with calls := scope.put name value :: (top ++ a) } := by
      simp [Frames.define, hs]
    have ht' : t.frames.define name value =
        { t.frames with calls := scope.put name value :: (top ++ b) } := by
      simp [Frames.define, ht]
    unfold Session.define
    rw [hs', ht']
    exact ⟨h.apart.withFrames _ _, h.globals, scope.put name value :: top, a, b, htop, hab, rfl,
      rfl⟩

end SharesTop

theorem SharesTop.pop {d : Nat} {s t : Session} (h : SharesTop (d + 1) s t) :
    SharesTop d { s with frames := s.frames.pop } { t with frames := t.frames.pop } := by
  obtain ⟨top, a, b, htop, hab, hs, ht⟩ := h.split
  cases top with
  | nil => simp at htop
  | cons scope top =>
    refine ⟨h.apart.withFrames _ _, h.globals, top, a, b, by simpa using htop, hab, ?_, ?_⟩
    · simp [Frames.pop, hs]
    · simp [Frames.pop, ht]

end Session

namespace Run

open Session

theorem request_sharesTop (d : Nat) (r : Request) :
    Agree (SharesTop d) (request r) (request r) := by
  intro s t h
  unfold request
  rw [h.apart.backend]
  cases t.backend.answer r with
  | mk result backend =>
    cases result <;> exact ⟨rfl, h.apart.withBackend backend, h.globals, h.split⟩

theorem note_sharesTop (d : Nat) (text : String) : Agree (SharesTop d) (note text) (note text) :=
  .modify fun _ _ h => ⟨h.apart.note text, h.globals, h.split⟩

theorem sharesTop_coupling : Coupling SharesTop where
  get? h name := by rw [Frames.get?, Frames.get?, h.current]
  depth h := h.depth
  functions h name := by rw [h.apart.functions]
  config h := h.apart.config
  facts h := h.apart.facts
  say h line := ⟨h.apart.say line, h.globals, h.split⟩
  draw h drawing := ⟨h.apart.draw drawing, h.globals, h.split⟩
  remember h fact := ⟨h.apart.remember fact, h.globals, h.split⟩
  register h decl := ⟨h.apart.register decl, h.globals, h.split⟩
  define h name value := h.define name value
  requestCode d r :=
    (request_sharesTop d r).bind fun _ => (note_sharesTop d _).bind fun _ => .pure _
  requestAnswer d r :=
    (request_sharesTop d r).bind fun _ => (note_sharesTop d _).bind fun _ => .pure _
  ask d args :=
    Agree.bind (.modify fun _ _ h => ⟨h.apart.say _, h.globals, h.split⟩) fun _ =>
      (request_sharesTop d _).bind fun _ => (note_sharesTop d _).bind fun _ => .pure _
  pushCall h params args := h.push (by rw [h.globals])
  pushInline h params args := h.push (by rw [h.current])
  pop h := h.pop

theorem sharesTop_pushCall {s t : Session} (hst : s.SameApartFrames t)
    (hglobals : s.frames.globals = t.frames.globals) (hdepth : s.frames.depth = t.frames.depth)
    (params : List String) (args : List Value) :
    SharesTop 0 { s with frames := s.frames.pushCall params args }
      { t with frames := t.frames.pushCall params args } := by
  refine ⟨hst.withFrames _ _, hglobals, [Frames.bind s.frames.globals params args],
    s.frames.calls, t.frames.calls, rfl, hdepth, rfl, ?_⟩
  rw [hglobals]
  rfl

/-- A call of a function has one outcome from all sessions that differ only in the frames over the
globals, and leaves them alike again, each with the frames it had. -/
theorem call_ignores_outer_frames (fuel : Nat) (name : String) (args : List Value)
    (decl : Function) (s t : Session) (hst : s.SameApartFrames t)
    (hglobals : s.frames.globals = t.frames.globals) (hdepth : s.frames.depth = t.frames.depth)
    (hname : s.functions.get? name = some (.function decl)) :
    (call fuel name args s).1 = (call fuel name args t).1 ∧
      (call fuel name args s).2.SameApartFrames (call fuel name args t).2 ∧
      (call fuel name args s).2.frames = s.frames ∧
      (call fuel name args t).2.frames = t.frames := by
  have hframes (u : Session) : (call fuel name args u).2.frames = u.frames :=
    (frames_discipline.all fuel).call name args u
  refine and_assoc.mp ⟨?_, hframes s, hframes t⟩
  cases fuel with
  | zero => exact ⟨rfl, hst⟩
  | succ fuel =>
    have hname' : t.functions.get? name = some (.function decl) := hst.functions ▸ hname
    have hbody := (sharesTop_coupling.all fuel).execBlock 0 decl.body _ _
      (sharesTop_pushCall hst hglobals hdepth decl.params args)
    unfold call
    rw [bind_apply, bind_apply]
    dsimp only [get]
    rw [hname, hname', ← hst.config, ← hdepth]
    dsimp only
    split
    · exact ⟨rfl, hst⟩
    · rw [bind_apply, bind_apply]
      unfold inFrame
      dsimp only [Callable.decl]
      revert hbody
      cases execBlock fuel decl.body { s with frames := s.frames.pushCall decl.params args } with
      | mk result s' =>
        cases execBlock fuel decl.body { t with frames := t.frames.pushCall decl.params args } with
        | mk result' t' =>
          rintro ⟨rfl, hst'⟩
          have happart := hst'.apart.withFrames s'.frames.pop t'.frames.pop
          match result with
          | .ok .normal => exact ⟨rfl, happart⟩
          | .ok (.ret value) => exact ⟨rfl, happart⟩
          | .error e => exact ⟨rfl, happart⟩

theorem call_ignores_outer_frames_secret :
    let decl : Function := ⟨"peek", ["x"], [.ret (some (.name "secret"))]⟩
    let caller (value : Bool) : Session :=
      { functions := ({} : Table Callable).put "peek" (.function decl)
        frames := { Frames.withBuiltins with
          calls := [({} : Scope).put "secret" (.bool value), ({} : Scope).put "y" .null] } }
    (caller true).SameApartFrames (caller false) ∧
      (caller true).frames.globals = (caller false).frames.globals ∧
      (caller true).frames.depth = (caller false).frames.depth ∧
      (caller true).functions.get? "peek" = some (.function decl) ∧
      (call 9 "peek" [.null] (caller true)).1 = (call 9 "peek" [.null] (caller false)).1 := by
  intro decl caller
  have hst : (caller true).SameApartFrames (caller false) := ⟨rfl, rfl, rfl, rfl, rfl, rfl⟩
  exact ⟨hst, rfl, rfl, rfl,
    (call_ignores_outer_frames 9 "peek" [.null] decl _ _ hst rfl rfl rfl).1⟩

end Run

end Splice
