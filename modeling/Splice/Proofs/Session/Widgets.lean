import Splice.Proofs.Session.FrameDiscipline
import Splice.Proofs.Session.Unreserved

/-! The widgets of the user interface are always at hand.  Nothing in a run guards their names: they
stay bound because they are reserved words, so that no code that was compiled can give them to a
function, a parameter or a variable. -/
namespace Splice

theorem Widget.name_ne (w : Widget) {name : String} (h : Kind.ofWord? name = none) :
    w.name ≠ name := by
  rintro rfl
  rw [Kind.ofWord?_widget] at h
  cases h

def DrawsWidgets (scope : Scope) : Prop :=
  ∀ w : Widget, scope.get? w.name = some (.builtin (.draw w))

theorem DrawsWidgets.put {scope : Scope} (h : DrawsWidgets scope) {name : String}
    (hname : Kind.ofWord? name = none) (value : Value) : DrawsWidgets (scope.put name value) := by
  intro w
  rw [scope.get?_put_of_ne value (w.name_ne hname)]
  exact h w

theorem DrawsWidgets.bind {scope : Scope} (h : DrawsWidgets scope) {params : List String}
    (hparams : ∀ p ∈ params, Kind.ofWord? p = none) (args : List Value) :
    DrawsWidgets (Frames.bind scope params args) := by
  induction params generalizing scope args with
  | nil => exact h
  | cons param params ih =>
    rw [List.forall_mem_cons] at hparams
    cases args with
    | nil => exact ih (h.put hparams.1 _) hparams.2 []
    | cons arg args => exact ih (h.put hparams.1 _) hparams.2 args

namespace Session

/-- All frames draw widgets, and no function takes their place. -/
structure WidgetsBound (s : Session) : Prop where
  frames : ∀ scope ∈ s.frames.stack, DrawsWidgets scope
  functions : ∀ w : Widget, s.functions.get? w.name = none

/-- All frames draw widgets, and all functions are unreserved. -/
structure Undisturbed (s : Session) : Prop where
  frames : ∀ scope ∈ s.frames.stack, DrawsWidgets scope
  table : ∀ name c, s.functions.get? name = some c →
    Kind.ofWord? name = none ∧ c.decl.Unreserved

variable {s : Session}

theorem Undisturbed.widgetsBound (h : s.Undisturbed) : s.WidgetsBound where
  frames := h.frames
  functions w := by
    cases hget : s.functions.get? w.name with
    | none => rfl
    | some c => exact absurd rfl (w.name_ne (h.table w.name c hget).1)

theorem Undisturbed.put (h : s.Undisturbed) {c : Callable} (hc : c.decl.Unreserved)
    {t : Session} (hframes : t.frames = s.frames)
    (hfunctions : t.functions = s.functions.put c.decl.name c) : t.Undisturbed where
  frames := hframes ▸ h.frames
  table name c' hget := by
    rw [hfunctions] at hget
    by_cases hname : name = c.decl.name
    · subst hname
      rw [s.functions.get?_put_self] at hget
      cases hget
      exact ⟨hc.name, hc⟩
    · rw [s.functions.get?_put_of_ne c hname] at hget
      exact h.table name c' hget

end Session

theorem Frames.current_mem_stack (f : Frames) : f.current ∈ f.stack := by
  unfold current stack
  cases f.calls with
  | nil => exact List.mem_cons_self
  | cons scope outer => exact List.mem_cons_self

theorem Frames.forall_mem_stack_define {f : Frames} {P : Scope → Prop} {name : String}
    {value : Value} (h : ∀ scope ∈ f.stack, P scope)
    (hput : ∀ scope, P scope → P (scope.put name value)) :
    ∀ scope ∈ (f.define name value).stack, P scope := by
  obtain ⟨globals, calls⟩ := f
  cases calls with
  | nil =>
    simp only [stack, define, defineGlobal, List.nil_append, List.forall_mem_singleton] at h ⊢
    exact hput globals h
  | cons scope outer =>
    simp only [stack, define, List.cons_append, List.forall_mem_cons] at h ⊢
    exact ⟨hput scope h.1, h.2⟩

theorem stable_undisturbed : Stable Session.Undisturbed where
  same h hframes hfunctions := ⟨hframes ▸ h.frames, hfunctions ▸ h.table⟩
  register hf h := h.put (c := .function _) hf rfl rfl
  define value hname h :=
    ⟨Frames.forall_mem_stack_define h.frames fun _ hscope => hscope.put hname value, h.table⟩
  table h hget := (h.table _ _ hget).2
  enter {s c} args hc h := by
    cases c with
    | function decl =>
      have hglobals : s.frames.globals ∈ s.frames.stack :=
        List.mem_append_right _ List.mem_cons_self
      have hscope := (h.frames _ hglobals).bind hc.params args
      exact ⟨List.forall_mem_cons.mpr ⟨hscope, h.frames⟩, h.table⟩
    | inline decl =>
      have hscope := (h.frames _ s.frames.current_mem_stack).bind hc.params args
      exact ⟨List.forall_mem_cons.mpr ⟨hscope, h.frames⟩, h.table⟩
  leave {s} h := by
    refine ⟨fun scope hscope => h.frames scope ?_, h.table⟩
    simp only [Frames.stack, Frames.pop, List.mem_append] at hscope ⊢
    exact hscope.imp_left List.mem_of_mem_tail

namespace Session

/-- What can be done with a session: run sources, run programs that have a text with or without a
report of their failure, define inline functions with bodies that have a text, reset it, take its
printed lines and queue responses. -/
inductive Reached : Session → Prop where
  | start (config : Config) (backend : Backend) : Reached { config, backend }
  | runSource {s : Session} (h : Reached s) (fuel : Nat) (source : String) :
      Reached (s.runSource fuel source).2
  | runProgram {s : Session} {source : String} {program : Program} (h : Reached s)
      (hcompile : compile source = .ok program) (fuel : Nat) :
      Reached (Run.runProgram fuel program s).2
  | evaluate {s : Session} {source : String} {program : Program} (h : Reached s)
      (hcompile : compile source = .ok program) (fuel : Nat) :
      Reached (Run.evaluate fuel program s).2
  | registerInline {s : Session} {source name : String} {params : List String}
      {program : Program} (h : Reached s) (hcompile : compile source = .ok program)
      (hname : Kind.ofWord? name = none) (hparams : ∀ p ∈ params, Kind.ofWord? p = none) :
      Reached (s.registerInline ⟨name, params, program.body⟩)
  | reset {s : Session} (h : Reached s) : Reached s.reset
  | takeOutput {s : Session} (h : Reached s) : Reached s.takeOutput.2
  | respond {s : Session} (h : Reached s) (response : Completion) : Reached (s.respond response)

theorem undisturbed_start (config : Config) (backend : Backend) :
    Undisturbed { config, backend } where
  frames scope hscope := by
    cases List.mem_singleton.mp hscope
    intro w
    cases w <;> rfl
  table name c hget := by cases hget

theorem Reached.undisturbed {s : Session} (h : s.Reached) : s.Undisturbed := by
  induction h with
  | start config backend => exact undisturbed_start config backend
  | runSource _ fuel source ih => exact (stable_undisturbed.runSource fuel source ih).1
  | runProgram _ hcompile fuel ih =>
    exact ((stable_undisturbed.all fuel).runProgram (unreserved_of_compile hcompile) _ ih).session
  | evaluate _ hcompile fuel ih =>
    exact (stable_undisturbed.evaluate fuel (unreserved_of_compile hcompile) _ ih).session
  | @registerInline s source name params program _ hcompile hname hparams ih =>
    have hc : (Callable.inline ⟨name, params, program.body⟩).decl.Unreserved :=
      ⟨hname, hparams, unreserved_of_compile hcompile⟩
    exact ih.put hc rfl rfl
  | reset _ ih => exact stable_undisturbed.same ih rfl rfl
  | takeOutput _ ih => exact stable_undisturbed.same ih rfl rfl
  | respond _ response ih => exact stable_undisturbed.same ih rfl rfl

theorem Undisturbed.not_missing (w : Widget) : ¬ Run.Missing Undisturbed w.name := by
  rintro ⟨s, hs, hunbound⟩
  exact hunbound _ (hs.frames _ s.frames.current_mem_stack w)

end Session

/-- In every session that can be reached, and in every session that a run from it comes through,
all frames bind the widgets to their own builtins and no function has the name of one.  So neither
a run nor anything evaluated in it fails because a widget is not found. -/
theorem widgets_bound_of_reached {s : Session} (h : s.Reached) :
    s.WidgetsBound ∧
    (∀ source program, compile source = .ok program → ∀ fuel,
      ∀ visit ∈ (Task.run program).visits fuel s,
        (∀ t ∈ visit.sessions, t.WidgetsBound) ∧
          ∀ w : Widget, visit.stop? ≠ some (.fault (.functionNotFound w.name))) ∧
    (∀ source fuel (w : Widget),
      (s.runSource fuel source).1 ≠ some (.error (.fault (.run (.functionNotFound w.name))))) ∧
    ∀ e fuel (w : Widget), (Run.eval fuel e s).1 ≠ .error (.fault (.functionNotFound w.name)) := by
  have hs := h.undisturbed
  refine ⟨hs.widgetsBound, ?_, ?_, ?_⟩
  · intro source program hcompile fuel visit hvisit
    have htask : (Task.run program).Unreserved := unreserved_of_compile hcompile
    obtain ⟨hsessions, hfound⟩ := stable_undisturbed.visits hs htask visit hvisit
    exact ⟨fun t ht => (hsessions t ht).widgetsBound, fun w hstop =>
      Session.Undisturbed.not_missing w (hfound w.name hstop)⟩
  · intro source fuel w hstop
    exact Session.Undisturbed.not_missing w
      ((stable_undisturbed.runSource fuel source hs).2 w.name hstop)
  · intro e fuel w hstop
    exact Session.Undisturbed.not_missing w
      (((stable_undisturbed.all fuel).eval e s hs).found w.name hstop)

/-- A page that is drawn by an inline function and by a variable of the same name as its
parameter. -/
def greeting : Program :=
  ⟨[.binding "name" (some (.text "you")),
    .expr (.ui .box [] [.call "greet" [.name "name"], .ui .button [.name "name"] []])]⟩

def greetingText : String :=
  "var name = \"you\"\nbox():\n    greet(name)\n    button(name)\n"

def greeter : Session :=
  ({} : Session).registerInline ⟨"greet", ["name"], [.expr (.ui .text [.name "name"] [])]⟩

theorem widgets_bound_of_reached_greeter :
    greeter.Reached ∧ compile greetingText = .ok greeting ∧
      (∀ visit ∈ (Task.run greeting).visits 20 greeter, ∀ t ∈ visit.sessions, t.WidgetsBound) ∧
      (Run.runProgram 20 greeting greeter).2.drawings = [.box, .text "you", .button "you"] := by
  have hbody : compile "text(name)\n" = .ok ⟨[.expr (.ui .text [.name "name"] [])]⟩ :=
    compile_of_printAll (by decide +kernel) (List.cons_ne_nil _ _) (by decide) (by decide)
      (by decide +kernel)
  have hcompile : compile greetingText = .ok greeting :=
    compile_of_printAll (by decide +kernel) (List.cons_ne_nil _ _) (by decide) (by decide)
      (by decide +kernel)
  have hgreeter : greeter.Reached :=
    .registerInline (.start {} .unavailable) hbody (by decide) (by decide)
  obtain ⟨-, hvisits, -⟩ := widgets_bound_of_reached hgreeter
  refine ⟨hgreeter, hcompile, fun visit hvisit => ?_, by decide +kernel⟩
  exact (hvisits greetingText greeting hcompile 20 visit hvisit).1

end Splice
