import Splice.Proofs.Decimal.Integers
import Splice.Proofs.Emit.Fragment
import Splice.Proofs.Session.FrameDiscipline
import Splice.Proofs.Session.Task

/-! Sessions beside the machine.  Inside a call the parameters hold the integers of the machine's
words, whatever else the frame holds; a run prints the integers that its code logs; and operators
give on numbers what their instructions give on words. -/
namespace Splice.Wat

open Decimal (Denotes InRange)

section Operators

variable {x y : Float} {v w : I32}

theorem denotes_of_int32? {n : Int} (h : int32? x = some n) : Denotes x (BitVec.ofInt 32 n) := by
  obtain ⟨hinteger, hrange⟩ := Option.filter_eq_some_iff.mp h
  simp only [Bool.and_eq_true, decide_eq_true_eq] at hrange
  rw [Denotes, Decimal.toInt_ofInt_of_inRange hrange.1 hrange.2, hinteger]

theorem arith_of_binary {op : Operator} {value : Value} (hop : op ∈ arithmetic) (hx : Denotes x v)
    (hy : Denotes y w) (h : Value.binary op (.number x) (.number y) = .ok value) :
    ∃ z c, value = .number z ∧ (InRange z → Denotes z c) ∧ arith op v w = some c := by
  simp only [arithmetic, List.mem_cons, List.not_mem_nil, or_false] at hop
  rcases hop with rfl | rfl | rfl
  · cases h
    exact ⟨x + y, v + w, rfl, hx.add hy, rfl⟩
  · cases h
    exact ⟨x - y, v - w, rfl, hx.sub hy, rfl⟩
  · cases h
    exact ⟨x * y, v * w, rfl, hx.mul hy, rfl⟩

theorem flag_of_binary {op : Operator} {value : Value} (hop : op ∈ comparisons)
    (hx : Denotes x v) (hy : Denotes y w)
    (h : Value.binary op (.number x) (.number y) = .ok value) :
    ∃ b, value = .bool b ∧ arith op v w = some (flag b) := by
  have hbeq : (x == y) = (v == w) := by
    rw [Bool.eq_iff_iff, hx.beq_iff hy, beq_iff_eq]
  simp only [comparisons, List.mem_cons, List.not_mem_nil, or_false] at hop
  rcases hop with rfl | rfl | rfl | rfl
  · cases h
    exact ⟨_, rfl, by simp only [arith, hx.lt_iff hy, Bool.decide_eq_true]⟩
  · cases h
    exact ⟨_, rfl, by simp only [arith, hy.lt_iff hx, Bool.decide_eq_true]⟩
  · cases h
    exact ⟨_, rfl, by simp only [arith, Value.same, hbeq]⟩
  · cases h
    exact ⟨_, rfl, by simp only [arith, Value.same, hbeq, bne]⟩

theorem flag_ne_zero (b : Bool) : b = true ↔ flag b ≠ 0 := by
  cases b <;> decide

theorem holds_number (hx : Denotes x w) : (Value.number x).holds = true ↔ w ≠ 0 := by
  have hzero : Denotes 0 0 := by
    rw [Denotes]
    decide +kernel
  have hbeq : (x == 0) = (w == 0) := by
    rw [Bool.eq_iff_iff, hx.beq_iff hzero, beq_iff_eq]
  simp only [Value.holds, hx.isNaN, hbeq, Bool.not_false, Bool.and_true]
  rw [Bool.not_eq_true', beq_eq_false_iff_ne]

end Operators

def Shows (line : String) (w : I32) : Prop :=
  ∃ x, Denotes x w ∧ line = Decimal.text x

/-- From `s` to `t` no function is declared, and the lines that are printed show these words. -/
structure Effect (s t : Session) (words : List I32) : Prop where
  functions : t.functions = s.functions
  output : ∃ lines, t.output.toList = s.output.toList ++ lines ∧ List.Forall₂ Shows lines words

theorem Effect.refl (s : Session) : Effect s s [] :=
  ⟨rfl, [], (List.append_nil _).symm, .nil⟩

theorem Effect.trans {s t u : Session} {words words' : List I32} (hst : Effect s t words)
    (htu : Effect t u words') : Effect s u (words ++ words') := by
  obtain ⟨lines, hlines, hshow⟩ := hst.output
  obtain ⟨lines', hlines', hshow'⟩ := htu.output
  refine ⟨htu.functions.trans hst.functions, lines ++ lines', ?_, List.rel_append hshow hshow'⟩
  rw [hlines', hlines, List.append_assoc]

theorem Effect.say (s : Session) {x : Float} {w : I32} (hx : Denotes x w) :
    Effect s (s.say (Decimal.text x)) [w] :=
  ⟨rfl, [Decimal.text x], Array.toList_push, .cons ⟨x, hx, rfl⟩ .nil⟩

theorem Effect.define {s t : Session} {words : List I32} (h : Effect s t words) (name : String)
    (value : Value) : Effect s (t.define name value) words :=
  ⟨h.functions, h.output⟩

/-- The functions of a program are those of the session, and `print` is the builtin. -/
structure Ready (program : Program) (s : Session) : Prop where
  functions : ∀ f ∈ program.functions, s.functions.get? f.name = some (.function f)
  print : s.functions.get? "print" = none
  globals : s.frames.globals.get? "print" = some (.builtin .print)

/-- The parameters hold the integers of the machine's words. -/
structure Bound (params : List String) (locals : List I32) (scope : Scope) : Prop where
  param : ∀ (i : Nat) (name : String), params[i]? = some name →
    ∃ x w, scope.get? name = some (.number x) ∧ locals[i]? = some w ∧ Denotes x w
  print : ∀ builtin, scope.get? "print" = some (.builtin builtin) → builtin = .print

/-- Inside a call of a function with these parameters. -/
structure Inside (program : Program) (params : List String) (locals : List I32) (s : Session) :
    Prop extends Ready program s where
  active : s.frames.calls ≠ []
  bound : Bound params locals s.frames.current

section Sessions

variable {program : Program} {params : List String} {locals : List I32} {s t : Session}
  {words : List I32}

theorem Ready.after (h : Ready program s) (heffect : Effect s t words)
    (hframes : t.frames = s.frames) : Ready program t where
  functions f hf := by rw [heffect.functions, h.functions f hf]
  print := by rw [heffect.functions, h.print]
  globals := by rw [hframes, h.globals]

theorem Inside.after (h : Inside program params locals s) (heffect : Effect s t words)
    (hframes : t.frames = s.frames) : Inside program params locals t where
  toReady := h.toReady.after heffect hframes
  active := hframes ▸ h.active
  bound := hframes ▸ h.bound

theorem Inside.of_eval {fuel : Nat} {e : Expr} {value : Value}
    (h : Inside program params locals s) (heffect : Effect s t words)
    (heval : Run.eval fuel e s = (.ok value, t)) : Inside program params locals t := by
  have hframes := (Run.frames_discipline.all fuel).eval e s
  rw [heval] at hframes
  exact h.after heffect hframes

theorem Inside.of_evalAll {fuel : Nat} {es : List Expr} {values : List Value}
    (h : Inside program params locals s) (heffect : Effect s t words)
    (heval : Run.evalAll fuel es s = (.ok values, t)) : Inside program params locals t := by
  have hframes := (Run.frames_discipline.all fuel).evalAll es s
  rw [heval] at hframes
  exact h.after heffect hframes

theorem Inside.of_call_print {fuel : Nat} {x : Float} {value : Value}
    (h : Inside program params locals s)
    (hcall : Run.call fuel "print" [.number x] s = (.ok value, t)) :
    t = s.say (Decimal.text x) := by
  cases fuel with
  | zero => cases hcall
  | succ fuel =>
    simp only [Run.call] at hcall
    obtain ⟨_, _, ⟨⟩, hcall⟩ := Run.exists_of_bind_eq_ok hcall
    simp only [h.print, Run.callBound] at hcall
    obtain ⟨_, _, ⟨⟩, hcall⟩ := Run.exists_of_bind_eq_ok hcall
    cases hget : s.frames.get? "print" with
    | none =>
      rw [hget] at hcall
      cases hcall
    | some bound =>
      rw [hget] at hcall
      cases bound with
      | builtin builtin =>
        cases h.bound.print builtin hget
        cases hcall
        rfl
      | _ => cases hcall

theorem Bound.put {scope : Scope} {name : String} {value : Value}
    (h : Bound params locals scope) (hname : name ∉ params)
    (hvalue : ∀ builtin, value ≠ .builtin builtin) :
    Bound params locals (scope.put name value) where
  param i other hother := by
    have hne : other ≠ name := fun heq => hname (heq ▸ List.mem_of_getElem? hother)
    rw [scope.get?_put_of_ne value hne]
    exact h.param i other hother
  print builtin hbuiltin := by
    by_cases hprint : "print" = name
    · rw [← hprint, scope.get?_put_self] at hbuiltin
      exact absurd (Option.some.inj hbuiltin) (hvalue builtin)
    · rw [scope.get?_put_of_ne value hprint] at hbuiltin
      exact h.print builtin hbuiltin

theorem Inside.define {name : String} {value : Value} (h : Inside program params locals s)
    (hname : name ∉ params) (hvalue : ∀ builtin, value ≠ .builtin builtin) :
    Inside program params locals (s.define name value) := by
  obtain ⟨hready, hactive, hbound⟩ := h
  cases hcalls : s.frames.calls with
  | nil => exact absurd hcalls hactive
  | cons scope outer =>
    have hdefine : (s.define name value).frames =
        { s.frames with calls := scope.put name value :: outer } := by
      simp only [Session.define, Frames.define, hcalls]
    rw [Frames.current, hcalls] at hbound
    refine ⟨⟨hready.functions, hready.print, ?_⟩, ?_, ?_⟩
    · rw [hdefine]
      exact hready.globals
    · simp [hdefine]
    · rw [hdefine]
      exact hbound.put hname hvalue

theorem get?_bind_of_notMem {name : String} {args : List Value} {scope : Scope}
    (hname : name ∉ params) : (Frames.bind scope params args).get? name = scope.get? name := by
  induction params generalizing scope args with
  | nil => rfl
  | cons param params ih =>
    simp only [List.mem_cons, not_or] at hname
    cases args with
    | nil => exact (ih hname.2).trans (scope.get?_put_of_ne _ hname.1)
    | cons arg args => exact (ih hname.2).trans (scope.get?_put_of_ne _ hname.1)

theorem get?_bind {name : String} {args : List Value} {scope : Scope} {value : Value} {i : Nat}
    (hnodup : params.Nodup) (hname : params[i]? = some name) (hvalue : args[i]? = some value) :
    (Frames.bind scope params args).get? name = some value := by
  induction params generalizing scope args i with
  | nil => simp at hname
  | cons param params ih =>
    rw [List.nodup_cons] at hnodup
    cases args with
    | nil => simp at hvalue
    | cons arg args =>
      cases i with
      | zero =>
        cases hname
        cases hvalue
        exact (get?_bind_of_notMem hnodup.1).trans (scope.get?_put_self _ _)
      | succ i => exact ih hnodup.2 hname hvalue

theorem bound_bind {args : List Float} {scope : Scope} (hnodup : params.Nodup)
    (hargs : List.Forall₂ Denotes args locals) (hcount : locals.length = params.length)
    (hprint : scope.get? "print" = some (.builtin .print)) :
    Bound params locals (Frames.bind scope params (args.map .number)) := by
  have hparam : ∀ (i : Nat) (name : String), params[i]? = some name → ∃ x w,
      (Frames.bind scope params (args.map .number)).get? name = some (.number x) ∧
        locals[i]? = some w ∧ Denotes x w := by
    intro i name hname
    have hi : i < params.length := (List.getElem?_eq_some_iff.mp hname).1
    have hlength := hargs.length_eq
    have hx : args[i]? = some args[i] := List.getElem?_eq_getElem _
    have hw : locals[i]? = some locals[i] := List.getElem?_eq_getElem _
    refine ⟨args[i], locals[i], get?_bind hnodup hname ?_, hw, hargs.get _ _⟩
    rw [List.getElem?_map, hx, Option.map_some]
  refine ⟨hparam, fun builtin hbuiltin => ?_⟩
  by_cases hmem : "print" ∈ params
  · obtain ⟨i, hi⟩ := List.getElem?_of_mem hmem
    obtain ⟨x, w, hget, -⟩ := hparam i "print" hi
    rw [hget] at hbuiltin
    cases hbuiltin
  · rw [get?_bind_of_notMem hmem, hprint] at hbuiltin
    cases hbuiltin
    rfl

theorem Ready.enter {args : List Float} (h : Ready program s) (hnodup : params.Nodup)
    (hargs : List.Forall₂ Denotes args locals) (hcount : locals.length = params.length) :
    Inside program params locals
      { s with frames := s.frames.pushCall params (args.map .number) } where
  functions := h.functions
  print := h.print
  globals := h.globals
  active := List.cons_ne_nil _ _
  bound := bound_bind hnodup hargs hcount h.globals

theorem get?_registerAll_of_notMem (fs : List Function) {name : String} (s : Session)
    (hname : name ∉ fs.map (·.name)) :
    (fs.foldl Session.register s).functions.get? name = s.functions.get? name := by
  induction fs generalizing s with
  | nil => rfl
  | cons f fs ih =>
    simp only [List.map_cons, List.mem_cons, not_or] at hname
    exact (ih (s.register f) hname.2).trans (s.functions.get?_put_of_ne _ hname.1)

theorem get?_registerAll {fs : List Function} (hnames : (fs.map (·.name)).Nodup)
    (s : Session) {f : Function} (hf : f ∈ fs) :
    (fs.foldl Session.register s).functions.get? f.name = some (.function f) := by
  induction fs generalizing s with
  | nil => cases hf
  | cons g fs ih =>
    rw [List.map_cons, List.nodup_cons] at hnames
    rcases List.mem_cons.mp hf with rfl | hf
    · exact (get?_registerAll_of_notMem fs _ hnames.1).trans (s.functions.get?_put_self _ _)
    · exact ih hnames.2 (s.register g) hf

theorem output_registerAll (fs : List Function) (s : Session) :
    (fs.foldl Session.register s).output = s.output := by
  induction fs generalizing s with
  | nil => rfl
  | cons f fs ih => exact ih (s.register f)

theorem ready_registerAll (hprogram : Integral program) (hprint : s.functions.get? "print" = none)
    (hglobals : s.frames.globals.get? "print" = some (.builtin .print)) :
    Ready program (program.functions.foldl Session.register s) where
  functions _ hf := get?_registerAll hprogram.names s hf
  print := by rw [get?_registerAll_of_notMem _ s hprogram.print_notMem, hprint]
  globals := by rw [Run.frames_discipline.registerAll, hglobals]

end Sessions

end Splice.Wat
