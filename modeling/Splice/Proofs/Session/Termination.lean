import Mathlib
import Splice.Proofs.Collaborator.Fence
import Splice.Proofs.Tree.Parts
import Splice.Session.Run

/-! Programs without loops halt.  A splice uses up a response of the collaborator and a call takes
one of the calls that the limit leaves, so the argument goes down first along the responses that
are left, then along the calls that are left, and last along the code that runs. -/
namespace Splice

def Stmt.LoopFree (block : List Stmt) : Prop :=
  ∀ test body, ¬ (Stmt.loop test body).Within block

namespace Stmt.LoopFree

variable {block part inner : List Stmt} {stmt : Stmt}

theorem nil : LoopFree [] := by
  rintro test body (hmem | ⟨hmem, -, -⟩) <;> cases hmem

theorem subset (h : LoopFree block) (hpart : ∀ s ∈ part, s ∈ block) : LoopFree part := by
  rintro test body (hmem | ⟨hmem, hinner, hwithin⟩)
  · exact h test body (.here (hpart _ hmem))
  · exact h test body (.inside (hpart _ hmem) hinner hwithin)

theorem head (h : LoopFree (stmt :: block)) : LoopFree [stmt] :=
  h.subset fun _ hs => List.mem_cons.mpr (.inl (List.mem_singleton.mp hs))

theorem tail (h : LoopFree (stmt :: block)) : LoopFree block :=
  h.subset fun _ => List.mem_cons_of_mem stmt

theorem inside (h : LoopFree block) (hmem : stmt ∈ block) (hinner : inner ∈ stmt.blocks) :
    LoopFree inner :=
  fun test body hwithin => h test body (.inside hmem hinner hwithin)

theorem own (h : LoopFree [stmt]) (hinner : inner ∈ stmt.blocks) : LoopFree inner :=
  h.inside List.mem_cons_self hinner

theorem functions {program : Program} (h : LoopFree program.body) :
    ∀ decl ∈ program.functions, LoopFree decl.body := by
  intro decl hdecl
  obtain ⟨stmt, hmem, hfunction⟩ := List.mem_filterMap.mp hdecl
  cases stmt with
  | function name params body =>
    cases hfunction
    exact h.inside hmem List.mem_cons_self
  | _ => cases hfunction

end Stmt.LoopFree

def Backend.responses : Backend → List Completion
  | .scripted responses _ => responses
  | .refusing _ => []

def Completion.LoopFree (response : Completion) : Prop :=
  ∀ program, compile (unfence response.text) = .ok program → Stmt.LoopFree program.body

namespace Session

/-- There is no loop in the functions of a session, nor in what the collaborator will answer. -/
structure LoopFree (s : Session) : Prop where
  functions : ∀ name callable, s.functions.get? name = some callable →
    Stmt.LoopFree callable.decl.body
  responses : ∀ response ∈ s.backend.responses, response.LoopFree

def left (s : Session) : Nat :=
  s.backend.responses.length

def room (s : Session) : Nat :=
  s.config.maxCallDepth - s.frames.depth

/-- A session without loops.  In case of `short` what the collaborator will answer is shorter than
four gigabytes. -/
structure Tame (short : Prop) (s : Session) : Prop extends s.LoopFree where
  size : short → ∀ response ∈ s.backend.responses, response.text.utf8ByteSize < Span.limit

/-- What every run without loops does to a session. -/
structure Leads (short : Prop) (s t : Session) : Prop where
  tame : t.Tame short
  left : t.left ≤ s.left
  limit : t.config.maxCallDepth = s.config.maxCallDepth
  depth : t.frames.depth = s.frames.depth

/-- Fewer responses are left than `responses`, or as many and less room than `room`. -/
def Under (s : Session) (responses room : Nat) : Prop :=
  s.left < responses ∨ s.left = responses ∧ s.room < room

variable {short : Prop} {s t u : Session} {responses room : Nat}

theorem Tame.leads (h : s.Tame short) (hfunctions : t.functions = s.functions)
    (hbackend : t.backend = s.backend) (hlimit : t.config.maxCallDepth = s.config.maxCallDepth)
    (hdepth : t.frames.depth = s.frames.depth) : s.Leads short t where
  tame := ⟨⟨by rw [hfunctions]; exact h.functions, by rw [hbackend]; exact h.responses⟩,
    by rw [hbackend]; exact h.size⟩
  left := Nat.le_of_eq (congrArg (·.responses.length) hbackend)
  limit := hlimit
  depth := hdepth

theorem Tame.refl (h : s.Tame short) : s.Leads short s :=
  h.leads rfl rfl rfl rfl

theorem Leads.trans (hst : s.Leads short t) (htu : t.Leads short u) : s.Leads short u where
  tame := htu.tame
  left := Nat.le_trans htu.left hst.left
  limit := htu.limit.trans hst.limit
  depth := htu.depth.trans hst.depth

theorem Leads.under (h : s.Leads short t) (hs : s.Under responses room) :
    t.Under responses room := by
  have hroom : t.room = s.room := by rw [Session.room, h.limit, h.depth, Session.room]
  have hleft := h.left
  unfold Under at hs ⊢
  omega

theorem Tame.register {decl : Function} (h : s.Tame short) (hdecl : Stmt.LoopFree decl.body) :
    s.Leads short (s.register decl) where
  tame := by
    refine ⟨⟨fun name callable hget => ?_, h.responses⟩, h.size⟩
    change (s.functions.put decl.name (.function decl)).get? name = some callable at hget
    by_cases hname : name = decl.name
    · rw [hname, Table.get?_put_self] at hget
      cases hget
      exact hdecl
    · rw [Table.get?_put_of_ne _ _ hname] at hget
      exact h.functions name callable hget
  left := Nat.le_refl _
  limit := rfl
  depth := rfl

theorem Tame.define (h : s.Tame short) (name : String) (value : Value) :
    s.Leads short (s.define name value) := by
  refine h.leads rfl rfl rfl ?_
  change (s.frames.define name value).depth = s.frames.depth
  unfold Frames.define
  split
  · rfl
  · rename_i scope outer hcalls
    simp [Frames.depth, hcalls]

end Session

namespace Run

variable {α β : Type} {short : Prop} {s t : Session} {good : α → Session → Prop}
  {fine : β → Session → Prop}

/-- With enough fuel a run ends, and more fuel does not change how. -/
def Halts (short : Prop) (x : Nat → Run α) (s : Session) (good : α → Session → Prop) : Prop :=
  ∃ enough outcome t, (∀ fuel, enough ≤ fuel → x fuel s = (outcome, t)) ∧ s.Leads short t ∧
    match outcome with
    | .ok a => good a t
    | .error stop => stop ≠ .outOfFuel ∧ (short → stop ≠ .crash)

def Anyhow (_ : α) (_ : Session) : Prop := True

namespace Halts

theorem of_ok {x : Run α} {a : α} (hx : x s = (.ok a, t)) (ht : s.Leads short t) (ha : good a t) :
    Halts short (fun _ => x) s good :=
  ⟨0, .ok a, t, fun _ _ => hx, ht, ha⟩

theorem pure {a : α} (hs : s.Tame short) (ha : good a s) :
    Halts short (fun _ => Pure.pure a) s good :=
  of_ok rfl hs.refl ha

theorem fail {fault : RunFault} (hs : s.Tame short) :
    Halts short (fun _ => Run.fail fault) s good :=
  ⟨0, .error (.fault fault), s, fun _ _ => rfl, hs.refl, by simp⟩

theorem modify {f : Session → Session} (h : s.Leads short (f s)) :
    Halts short (fun _ => Run.modify f) s Anyhow :=
  of_ok rfl h trivial

theorem mono {x : Nat → Run α} {better : α → Session → Prop} (h : Halts short x s good)
    (hgood : ∀ a t, s.Leads short t → good a t → better a t) : Halts short x s better := by
  obtain ⟨enough, outcome, t, hrun, ht, hout⟩ := h
  refine ⟨enough, outcome, t, hrun, ht, ?_⟩
  cases outcome with
  | ok a => exact hgood a t ht hout
  | error stop => exact hout

theorem bind {x : Nat → Run α} {f : Nat → α → Run β} (hx : Halts short x s good)
    (hf : ∀ a t, s.Leads short t → good a t → Halts short (fun fuel => f fuel a) t fine) :
    Halts short (fun fuel => x fuel >>= f fuel) s fine := by
  obtain ⟨enough, outcome, t, hrun, ht, hout⟩ := hx
  cases outcome with
  | error stop =>
    refine ⟨enough, .error stop, t, fun fuel hfuel => ?_, ht, hout⟩
    change (x fuel >>= f fuel) s = _
    rw [bind_apply, hrun fuel hfuel]
  | ok a =>
    obtain ⟨more, outcome, u, hrun', hu, hout'⟩ := hf a t ht hout
    refine ⟨max enough more, outcome, u, fun fuel hfuel => ?_, ht.trans hu, hout'⟩
    change (x fuel >>= f fuel) s = _
    rw [bind_apply, hrun fuel (by omega)]
    exact hrun' fuel (by omega)

theorem succ {x : Nat → Run α} (h : Halts short (fun fuel => x (fuel + 1)) s good) :
    Halts short x s good := by
  obtain ⟨enough, outcome, t, hrun, hrest⟩ := h
  refine ⟨enough + 1, outcome, t, fun fuel hfuel => ?_, hrest⟩
  obtain ⟨fuel, rfl⟩ : ∃ k, fuel = k + 1 := ⟨fuel - 1, by omega⟩
  exact hrun fuel (by omega)

theorem get {f : Nat → Session → Run β} (h : Halts short (fun fuel => f fuel s) s fine) :
    Halts short (fun fuel => Run.get >>= f fuel) s fine :=
  h

theorem andThen {x : Nat → Run α} {b : β} (hx : Halts short x s Anyhow) :
    Halts short (fun fuel => do let _ ← x fuel; return b) s Anyhow :=
  hx.bind fun _ _ ht _ => pure ht.tame trivial

end Halts

theorem say_halts (hs : s.Tame short) (line : String) : Halts short (fun _ => say line) s Anyhow :=
  .modify (hs.leads rfl rfl rfl rfl)

theorem note_halts (hs : s.Tame short) (text : String) :
    Halts short (fun _ => note text) s Anyhow :=
  .modify (hs.leads rfl rfl rfl rfl)

/-- Code that has no loop if it is a program at all, and in case of `short` does not crash. -/
structure TameCode (short : Prop) (code : String) : Prop where
  loopFree : ∀ program, compile code = .ok program → Stmt.LoopFree program.body
  size : short → code.utf8ByteSize < Span.limit

theorem request_halts (hs : s.Tame short) (r : Request) :
    Halts short (fun _ => request r) s fun completion t =>
      TameCode short (unfence completion.text) ∧ t.left < s.left := by
  obtain ⟨config, functions, frames, backend, facts, output, journal⟩ := s
  cases backend with
  | refusing fault =>
    exact ⟨0, .error (.fault (.collaborator fault)), _, fun _ _ => rfl, hs.refl, by simp⟩
  | scripted responses prompts =>
    cases responses with
    | nil =>
      refine ⟨0, .error (.fault (.collaborator (.exhausted r.operation))), _, fun _ _ => rfl, ?_,
        by simp⟩
      exact ⟨⟨⟨hs.functions, hs.responses⟩, hs.size⟩, Nat.le_refl _, rfl, rfl⟩
    | cons response later =>
      have hlater : ∀ other ∈ later, other.LoopFree :=
        fun other hother => hs.responses other (List.mem_cons_of_mem response hother)
      have hsize (h : short) : ∀ other ∈ later, other.text.utf8ByteSize < Span.limit :=
        fun other hother => hs.size h other (List.mem_cons_of_mem response hother)
      refine .of_ok rfl ⟨⟨⟨hs.functions, hlater⟩, hsize⟩, Nat.le_succ _, rfl, rfl⟩
        ⟨⟨hs.responses response List.mem_cons_self, fun h => ?_⟩, Nat.lt_succ_self _⟩
      exact Nat.lt_of_le_of_lt (utf8ByteSize_unfence_le _) (hs.size h response List.mem_cons_self)

theorem requestCode_halts (hs : s.Tame short) (r : Request) :
    Halts short (fun _ => requestCode r) s fun code t =>
      TameCode short code ∧ t.left < s.left := by
  refine (request_halts hs r).bind fun completion t ht hcompletion => ?_
  refine (note_halts ht.tame _).bind fun _ u hu _ => ?_
  exact .pure hu.tame ⟨hcompletion.1, Nat.lt_of_le_of_lt hu.left hcompletion.2⟩

theorem requestAnswer_halts (hs : s.Tame short) (r : Request) :
    Halts short (fun _ => requestAnswer r) s Anyhow := by
  refine (request_halts hs r).bind fun completion t ht _ => ?_
  exact (note_halts ht.tame _).andThen

theorem compileAnswer_halts (hs : s.Tame short) {code : String} (hcode : TameCode short code) :
    Halts short (fun _ => compileAnswer code) s fun program t =>
      Stmt.LoopFree program.body ∧ t.left ≤ s.left := by
  unfold compileAnswer
  split
  · rename_i program hprogram
    exact .pure hs ⟨hcode.loopFree program hprogram, Nat.le_refl _⟩
  · exact .fail hs
  · rename_i hcrash
    refine ⟨0, .error .crash, s, fun _ _ => rfl, hs.refl, nofun, fun h => ?_⟩
    exact absurd hcrash (compile_ne_crash (hcode.size h))

theorem requestOptimized_halts (hs : s.Tame short) (body : List Stmt) :
    Halts short (fun _ => requestOptimized body) s fun program t =>
      Stmt.LoopFree program.body ∧ t.left < s.left := by
  refine (say_halts hs _).bind fun _ t ht _ => ?_
  refine (requestCode_halts ht.tame _).bind fun code u hu hcode => ?_
  refine (say_halts hu.tame _).bind fun _ v hv _ => ?_
  refine (compileAnswer_halts hv.tame hcode.1).mono fun program w hw hprogram => ?_
  have := ht.left
  have := hv.left
  exact ⟨hprogram.1, by omega⟩

theorem requestInstructed_halts (hs : s.Tame short) (instruction : Option String)
    (body : Option (List Stmt)) :
    Halts short (fun _ => requestInstructed instruction body) s fun program t =>
      Stmt.LoopFree program.body ∧ t.left < s.left := by
  refine .get ((say_halts hs _).bind fun _ t ht _ => ?_)
  refine .get ((requestCode_halts ht.tame _).bind fun code u hu hcode => ?_)
  refine (say_halts hu.tame _).bind fun _ v hv _ => ?_
  have htleft := ht.left
  have hvleft := hv.left
  split
  · exact .pure hv.tame ⟨.nil, by omega⟩
  · refine (compileAnswer_halts hv.tame hcode.1).mono fun program w hw hprogram => ?_
    exact ⟨hprogram.1, by omega⟩

theorem requestModule_halts (hs : s.Tame short) (library : String) :
    Halts short (fun _ => requestModule library) s fun program t =>
      Stmt.LoopFree program.body ∧ t.left < s.left := by
  refine (say_halts hs _).bind fun _ t ht _ => ?_
  refine (requestCode_halts ht.tame _).bind fun code u hu hcode => ?_
  refine (compileAnswer_halts hu.tame hcode.1).mono fun program w hw hprogram => ?_
  have := ht.left
  exact ⟨hprogram.1, by omega⟩

theorem leads_foldl {step : Session → Function → Session}
    (hstep : ∀ (s : Session) (decl : Function), s.Tame short → Stmt.LoopFree decl.body →
      s.Leads short (step s decl))
    {decls : List Function} (hdecls : ∀ decl ∈ decls, Stmt.LoopFree decl.body) (hs : s.Tame short) :
    s.Leads short (decls.foldl step s) := by
  induction decls generalizing s with
  | nil => exact hs.refl
  | cons decl decls ih =>
    have hfirst := hstep s decl hs (hdecls decl List.mem_cons_self)
    refine hfirst.trans (ih (fun other hother => ?_) hfirst.tame)
    exact hdecls other (List.mem_cons_of_mem _ hother)

theorem generate_halts (hs : s.Tame short) (name : String) (params : List String)
    (description : String) : Halts short (fun _ => generate name params description) s Anyhow := by
  refine (say_halts hs _).bind fun _ t ht _ => ?_
  refine (requestCode_halts ht.tame _).bind fun code u hu hcode => ?_
  refine (say_halts hu.tame _).bind fun _ v hv _ => ?_
  refine (compileAnswer_halts hv.tame hcode.1).bind fun program w hw hprogram => ?_
  refine .modify (leads_foldl (fun s decl hs hdecl => ?_) hprogram.1.functions hw.tame)
  have hregistered := hs.register hdecl
  exact hregistered.trans (hregistered.tame.leads rfl rfl rfl rfl)

theorem search_halts (hs : s.Tame short) (query : String) :
    Halts short (fun _ => search query) s Anyhow := by
  refine .get ((requestAnswer_halts hs _).bind fun answer t ht _ => ?_)
  exact say_halts ht.tame _

theorem inspect_halts (hs : s.Tame short) (value : Value) :
    Halts short (fun _ => inspect value) s Anyhow := by
  refine (requestAnswer_halts hs _).bind fun answer t ht _ => ?_
  exact say_halts ht.tame _

theorem callBuiltin_halts (hs : s.Tame short) (builtin : Builtin) (args : List Value) :
    Halts short (fun _ => callBuiltin builtin args) s Anyhow := by
  have hdraw (drawing : Drawing) :
      Halts short (fun _ => do modify (·.draw drawing); return Value.undefined) s Anyhow :=
    .andThen (.modify (hs.leads rfl rfl rfl rfl))
  unfold callBuiltin
  cases builtin with
  | print => exact (say_halts hs _).andThen
  | draw widget =>
    cases widget with
    | box => exact hdraw .box
    | text =>
      dsimp only
      split
      · exact hdraw _
      · exact .pure hs trivial
    | button => exact hdraw _
  | ask =>
    refine (say_halts hs _).bind fun _ t ht _ => ?_
    refine (request_halts ht.tame _).bind fun completion u hu _ => ?_
    exact (note_halts hu.tame _).andThen
  | remember =>
    refine (say_halts hs _).bind fun _ t ht _ => ?_
    exact .andThen (.modify (ht.tame.leads rfl rfl rfl rfl))

theorem callBound_halts (hs : s.Tame short) (name : String) (args : List Value) :
    Halts short (fun _ => callBound name args) s Anyhow := by
  refine .get ?_
  split
  · exact callBuiltin_halts hs _ args
  · exact .fail hs

theorem apply_halts (hs : s.Tame short) (op : Operator) (left right : Value) :
    Halts short (fun _ => apply op left right) s Anyhow := by
  unfold apply
  split
  · exact .pure hs trivial
  · exact .fail hs

theorem lookup_halts (hs : s.Tame short) (name : String) :
    Halts short (fun _ => lookup name) s Anyhow := by
  refine .get ?_
  split
  · exact .pure hs trivial
  · exact .fail hs

def BlocksHalt (short : Prop) (responses room : Nat) : Prop :=
  ∀ {s : Session} {stmts : List Stmt}, Stmt.LoopFree stmts → s.Tame short → s.Under responses room →
    Halts short (fun fuel => execBlock fuel stmts) s Anyhow

section Descent

variable {responses room : Nat} (ih : BlocksHalt short responses room)
include ih

theorem inFrame_halts {body : List Stmt} {enter : Frames → Frames} (hs : s.Tame short)
    (hunder : s.Under responses (room + 1)) (hlimit : s.frames.depth < s.config.maxCallDepth)
    (henter : (enter s.frames).depth = s.frames.depth + 1) (hbody : Stmt.LoopFree body) :
    Halts short (fun fuel => inFrame enter (execBlock fuel body)) s Anyhow := by
  have htame : Session.Tame short { s with frames := enter s.frames } :=
    ⟨⟨hs.functions, hs.responses⟩, hs.size⟩
  have hinside : Session.Under { s with frames := enter s.frames } responses room := by
    unfold Session.Under Session.room at hunder ⊢
    change s.left < responses ∨ s.left = responses ∧
      s.config.maxCallDepth - (enter s.frames).depth < room
    omega
  obtain ⟨enough, outcome, t, hrun, ht, hout⟩ := ih hbody htame hinside
  refine ⟨enough, outcome, { t with frames := t.frames.pop }, fun fuel hfuel => ?_, ?_, ?_⟩
  · change (match execBlock fuel body { s with frames := enter s.frames } with
      | (result, s) => (result, { s with frames := s.frames.pop })) = _
    rw [show execBlock fuel body { s with frames := enter s.frames } = (outcome, t) from
      hrun fuel hfuel]
  · refine ⟨⟨⟨ht.tame.functions, ht.tame.responses⟩, ht.tame.size⟩, ht.left, ht.limit, ?_⟩
    have hdepth : t.frames.depth = s.frames.depth + 1 := ht.depth.trans henter
    change t.frames.calls.tail.length = s.frames.depth
    rw [List.length_tail]
    exact Nat.sub_eq_of_eq_add hdepth
  · cases outcome with
    | ok a => trivial
    | error stop => exact hout

theorem call_halts (hs : s.Tame short) (hunder : s.Under responses (room + 1)) (name : String)
    (args : List Value) : Halts short (fun fuel => call fuel name args) s Anyhow := by
  refine .succ (.get ?_)
  split
  · exact callBound_halts hs name args
  · rename_i callable hget
    split
    · exact .fail hs
    · rename_i hroom
      have hbody := hs.functions name callable hget
      refine Halts.bind (?_ : Halts short _ s Anyhow) fun flow t ht _ => ?_
      · cases callable with
        | function decl => exact inFrame_halts ih hs hunder (Nat.not_le.mp hroom) rfl hbody
        | inline decl => exact inFrame_halts ih hs hunder (Nat.not_le.mp hroom) rfl hbody
      · cases flow <;> exact .pure ht.tame trivial

end Descent

section Trees

variable {responses room : Nat}

mutual

theorem eval_halts (ih : BlocksHalt short responses room) (e : Expr) {s : Session}
    (hs : s.Tame short) (hunder : s.Under responses (room + 1)) :
    Halts short (fun fuel => eval fuel e) s Anyhow := by
  refine .succ ?_
  match e with
  | .number value => exact .pure hs trivial
  | .text value => exact .pure hs trivial
  | .name n => exact lookup_halts hs n
  | .binary op left right =>
    refine (eval_halts ih left hs hunder).bind fun _ t ht _ => ?_
    refine (eval_halts ih right ht.tame (ht.under hunder)).bind fun _ u hu _ => ?_
    exact apply_halts hu.tame op _ _
  | .call callee args =>
    refine (evalAll_halts ih args hs hunder).bind fun values t ht _ => ?_
    exact call_halts ih ht.tame (ht.under hunder) callee values
  | .ui widget args children =>
    refine (evalAll_halts ih args hs hunder).bind fun values t ht _ => ?_
    refine (callBound_halts ht.tame widget.name values).bind fun _ u hu _ => ?_
    exact (evalAll_halts ih children hu.tame (hu.under (ht.under hunder))).andThen

theorem evalAll_halts (ih : BlocksHalt short responses room) (es : List Expr) {s : Session}
    (hs : s.Tame short) (hunder : s.Under responses (room + 1)) :
    Halts short (fun fuel => evalAll fuel es) s Anyhow := by
  refine .succ ?_
  match es with
  | [] => exact .pure hs trivial
  | e :: es =>
    refine (eval_halts ih e hs hunder).bind fun value t ht _ => ?_
    exact (evalAll_halts ih es ht.tame (ht.under hunder)).bind fun _ u hu _ =>
      .pure hu.tame trivial

end

theorem runProgram_halts (ih : BlocksHalt short responses room) {program : Program}
    (hs : s.Tame short) (hunder : s.Under responses room) (hprogram : Stmt.LoopFree program.body) :
    Halts short (fun fuel => runProgram fuel program) s Anyhow := by
  have hregistered : s.Leads short (program.functions.foldl Session.register s) :=
    leads_foldl (fun _ _ => Session.Tame.register) hprogram.functions hs
  refine .succ (Halts.bind (.modify hregistered) fun _ t ht _ => ?_)
  have hwider : t.Under responses (room + 1) := by
    have hsame := ht.under hunder
    unfold Session.Under at hsame ⊢
    omega
  split
  · exact (call_halts ih ht.tame hwider "main" []).andThen
  · refine (ih (hprogram.subset fun stmt hstmt => ?_) ht.tame (ht.under hunder)).andThen
    exact (List.mem_filter.mp hstmt).1

theorem under_of_spent {n : Nat} (hunder : s.Under responses (room + 1))
    (hspent : t.left < s.left) :
    t.Under responses n := by
  unfold Session.Under at hunder ⊢
  omega

mutual

theorem exec_halts (ih : BlocksHalt short responses room) (stmt : Stmt) {s : Session}
    (hstmt : Stmt.LoopFree [stmt]) (hs : s.Tame short) (hunder : s.Under responses (room + 1)) :
    Halts short (fun fuel => exec fuel stmt) s Anyhow := by
  refine .succ ?_
  match stmt with
  | .function name params body =>
    exact .andThen (.modify (hs.register (hstmt.own List.mem_cons_self)))
  | .binding name none => exact .andThen (.modify (hs.define _ _))
  | .binding name (some init) =>
    refine (eval_halts ih init hs hunder).bind fun value t ht _ => ?_
    exact .andThen (.modify (ht.tame.define _ _))
  | .branch test yes none =>
    refine (eval_halts ih test hs hunder).bind fun value t ht _ => ?_
    split
    · exact execBlock_halts ih yes (hstmt.own (by simp [Stmt.blocks])) ht.tame (ht.under hunder)
    · exact .pure ht.tame trivial
  | .branch test yes (some no) =>
    refine (eval_halts ih test hs hunder).bind fun value t ht _ => ?_
    split
    · exact execBlock_halts ih yes (hstmt.own (by simp [Stmt.blocks])) ht.tame (ht.under hunder)
    · exact execBlock_halts ih no (hstmt.own (by simp [Stmt.blocks])) ht.tame (ht.under hunder)
  | .loop test body => exact absurd (.here List.mem_cons_self) (hstmt test body)
  | .ret none => exact .pure hs trivial
  | .ret (some value) =>
    refine (eval_halts ih value hs hunder).bind fun _ t ht _ => .pure ht.tame trivial
  | .expr e => exact (eval_halts ih e hs hunder).andThen
  | .generate name params description => exact (generate_halts hs _ _ _).andThen
  | .optimize body =>
    refine (requestOptimized_halts hs body).bind fun program t ht hprogram => ?_
    exact ih hprogram.1 ht.tame (under_of_spent hunder hprogram.2)
  | .ask instruction body =>
    refine (requestInstructed_halts hs instruction body).bind fun program t ht hprogram => ?_
    exact ih hprogram.1 ht.tame (under_of_spent hunder hprogram.2)
  | .load library =>
    refine (requestModule_halts hs library).bind fun program t ht hprogram => ?_
    exact (runProgram_halts ih ht.tame (under_of_spent hunder hprogram.2) hprogram.1).andThen
  | .search query => exact (search_halts hs query).andThen
  | .inspect target =>
    refine (eval_halts ih target hs hunder).bind fun value t ht _ => ?_
    exact (inspect_halts ht.tame value).andThen

theorem execBlock_halts (ih : BlocksHalt short responses room) (stmts : List Stmt) {s : Session}
    (hstmts : Stmt.LoopFree stmts) (hs : s.Tame short) (hunder : s.Under responses (room + 1)) :
    Halts short (fun fuel => execBlock fuel stmts) s Anyhow := by
  refine .succ ?_
  match stmts with
  | [] => exact .pure hs trivial
  | stmt :: later =>
    refine (exec_halts ih stmt hstmts.head hs hunder).bind fun flow t ht _ => ?_
    cases flow with
    | normal => exact execBlock_halts ih later hstmts.tail ht.tame (ht.under hunder)
    | ret value => exact .pure ht.tame trivial

end

end Trees

/-- Blocks without loops halt under all bounds.  With no room left under a number of responses,
every session has fewer responses and some room. -/
theorem blocksHalt (short : Prop) (responses room : Nat) : BlocksHalt short responses room := by
  induction responses generalizing room with
  | zero =>
    induction room with
    | zero =>
      intro s stmts _ _ hunder
      unfold Session.Under at hunder
      omega
    | succ room ih => exact fun {_ stmts} => execBlock_halts ih stmts
  | succ responses fewer =>
    induction room with
    | zero =>
      intro s stmts hstmts hs hunder
      refine fewer (s.room + 1) hstmts hs ?_
      unfold Session.Under at hunder ⊢
      omega
    | succ room ih => exact fun {_ stmts} => execBlock_halts ih stmts

end Run

end Splice
