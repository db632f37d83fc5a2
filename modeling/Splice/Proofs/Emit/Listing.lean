import Splice.Proofs.Emit.Lowering
import Splice.Proofs.Tree.Image
import Splice.Proofs.Tree.Parts

/-! Code line by line.  The written form of a module opens and closes its blocks, loops and branches
with lines of their own; `Op` is what one line says.  For a program that has a text, the lines of
the module are exactly the lines of its code: no name and no comment breaks a line. -/
namespace Splice.Wat

/-- What one line of a function says. -/
inductive Op where
  | const (value : Int)
  | localGet (index : Nat)
  | arith (op : Operator)
  | eqz
  | call (name : String)
  | drop
  | ret
  | jump (label : String)
  | jumpIf (label : String)
  | block (label : String)
  | loop (label : String)
  | branch
  | otherwise
  | finish
  | comment (text : String)
  deriving DecidableEq

namespace Op

def text : Op → String
  | .const value => "i32.const " ++ toString value
  | .localGet index => "local.get $p" ++ toString index
  | .arith op => arithName op
  | .eqz => "i32.eqz"
  | .call name => "call $" ++ name
  | .drop => "drop"
  | .ret => "return"
  | .jump label => "br $" ++ label
  | .jumpIf label => "br_if $" ++ label
  | .block label => "block $" ++ label
  | .loop label => "loop $" ++ label
  | .branch => "if"
  | .otherwise => "else"
  | .finish => "end"
  | .comment text => ";; " ++ text

def opens : Op → Bool
  | .block _ | .loop _ | .branch | .otherwise => true
  | _ => false

def closes : Op → Bool
  | .otherwise | .finish => true
  | _ => false

end Op

mutual

def Instr.ops : Instr → List Op
  | .const value => [.const value]
  | .localGet index => [.localGet index]
  | .arith op => [.arith op]
  | .eqz => [.eqz]
  | .call name => [.call name]
  | .drop => [.drop]
  | .ret => [.ret]
  | .jump label => [.jump label]
  | .jumpIf label => [.jumpIf label]
  | .block label body => .block label :: (opsAll body ++ [.finish])
  | .loop label body => .loop label :: (opsAll body ++ [.finish])
  | .branch yes none => .branch :: (opsAll yes ++ [.finish])
  | .branch yes (some no) => .branch :: (opsAll yes ++ .otherwise :: (opsAll no ++ [.finish]))
  | .comment text => [.comment text]

def opsAll : List Instr → List Op
  | [] => []
  | instr :: code => instr.ops ++ opsAll code

end

@[simp] theorem opsAll_append (code code' : List Instr) :
    opsAll (code ++ code') = opsAll code ++ opsAll code' := by
  induction code with
  | nil => rfl
  | cons instr code ih => rw [List.cons_append, opsAll, opsAll, ih, List.append_assoc]

def Func.ops (f : Func) : List Op :=
  opsAll f.body

def listing (depth : Nat) : List Op → List String
  | [] => []
  | op :: ops =>
    let level := if op.closes then depth - 1 else depth
    (Text.spaces (2 * level) ++ op.text) :: listing (if op.opens then level + 1 else level) ops

def Func.lines (f : Func) : List String :=
  "" :: ("  " ++ f.header) :: listing 2 f.ops ++ ["  )"] ++
    if f.name = "main" then ["  (export \"main\" (func $main))"] else []

def Module.lines (m : Module) : List String :=
  "(module" :: preamble.map ("  " ++ ·) ++ m.funcs.flatMap Func.lines ++ [")"]

def written (lines : List String) : String :=
  String.join (lines.map (· ++ "\n"))

@[simp] theorem written_append (lines lines' : List String) :
    written (lines ++ lines') = written lines ++ written lines' := by
  rw [written, List.map_append, String.join_append, written, written]

theorem written_cons (text : String) (lines : List String) :
    written (text :: lines) = text ++ "\n" ++ written lines := by
  rw [written, List.map_cons, String.join_cons, written]

theorem line_of_ne {text : String} (h : text ≠ "") (depth : Nat) :
    line depth text = Text.spaces (2 * depth) ++ text ++ "\n" := by
  unfold line
  rw [if_neg (by simpa using h)]

theorem Op.text_ne (op : Op) : op.text ≠ "" := by
  cases op with
  | arith op => cases op <;> decide
  | _ => simp [text]

theorem line_text (depth : Nat) (op : Op) (ops : List Op) (h : op.closes = false) :
    line depth op.text ++ written (listing (if op.opens then depth + 1 else depth) ops) =
      written (listing depth (op :: ops)) := by
  rw [line_of_ne op.text_ne]
  simp only [listing, h, written_cons]
  rfl

theorem line_finish (depth : Nat) (ops : List Op) :
    line depth "end" ++ written (listing depth ops) =
      written (listing (depth + 1) (.finish :: ops)) := by
  rw [line_of_ne (by decide), listing, written_cons]
  rfl

theorem line_otherwise (depth : Nat) (ops : List Op) :
    line depth "else" ++ written (listing (depth + 1) ops) =
      written (listing (depth + 1) (.otherwise :: ops)) := by
  rw [line_of_ne (by decide), listing, written_cons]
  rfl

mutual

theorem render_ops (instr : Instr) (depth : Nat) (ops : List Op) :
    instr.render depth ++ written (listing depth ops) =
      written (listing depth (instr.ops ++ ops)) := by
  match instr with
  | .const value => exact line_text depth (.const value) ops rfl
  | .localGet index => exact line_text depth (.localGet index) ops rfl
  | .arith op => exact line_text depth (.arith op) ops rfl
  | .eqz => exact line_text depth .eqz ops rfl
  | .call name => exact line_text depth (.call name) ops rfl
  | .drop => exact line_text depth .drop ops rfl
  | .ret => exact line_text depth .ret ops rfl
  | .jump label => exact line_text depth (.jump label) ops rfl
  | .jumpIf label => exact line_text depth (.jumpIf label) ops rfl
  | .comment text => exact line_text depth (.comment text) ops rfl
  | .block label body =>
    rw [Instr.render, String.append_assoc, String.append_assoc, line_finish, renderAll_ops body]
    simp only [Instr.ops, List.cons_append, List.append_assoc, List.nil_append]
    exact line_text depth (.block label) (opsAll body ++ .finish :: ops) rfl
  | .loop label body =>
    rw [Instr.render, String.append_assoc, String.append_assoc, line_finish, renderAll_ops body]
    simp only [Instr.ops, List.cons_append, List.append_assoc, List.nil_append]
    exact line_text depth (.loop label) (opsAll body ++ .finish :: ops) rfl
  | .branch yes none =>
    rw [Instr.render, String.append_assoc, String.append_assoc, line_finish, renderAll_ops yes]
    simp only [Instr.ops, List.cons_append, List.append_assoc, List.nil_append]
    exact line_text depth .branch (opsAll yes ++ .finish :: ops) rfl
  | .branch yes (some no) =>
    rw [Instr.render, String.append_assoc, String.append_assoc, String.append_assoc,
      String.append_assoc, line_finish, renderAll_ops no, line_otherwise, renderAll_ops yes]
    simp only [Instr.ops, List.cons_append, List.append_assoc, List.nil_append]
    exact line_text depth .branch (opsAll yes ++ .otherwise :: (opsAll no ++ .finish :: ops)) rfl

theorem renderAll_ops (code : List Instr) (depth : Nat) (ops : List Op) :
    renderAll depth code ++ written (listing depth ops) =
      written (listing depth (opsAll code ++ ops)) := by
  match code with
  | [] =>
    rw [renderAll, opsAll]
    rfl
  | instr :: code =>
    rw [renderAll, opsAll, String.append_assoc, renderAll_ops code, render_ops instr,
      List.append_assoc]

end

theorem Func.render_eq (f : Func) : f.render = written f.lines := by
  have hbody : renderAll 2 f.body = written (listing 2 f.ops) := by
    simpa [listing, written, Func.ops] using renderAll_ops f.body 2 []
  have hheader : line 1 f.header = "  " ++ f.header ++ "\n" := by
    rw [line_of_ne (by simp [Func.header])]
    rfl
  unfold Func.render Func.lines
  rw [hbody, hheader]
  simp only [written_append, written_cons, List.cons_append, String.append_assoc,
    apply_ite written]
  rfl

theorem Module.render_eq (m : Module) : m.render = written m.lines := by
  have hfuncs : String.join (m.funcs.map Func.render) = written (m.funcs.flatMap Func.lines) := by
    induction m.funcs with
    | nil => rfl
    | cons f funcs ih =>
      rw [List.map_cons, String.join_cons, ih, List.flatMap_cons, written_append, Func.render_eq]
  unfold Module.render Module.lines
  rw [hfuncs]
  simp only [written_append, written_cons, List.cons_append, String.append_assoc]
  rfl

def OneLine (text : String) : Prop :=
  '\n' ∉ text.toList

instance (text : String) : Decidable (OneLine text) :=
  inferInstanceAs (Decidable (¬ _))

theorem OneLine.of_list {text : String} {cs : List Char} (htext : text = String.ofList cs)
    (h : '\n' ∉ cs) : OneLine text := by
  rwa [OneLine, htext, String.toList_ofList]

theorem OneLine.append {text text' : String} (h : OneLine text) (h' : OneLine text') :
    OneLine (text ++ text') := by
  rw [OneLine, String.toList_append, List.mem_append]
  exact not_or.mpr ⟨h, h'⟩

theorem oneLine_spaces (count : Nat) : OneLine (Text.spaces count) := by
  rw [OneLine, Text.toList_spaces]
  exact fun h => absurd (List.eq_of_mem_replicate h) (by decide)

theorem oneLine_natText (n : Nat) : OneLine (toString n) := by
  intro h
  rw [Nat.toString_eq_repr, Nat.toList_repr] at h
  exact Bool.noConfusion (Nat.isDigit_of_mem_toDigits (by decide) (by decide) h)

theorem oneLine_intText (n : Int) : OneLine (toString n) := by
  cases n with
  | ofNat n => exact oneLine_natText n
  | negSucc n => exact OneLine.append (by decide : OneLine "-") (oneLine_natText (n + 1))

theorem pieces_written {lines : List String} (h : ∀ text ∈ lines, OneLine text) :
    Text.pieces (written lines).toList = lines.map String.toList ++ [[]] := by
  induction lines with
  | nil => rfl
  | cons text lines ih =>
    have ih := ih fun text htext => h text (List.mem_cons_of_mem _ htext)
    have hlist : (written (text :: lines)).toList =
        text.toList ++ '\n' :: (written lines).toList := by
      rw [written_cons, String.append_assoc, String.toList_append, String.toList_append]
      rfl
    rw [List.map_cons, List.cons_append, ← ih, hlist, Text.pieces,
      Text.cut_append (h text List.mem_cons_self)]
    change (text.toList ++ []) :: _ = _
    rw [List.append_nil]
    rfl

def Unbroken (code : List Instr) : Prop :=
  ∀ op ∈ opsAll code, OneLine op.text

namespace Unbroken

variable {code code' : List Instr}

theorem nil : Unbroken [] :=
  fun _ h => nomatch h

theorem append (h : Unbroken code) (h' : Unbroken code') : Unbroken (code ++ code') := by
  intro op hop
  rw [opsAll_append, List.mem_append] at hop
  exact hop.elim (h op) (h' op)

theorem single {instr : Instr} {op : Op} (hop : instr.ops = [op]) (h : OneLine op.text) :
    Unbroken [instr] := by
  intro op' hop'
  rw [opsAll, hop, opsAll, List.append_nil, List.mem_singleton] at hop'
  exact hop' ▸ h

/-- An instruction with one body, which has a line before it and one behind it. -/
theorem enclosed {instr : Instr} {op : Op} (hops : instr.ops = op :: (opsAll code ++ [.finish]))
    (hop : OneLine op.text) (h : Unbroken code) : Unbroken [instr] := by
  intro op' hop'
  rw [opsAll, hops, opsAll, List.append_nil, List.mem_cons, List.mem_append,
    List.mem_singleton] at hop'
  rcases hop' with rfl | hinner | rfl
  · exact hop
  · exact h op' hinner
  · decide

theorem branchElse (h : Unbroken code) (h' : Unbroken code') :
    Unbroken [.branch code (some code')] := by
  intro op hop
  simp only [opsAll, Instr.ops, List.append_nil, List.mem_cons, List.mem_append,
    List.not_mem_nil, or_false] at hop
  rcases hop with rfl | hop | rfl | hop | rfl
  · decide
  · exact h op hop
  · decide
  · exact h' op hop
  · decide

end Unbroken

theorem oneLine_of_isPlainText {text : String} (h : isPlainText text = true) : OneLine text := by
  simp only [isPlainText, Bool.and_eq_true, Bool.not_eq_true', List.contains_eq_mem,
    decide_eq_false_iff_not] at h
  exact h.1

theorem oneLine_of_isPlainName {name : String} (h : isPlainName name = true) : OneLine name :=
  oneLine_of_isPlainText (isPlainText_of_isPlainName h)

theorem unbroken_const (n : Int) : Unbroken [.const n] :=
  .single rfl (OneLine.append (by decide : OneLine "i32.const ") (oneLine_intText n))

theorem unbroken_arith (op : Operator) : Unbroken [.arith op] :=
  .single rfl (by cases op <;> decide)

theorem unbroken_call {name : String} (h : OneLine name) : Unbroken [.call name] :=
  .single rfl (OneLine.append (by decide : OneLine "call $") h)

theorem unbroken_drop : Unbroken [.drop] :=
  .single rfl (by decide)

theorem unbroken_ret : Unbroken [.ret] :=
  .single rfl (by decide)

theorem unbroken_widgetCode (widget : Widget) : Unbroken (widgetCode widget) := by
  have hzeros : Unbroken [.const 0, .const 0] :=
    (unbroken_const 0).append (unbroken_const 0)
  cases widget with
  | box => exact unbroken_call (by decide)
  | text => exact hzeros.append (unbroken_call (by decide))
  | button => exact hzeros.append (unbroken_call (by decide))

variable {ctx : Context} {p : Float → Bool}

mutual

theorem ExprLowers.unbroken {e : Expr} {code : List Instr} (h : ExprLowers ctx e code)
    (hwf : e.wellFormed p = true) : Unbroken code := by
  match h with
  | .number _ => exact unbroken_const _
  | .param (i := i) _ =>
    exact .single rfl (OneLine.append (by decide : OneLine "local.get $p") (oneLine_natText i))
  | .binary hleft hright =>
    rw [Expr.wellFormed, Bool.and_eq_true] at hwf
    exact ((hleft.unbroken hwf.1).append (hright.unbroken hwf.2)).append (unbroken_arith _)
  | .print h =>
    rw [Expr.wellFormed, Bool.and_eq_true] at hwf
    exact (h.unbroken hwf.2 (unbroken_call (by decide))).append (unbroken_const 0)
  | .call _ _ hargs =>
    rw [Expr.wellFormed, Bool.and_eq_true] at hwf
    exact (hargs.unbroken hwf.2).append (unbroken_call (oneLine_of_isPlainName hwf.1))
  | .ui h =>
    rw [Expr.wellFormed, Bool.and_eq_true] at hwf
    exact (unbroken_widgetCode _).append (h.unbroken hwf.2 unbroken_drop)

theorem ArgsLower.unbroken {es : List Expr} {code : List Instr} (h : ArgsLower ctx es code)
    (hwf : Expr.allWellFormed es p = true) : Unbroken code := by
  match h with
  | .nil => exact .nil
  | .cons hfirst hrest =>
    rw [Expr.allWellFormed, Bool.and_eq_true] at hwf
    exact (hfirst.unbroken hwf.1).append (hrest.unbroken hwf.2)

theorem EachLowers.unbroken {use : Instr} {es : List Expr} {code : List Instr}
    (h : EachLowers ctx use es code) (hwf : Expr.allWellFormed es p = true)
    (huse : Unbroken [use]) : Unbroken code := by
  match h with
  | .nil => exact .nil
  | .cons hfirst hrest =>
    rw [Expr.allWellFormed, Bool.and_eq_true] at hwf
    exact (hfirst.unbroken hwf.1).append (huse.append (hrest.unbroken hwf.2 huse))

end

theorem oneLine_remark {s : Stmt} {text : String} (h : remark? s = some text)
    (hwf : s.wellFormed p = true) : OneLine text := by
  have hbetween {first middle last : String} (hfirst : OneLine first) (hmiddle : OneLine middle)
      (hlast : OneLine last) : OneLine (first ++ middle ++ last) :=
    (hfirst.append hmiddle).append hlast
  cases s with
  | generate name params description =>
    cases h
    simp only [Stmt.wellFormed, Bool.and_eq_true] at hwf
    exact hbetween (by decide) (oneLine_of_isPlainName hwf.1.1) (by decide)
  | load library =>
    cases h
    exact hbetween (by decide) (oneLine_of_isPlainText hwf) (by decide)
  | optimize _ | ask _ _ | search _ | inspect _ =>
    cases h
    decide
  | _ => cases h

mutual

theorem StmtLowers.unbroken {s : Stmt} {code : List Instr} (h : StmtLowers ctx s code)
    (hwf : s.wellFormed p = true) : Unbroken code := by
  match h with
  | .binding => exact .nil
  | .init h =>
    rw [Stmt.wellFormed, Bool.and_eq_true] at hwf
    exact (h.unbroken hwf.2).append unbroken_drop
  | .branch htest hyes =>
    simp only [Stmt.wellFormed, Bool.and_eq_true] at hwf
    exact (htest.unbroken hwf.1.1).append (.enclosed rfl (by decide) (hyes.unbroken hwf.2))
  | .branchElse htest hyes hno =>
    simp only [Stmt.wellFormed, Bool.and_eq_true] at hwf
    exact (htest.unbroken hwf.1.1.1.1).append
      (.branchElse (hyes.unbroken hwf.1.1.2) (hno.unbroken hwf.2))
  | .loop htest hbody =>
    simp only [Stmt.wellFormed, Bool.and_eq_true] at hwf
    have heqz : Unbroken [.eqz] := .single rfl (by decide)
    have hexit : Unbroken [.jumpIf "break"] := .single rfl (by decide)
    have hagain : Unbroken [.jump "continue"] := .single rfl (by decide)
    have hround := (((htest.unbroken hwf.1.1).append (heqz.append hexit)).append
      (hbody.unbroken hwf.2)).append hagain
    exact .enclosed rfl (by decide) (.enclosed rfl (by decide) hround)
  | .retNone => exact (unbroken_const 0).append unbroken_ret
  | .ret h => exact (h.unbroken hwf).append unbroken_ret
  | .expr h => exact (h.unbroken hwf).append unbroken_drop
  | .remark h =>
    exact .single rfl (OneLine.append (by decide : OneLine ";; ") (oneLine_remark h hwf))

theorem BlockLowers.unbroken {ss : List Stmt} {code : List Instr} (h : BlockLowers ctx ss code)
    (hwf : Stmt.allWellFormed ss p = true) : Unbroken code := by
  match h with
  | .nil => exact .nil
  | .cons hfirst hrest =>
    rw [Stmt.allWellFormed, Bool.and_eq_true] at hwf
    exact (hfirst.unbroken hwf.1).append (hrest.unbroken hwf.2)

end

theorem oneLine_join {texts : List String} (h : ∀ text ∈ texts, OneLine text) :
    OneLine (String.join texts) := by
  induction texts with
  | nil => decide
  | cons text texts ih =>
    rw [String.join_cons]
    exact (h text List.mem_cons_self).append (ih fun t ht => h t (List.mem_cons_of_mem _ ht))

theorem oneLine_listing {ops : List Op} (h : ∀ op ∈ ops, OneLine op.text) (depth : Nat) :
    ∀ text ∈ listing depth ops, OneLine text := by
  induction ops generalizing depth with
  | nil => exact fun _ htext => nomatch htext
  | cons op ops ih =>
    intro text htext
    rcases List.mem_cons.mp htext with rfl | htext
    · exact (oneLine_spaces _).append (h op List.mem_cons_self)
    · exact ih (fun op hop => h op (List.mem_cons_of_mem _ hop)) _ text htext

-- The longest texts of all; their characters are compared one by one, not decoded.
theorem oneLine_preamble : ∀ text ∈ preamble, OneLine text := by
  unfold preamble
  repeat refine List.forall_mem_cons.mpr ⟨.of_list rfl (by decide), ?_⟩
  exact List.forall_mem_nil _

theorem Func.oneLine_header {f : Func} (hname : OneLine f.name) : OneLine f.header := by
  refine ((OneLine.append (by decide) hname).append (oneLine_join ?_)).append (by decide)
  intro text htext
  obtain ⟨i, -, rfl⟩ := List.mem_map.mp htext
  exact (OneLine.append (by decide) (oneLine_natText i)).append (by decide)

theorem Func.oneLine_lines {f : Func} (hname : OneLine f.name) (hbody : Unbroken f.body) :
    ∀ text ∈ f.lines, OneLine text := by
  intro text htext
  simp only [Func.lines, List.cons_append, List.mem_cons, List.mem_append, List.not_mem_nil,
    or_false] at htext
  rcases htext with rfl | rfl | (hcode | rfl) | hmain
  · decide
  · exact OneLine.append (by decide) (oneLine_header hname)
  · exact oneLine_listing hbody 2 text hcode
  · decide
  · split at hmain
    · rw [List.mem_singleton.mp hmain]
      decide
    · cases hmain

/-- The text of a module, cut at its line breaks, is the lines of the module. -/
theorem Module.pieces_render {source : String} {program : Program} {module : Module}
    (hcompile : compile source = .ok program) (hemit : Module.ofProgram program = .ok module) :
    Text.pieces module.render.toList = module.lines.map String.toList ++ [[]] := by
  rw [Module.render_eq]
  apply pieces_written
  intro text htext
  simp only [Module.lines, List.cons_append, List.mem_cons, List.mem_append, List.mem_flatMap,
    List.not_mem_nil, or_false] at htext
  rcases htext with rfl | (hpreamble | ⟨func, hfunc, hline⟩) | rfl
  · decide
  · obtain ⟨text, htext, rfl⟩ := List.mem_map.mp hpreamble
    exact OneLine.append (by decide) (oneLine_preamble text htext)
  · obtain ⟨f, hf, code, hbody, rfl⟩ := exists_of_mem_funcs hemit hfunc
    have hwf := Stmt.wellFormed_of_mem (wellFormed_of_compile hcompile)
      (Program.mem_body_of_mem_functions hf)
    simp only [Stmt.wellFormed, Bool.and_eq_true] at hwf
    exact Func.oneLine_lines (oneLine_of_isPlainName hwf.1.1.1)
      ((hbody.unbroken hwf.2).append (unbroken_const 0)) text hline
  · decide

end Splice.Wat
