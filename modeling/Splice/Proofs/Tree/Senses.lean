import Mathlib.Data.List.Forall2
import Splice.Proofs.Decimal.Whole
import Splice.Proofs.Tree.Spelling

/-! What words say, apart from how it is spelled.  Parentheses and line breaks say nothing, digits
stand for their number, and some words are read differently behind another word.  Here a tree is
given what it says as a whole, and its canonical spelling is shown to say just that. -/
namespace Splice

open Spelling (dedents lineBreak closing)

inductive Sense where
  | number (value : Option Float)
  | word (kind : Kind) (text : String)

def Kind.sense (kind : Kind) : Sense :=
  .word kind kind.text

namespace Word

def sense (previous : Option Kind) (w : Word) : Sense :=
  match w.1 with
  | .number => .number (Decimal.read? w.2)
  -- A binding may be spelled in two ways.
  | .keyword .binding => (Kind.keyword .binding).sense
  | .ident =>
    if previous = some (.keyword .generate) ∧ w.2 = "function" then (Kind.keyword .function).sense
    else if previous = some (.keyword .aiImport) then .word .string w.2
    else .word .ident w.2
  | kind => .word kind w.2

def isSilent (w : Word) : Bool :=
  w.1 = .leftParen || w.1 = .rightParen || w.1 = .newline

def isCue (w : Word) : Bool :=
  w.1 = .keyword .generate || w.1 = .keyword .aiImport

def senses (previous : Option Kind) : List Word → List Sense
  | [] => []
  | w :: ws =>
    if w.isSilent then senses (some w.1) ws else w.sense previous :: senses (some w.1) ws

def Says (ws : List Word) (ss : List Sense) : Prop :=
  ∀ us, senses none (ws ++ us) = ss ++ senses none us

variable {w : Word} {ws us : List Word} {ss ts : List Sense}

theorem sense_of_not_cue (h : w.isCue = false) (v : Word) : v.sense (some w.1) = v.sense none := by
  have hgenerate : w.1 ≠ .keyword .generate := fun heq => by simp [isCue, heq] at h
  have himport : w.1 ≠ .keyword .aiImport := fun heq => by simp [isCue, heq] at h
  unfold sense
  simp [hgenerate, himport]

theorem senses_of_not_cue (h : w.isCue = false) (us : List Word) :
    senses (some w.1) us = senses none us := by
  cases us with
  | nil => rfl
  | cons v us =>
    unfold senses
    rw [sense_of_not_cue h]

theorem senses_cons (hloud : w.isSilent = false) (hcue : w.isCue = false) (us : List Word) :
    senses none (w :: us) = w.sense none :: senses none us := by
  rw [senses, hloud, senses_of_not_cue hcue]
  rfl

theorem senses_silent (h : w.isSilent = true) (us : List Word) :
    senses none (w :: us) = senses none us := by
  have hcue : w.isCue = false := by
    simp only [isSilent, Bool.or_eq_true, decide_eq_true_eq] at h
    rcases h with (h | h) | h <;> simp [isCue, h]
  rw [senses, if_pos h, senses_of_not_cue hcue]

namespace Says

theorem nil : Says [] [] :=
  fun _ => rfl

theorem append (h : Says ws ss) (h' : Says us ts) : Says (ws ++ us) (ss ++ ts) := by
  intro vs
  rw [List.append_assoc, h, h', List.append_assoc]

theorem cons (hloud : w.isSilent = false) (hcue : w.isCue = false) (h : Says ws ss) :
    Says (w :: ws) (w.sense none :: ss) := by
  intro vs
  rw [List.cons_append, senses_cons hloud hcue, h, List.cons_append]

theorem silent (hsilent : w.isSilent = true) (h : Says ws ss) : Says (w :: ws) ss := by
  intro vs
  rw [List.cons_append, senses_silent hsilent, h]

theorem cue {v : Word} (hloud : w.isSilent = false) (hnext : v.isSilent = false)
    (hcue : v.isCue = false) (h : Says ws ss) :
    Says (w :: v :: ws) (w.sense none :: v.sense (some w.1) :: ss) := by
  intro vs
  rw [List.cons_append, List.cons_append, senses, senses, hloud, hnext, senses_of_not_cue hcue, h]
  rfl

theorem senses_eq (h : Says ws ss) : senses none ws = ss := by
  have hnone := h []
  rwa [List.append_nil, senses, List.append_nil] at hnone

end Says

theorem says_dedents (count : Nat) :
    Says (dedents count) (List.replicate count Kind.dedent.sense) := by
  induction count with
  | zero => exact .nil
  | succ count ih => exact .cons rfl rfl ih

theorem says_lineBreak (broken : Bool) : Says (lineBreak broken) [] := by
  cases broken with
  | false => exact .nil
  | true => exact .silent rfl .nil

theorem says_closing (broken : Bool) (count : Nat) :
    Says (closing broken count) (List.replicate count Kind.dedent.sense) := by
  unfold closing
  split
  · rename_i hcount
    rw [hcount]
    exact .nil
  · exact (says_lineBreak broken).append (says_dedents count)

end Word

namespace Sense

def listTail : List (List Sense) → List Sense
  | [] => []
  | ss :: more => Kind.comma.sense :: ss ++ listTail more

def list : List (List Sense) → List Sense
  | [] => []
  | ss :: more => ss ++ listTail more

def block (lines : List (List Sense)) : List Sense :=
  Kind.indent.sense :: lines.flatten ++ [Kind.dedent.sense]

def children : List (List Sense) → List Sense
  | [] => []
  | child :: more => Kind.colon.sense :: block (child :: more)

theorem listTail_eq {lines : List (List Sense)} (h : lines ≠ []) :
    listTail lines = Kind.comma.sense :: list lines := by
  cases lines with
  | nil => exact absurd rfl h
  | cons ss more => rfl

theorem children_eq {lines : List (List Sense)} (h : lines ≠ []) :
    children lines = Kind.colon.sense :: block lines := by
  cases lines with
  | nil => exact absurd rfl h
  | cons child more => rfl

def names (names : List String) : List Sense :=
  list (names.map fun name => [.word .ident name])

theorem list_cons (ss : List Sense) {lines : List (List Sense)} (h : lines ≠ []) :
    list (ss :: lines) = ss ++ Kind.comma.sense :: list lines := by
  rw [list, listTail_eq h]

theorem names_cons (name : String) {more : List String} (h : more ≠ []) :
    names (name :: more) = .word .ident name :: Kind.comma.sense :: names more := by
  have hne : more.map (fun name => [Sense.word .ident name]) ≠ [] := by simpa using h
  rw [names, List.map_cons, list, listTail_eq hne]
  rfl

def heading (name : String) (params : List String) : List Sense :=
  .word .ident name :: names params

def instruction : Option String → List Sense
  | none => []
  | some text => [.word .string text]

end Sense

mutual

def Expr.senses : Expr → List Sense
  | .binary op left right => left.senses ++ (Kind.operator op).sense :: right.senses
  | .name n => [.word .ident n]
  | .number value => [.number (some value)]
  | .text value => [.word .string value]
  | .call callee args => .word .ident callee :: Sense.list (Expr.allSenses args)
  | .ui widget args children =>
    (Kind.widget widget).sense :: Sense.list (Expr.allSenses args) ++
      Sense.children (Expr.allSenses children)

def Expr.allSenses : List Expr → List (List Sense)
  | [] => []
  | e :: es => e.senses :: Expr.allSenses es

end

mutual

def Stmt.senses : Stmt → List Sense
  | .function name params body =>
    (Kind.keyword .function).sense :: Sense.heading name params ++
      Kind.colon.sense :: Sense.block (Stmt.allSenses body)
  | .binding name none => [(Kind.keyword .binding).sense, .word .ident name]
  | .binding name (some init) =>
    (Kind.keyword .binding).sense :: .word .ident name :: Kind.assign.sense :: init.senses
  | .branch test yes none =>
    (Kind.keyword .branch).sense :: test.senses ++
      Kind.colon.sense :: Sense.block (Stmt.allSenses yes)
  | .branch test yes (some no) =>
    (Kind.keyword .branch).sense :: test.senses ++
      Kind.colon.sense :: Sense.block (Stmt.allSenses yes) ++
        (Kind.keyword .otherwise).sense :: Kind.colon.sense :: Sense.block (Stmt.allSenses no)
  | .loop test body =>
    (Kind.keyword .loop).sense :: test.senses ++
      Kind.colon.sense :: Sense.block (Stmt.allSenses body)
  | .ret none => [(Kind.keyword .ret).sense]
  | .ret (some value) => (Kind.keyword .ret).sense :: value.senses
  | .expr e => e.senses
  | .generate name params description =>
    (Kind.keyword .generate).sense :: (Kind.keyword .function).sense ::
      Sense.heading name params ++
        [Kind.colon.sense, (Kind.keyword .description).sense, .word .string description]
  | .optimize body =>
    (Kind.keyword .aiOptimize).sense :: Kind.colon.sense :: Sense.block (Stmt.allSenses body)
  | .ask text none => (Kind.keyword .ai).sense :: Sense.instruction text
  | .ask text (some body) =>
    (Kind.keyword .ai).sense :: Sense.instruction text ++
      Kind.colon.sense :: Sense.block (Stmt.allSenses body)
  | .load library => [(Kind.keyword .aiImport).sense, .word .string library]
  | .search query => [(Kind.keyword .aiSearch).sense, .word .string query]
  | .inspect target => (Kind.keyword .aiInspect).sense :: target.senses

def Stmt.allSenses : List Stmt → List (List Sense)
  | [] => []
  | s :: ss => s.senses :: Stmt.allSenses ss

end

def Program.senses (program : Program) : List Sense :=
  (Stmt.allSenses program.body).flatten ++ [Kind.endOfInput.sense]

namespace Spelling

open Word

/-- What a spelling says once the blocks that it leaves open are closed. -/
def Says (s : Spelling) (ss : List Sense) : Prop :=
  ∃ head, Word.Says s.line head ∧ ss = head ++ List.replicate s.opens Kind.dedent.sense

variable {s : Spelling} {ss ts : List Sense} {ws : List Word} {spellings : List Spelling}
  {lines : List (List Sense)}

theorem Says.of_line (h : Word.Says ws ss) : Says ⟨ws, 0⟩ ss :=
  ⟨ss, h, (List.append_nil ss).symm⟩

theorem Says.settled (h : s.Says ss) : Word.Says s.settled ss := by
  obtain ⟨head, hline, rfl⟩ := h
  exact hline.append (says_closing true s.opens)

theorem Says.ended (h : s.Says ss) (broken : Bool) : Word.Says (s.ended broken) ss := by
  obtain ⟨head, hline, rfl⟩ := h
  have hbroken := hline.append (says_lineBreak broken)
  rw [List.append_nil] at hbroken
  exact hbroken.append (says_dedents s.opens)

theorem Says.after (h : s.Says ss) (hws : Word.Says ws ts) : (s.after ws).Says (ts ++ ss) := by
  obtain ⟨head, hline, rfl⟩ := h
  exact ⟨ts ++ head, hws.append hline, (List.append_assoc _ _ _).symm⟩

theorem Says.after_append {us : List Word} {rs : List Sense} (h : s.Says ss)
    (hws : Word.Says ws ts) (hus : Word.Says us rs) :
    (s.after (ws ++ us)).Says (ts ++ (rs ++ ss)) := by
  rw [← List.append_assoc]
  exact h.after (hws.append hus)

theorem Says.group (h : s.Says ss) (parens : Bool) : (group parens s).Says ss := by
  cases parens with
  | false => exact h
  | true =>
    have hclose : Word.Says [Kind.rightParen.word] [] := .silent rfl .nil
    have hinside := h.settled.append hclose
    rw [List.append_nil] at hinside
    exact .of_line (.silent rfl hinside)

theorem says_listTail (h : List.Forall₂ Says spellings lines) :
    Word.Says (listTail spellings) (Sense.listTail lines) := by
  induction h with
  | nil => exact .nil
  | cons hfirst _ ih =>
    exact .cons rfl rfl (hfirst.settled.append ih)

theorem says_list (h : List.Forall₂ Says spellings lines) :
    Word.Says (list spellings) (Sense.list lines) := by
  cases h with
  | nil => exact .nil
  | cons hfirst hmore => exact hfirst.settled.append (says_listTail hmore)

theorem says_linesTail (h : List.Forall₂ Says spellings lines) (opens : Nat) :
    (linesTail opens spellings).Says
      (List.replicate opens Kind.dedent.sense ++ lines.flatten) := by
  induction h generalizing opens with
  | nil => exact ⟨[], .nil, by simp [linesTail]⟩
  | @cons s ss more lines hfirst _ ih =>
    obtain ⟨head, hline, rfl⟩ := hfirst
    have hfront : Word.Says (Kind.newline.word :: dedents opens ++ s.line)
        (List.replicate opens Kind.dedent.sense ++ head) :=
      .append (.silent rfl (says_dedents opens)) hline
    have hall := (ih s.opens).after hfront
    rw [List.flatten_cons, List.append_assoc, ← List.append_assoc]
    exact hall

theorem says_lines (h : List.Forall₂ Says spellings lines) :
    (Spelling.lines spellings).Says lines.flatten := by
  cases h with
  | nil => exact .of_line .nil
  | @cons s ss more lines hfirst hmore =>
    obtain ⟨head, hline, rfl⟩ := hfirst
    have hall := (says_linesTail hmore s.opens).after hline
    rw [← List.append_assoc] at hall
    exact hall

theorem says_block (h : List.Forall₂ Says spellings lines) (hne : lines ≠ []) :
    (block spellings).Says (Sense.block lines) := by
  obtain ⟨head, hline, hall⟩ := says_lines h
  cases h with
  | nil => exact absurd rfl hne
  | @cons s ss more lines hfirst hmore =>
    refine ⟨Kind.indent.sense :: head, .silent rfl (.cons rfl rfl hline), ?_⟩
    unfold Sense.block
    rw [hall]
    simp [block, List.replicate_succ']

theorem says_names (names : List String) :
    Word.Says (list (names.map fun name => ⟨[(.ident, name)], 0⟩)) (Sense.names names) := by
  apply says_list
  induction names with
  | nil => exact .nil
  | cons name names ih => exact .cons (.of_line (.cons rfl rfl .nil)) ih

theorem says_heading (name : String) (params : List String) :
    Word.Says (heading name params) (Sense.heading name params) := by
  have hclose : Word.Says [Kind.rightParen.word] [] := .silent rfl .nil
  have hparams := (says_names params).append hclose
  rw [List.append_nil] at hparams
  exact .cons rfl rfl (.silent rfl hparams)

theorem says_instruction (text : Option String) :
    Word.Says (Spelling.instruction text) (Sense.instruction text) := by
  cases text with
  | none => exact .nil
  | some text => exact .cons rfl rfl .nil

end Spelling

open Spelling

theorem Expr.allSenses_ne_nil {es : List Expr} (h : es ≠ []) : Expr.allSenses es ≠ [] := by
  cases es with
  | nil => exact absurd rfl h
  | cons e es => exact List.cons_ne_nil _ _

theorem Stmt.allSenses_ne_nil {ss : List Stmt} (h : (!ss.isEmpty) = true) :
    Stmt.allSenses ss ≠ [] := by
  cases ss with
  | nil => cases h
  | cons s ss => exact List.cons_ne_nil _ _

theorem Spelling.says_arguments {w : Word} {spellings : List Spelling} {lines : List (List Sense)}
    (hloud : w.isSilent = false) (hcue : w.isCue = false)
    (h : List.Forall₂ Spelling.Says spellings lines) :
    Word.Says (w :: Kind.leftParen.word :: Spelling.list spellings ++ [Kind.rightParen.word])
      (w.sense none :: Sense.list lines) := by
  have hclose : Word.Says [Kind.rightParen.word] [] := .silent rfl .nil
  have hargs := (says_list h).append hclose
  rw [List.append_nil] at hargs
  exact .cons hloud hcue (.silent rfl hargs)

mutual

theorem Expr.says_spelling (e : Expr) (hwf : e.wellFormed = true) : e.spelling.Says e.senses := by
  match e with
  | .binary op left right =>
    rw [wellFormed, Bool.and_eq_true] at hwf
    have hop : Word.Says [(Kind.operator op).word] [(Kind.operator op).sense] :=
      .cons rfl rfl .nil
    have hleft := ((left.says_spelling hwf.1).group (left.strength < op.precedence)).settled
    have hright := (right.says_spelling hwf.2).group (right.strength ≤ op.precedence)
    exact hright.after_append hleft hop
  | .name n => exact .of_line (.cons rfl rfl .nil)
  | .number value =>
    have hline : Word.Says [(.number, Decimal.text value)] [.number (some value)] := by
      rw [← Decimal.read?_text hwf]
      exact .cons rfl rfl .nil
    exact .of_line hline
  | .text value => exact .of_line (.cons rfl rfl .nil)
  | .call callee args =>
    rw [wellFormed, Bool.and_eq_true] at hwf
    exact .of_line (says_arguments rfl rfl (Expr.says_spellings args hwf.2))
  | .ui widget args children =>
    rw [wellFormed, Bool.and_eq_true] at hwf
    have hcall : Word.Says ((Kind.widget widget).word :: Kind.leftParen.word ::
        list (Expr.spellings args) ++ [Kind.rightParen.word])
        ((Kind.widget widget).sense :: Sense.list (Expr.allSenses args)) :=
      says_arguments rfl rfl (Expr.says_spellings args hwf.1)
    match children with
    | [] =>
      have hsenses : (Expr.ui widget args []).senses =
          (Kind.widget widget).sense :: Sense.list (Expr.allSenses args) := List.append_nil _
      rw [hsenses]
      exact .of_line hcall
    | child :: more =>
      have hcolon : Word.Says [Kind.colon.word] [Kind.colon.sense] := .cons rfl rfl .nil
      have hblock := says_block (Expr.says_spellings (child :: more) hwf.2)
        (Expr.allSenses_ne_nil (List.cons_ne_nil _ _))
      exact hblock.after_append hcall hcolon

theorem Expr.says_spellings (es : List Expr) (hwf : Expr.allWellFormed es = true) :
    List.Forall₂ Spelling.Says (Expr.spellings es) (Expr.allSenses es) := by
  match es with
  | [] => exact .nil
  | e :: es =>
    rw [allWellFormed, Bool.and_eq_true] at hwf
    exact .cons (e.says_spelling hwf.1) (Expr.says_spellings es hwf.2)

end

theorem Expr.says_testSpelling (e : Expr) (hwf : e.wellFormed = true) :
    Word.Says e.testSpelling.settled e.senses :=
  ((e.says_spelling hwf).group e.endsBare).settled

mutual

theorem Stmt.says_spelling (s : Stmt) (hwf : s.wellFormed = true) : s.spelling.Says s.senses := by
  have hcolon : Word.Says [Kind.colon.word] [Kind.colon.sense] := .cons rfl rfl .nil
  match s with
  | .function name params body =>
    simp only [wellFormed, Bool.and_eq_true] at hwf
    exact (Stmt.says_block body hwf.1.2 hwf.2).after_append
      (.cons rfl rfl (says_heading name params)) hcolon
  | .binding name none => exact .of_line (.cons rfl rfl (.cons rfl rfl .nil))
  | .binding name (some init) =>
    rw [wellFormed, Bool.and_eq_true] at hwf
    exact (init.says_spelling hwf.2).after (.cons rfl rfl (.cons rfl rfl (.cons rfl rfl .nil)))
  | .branch test yes none =>
    simp only [wellFormed, Bool.and_eq_true] at hwf
    exact (Stmt.says_block yes hwf.1.2 hwf.2).after_append
      (.cons rfl rfl (test.says_testSpelling hwf.1.1)) hcolon
  | .branch test yes (some no) =>
    simp only [wellFormed, Bool.and_eq_true] at hwf
    have hyes := (Stmt.says_block yes hwf.1.1.1.2 hwf.1.1.2).ended true
    have hfirst : Word.Says ((Kind.keyword .branch).word :: test.testSpelling.settled)
        ((Kind.keyword .branch).sense :: test.senses) :=
      .cons rfl rfl (test.says_testSpelling hwf.1.1.1.1)
    exact (Stmt.says_block no hwf.1.2 hwf.2).after_append
      (hfirst.append (.cons rfl rfl hyes)) (.cons rfl rfl hcolon)
  | .loop test body =>
    simp only [wellFormed, Bool.and_eq_true] at hwf
    exact (Stmt.says_block body hwf.1.2 hwf.2).after_append
      (.cons rfl rfl (test.says_testSpelling hwf.1.1)) hcolon
  | .ret none => exact .of_line (.cons rfl rfl .nil)
  | .ret (some value) => exact (value.says_spelling hwf).after (.cons rfl rfl .nil)
  | .expr e => exact e.says_spelling hwf
  | .generate name params description =>
    have hdescription : Word.Says
        [Kind.colon.word, (Kind.keyword .description).word, (.string, description)]
        [Kind.colon.sense, (Kind.keyword .description).sense, .word .string description] :=
      .cons rfl rfl (.cons rfl rfl (.cons rfl rfl .nil))
    exact .of_line (.append (.cue rfl rfl rfl (says_heading name params)) hdescription)
  | .optimize body =>
    rw [wellFormed, Bool.and_eq_true] at hwf
    exact (Stmt.says_block body hwf.1 hwf.2).after (.cons rfl rfl hcolon)
  | .ask text none => exact .of_line (.cons rfl rfl (says_instruction text))
  | .ask text (some body) =>
    simp only [wellFormed, Bool.and_eq_true] at hwf
    exact (Stmt.says_block body hwf.1.2 hwf.2).after_append
      (.cons rfl rfl (says_instruction text)) hcolon
  | .load library =>
    unfold spelling
    split
    · exact .of_line (.cue rfl rfl rfl .nil)
    · exact .of_line (.cue rfl rfl rfl .nil)
  | .search query => exact .of_line (.cons rfl rfl (.cons rfl rfl .nil))
  | .inspect target => exact (target.says_spelling hwf).after (.cons rfl rfl .nil)

theorem Stmt.says_spellings (ss : List Stmt) (hwf : Stmt.allWellFormed ss = true) :
    List.Forall₂ Spelling.Says (Stmt.spellings ss) (Stmt.allSenses ss) := by
  match ss with
  | [] => exact .nil
  | s :: ss =>
    rw [allWellFormed, Bool.and_eq_true] at hwf
    exact .cons (s.says_spelling hwf.1) (Stmt.says_spellings ss hwf.2)

theorem Stmt.says_block (body : List Stmt) (hne : (!body.isEmpty) = true)
    (hwf : Stmt.allWellFormed body = true) :
    (block (Stmt.spellings body)).Says (Sense.block (Stmt.allSenses body)) :=
  Spelling.says_block (Stmt.says_spellings body hwf) (Stmt.allSenses_ne_nil hne)

end

theorem Program.senses_words (broken : Bool) {program : Program} (hwf : program.wellFormed = true) :
    Word.senses none (Stmt.words broken program.body) = program.senses := by
  have hend : Word.Says [Kind.endOfInput.word] [Kind.endOfInput.sense] := .cons rfl rfl .nil
  unfold Stmt.words Program.senses
  cases hbody : program.body with
  | nil => exact hend.senses_eq
  | cons s ss =>
    have hlines := says_lines (Stmt.says_spellings (s :: ss) (hbody ▸ hwf))
    exact ((hlines.ended broken).append hend).senses_eq

end Splice
