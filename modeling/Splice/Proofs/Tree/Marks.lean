import Splice.Proofs.Decimal.Whole
import Splice.Proofs.Tree.Built
import Splice.Proofs.Tree.Legible
import Splice.Proofs.Tree.Logic
import Splice.Proofs.Tree.Senses

/-! What the parsers make of the words of a text.  A mark says how many groups are open where a
parser stands and what the words read so far say; every step of a parser leads from one mark to
another. -/
namespace Splice

open Decimal (isLiteral)

namespace Word

/-- What a word says if it is written as all words of its kind are. -/
def reading (previous : Option Kind) (w : Word) : List Sense :=
  match w.1 with
  | .leftParen | .rightParen | .newline => []
  | .ident | .number | .string => [w.sense previous]
  | kind => [kind.sense]

theorem senses_eq_reading {w : Word} (h : w.isExact = true) (previous : Option Kind)
    (us : List Word) : senses previous (w :: us) = w.reading previous ++ senses (some w.1) us := by
  obtain ⟨kind, text⟩ := w
  cases kind with
  | ident | number | string | leftParen | rightParen | newline => rfl
  | keyword word =>
    cases word with
    | binding => rfl
    | _ =>
      have htext : text = _ := of_decide_eq_true h
      rw [htext]
      rfl
  | _ =>
    have htext : text = _ := of_decide_eq_true h
    rw [htext]
    rfl

end Word

/-- Well formed but for numbers that are too large, and built inside the groups that are open. -/
structure Expr.Proper (n level : Nat) (e : Expr) : Prop where
  wellFormed : e.wellFormed isLiteral = true
  built : e.Built n level

theorem Expr.Proper.weaken {n level lower : Nat} {e : Expr} (h : e.Proper n level)
    (hle : lower ≤ level) : e.Proper n lower :=
  ⟨h.wellFormed, h.built.weaken hle⟩

theorem Expr.Proper.binary {n : Nat} {op : Operator} {left right : Expr}
    (hleft : left.Proper n op.precedence) (hright : right.Proper n (op.precedence + 1)) :
    (Expr.binary op left right).Proper n op.precedence where
  wellFormed := by
    rw [Expr.wellFormed, Bool.and_eq_true]
    exact ⟨hleft.wellFormed, hright.wellFormed⟩
  built := .binary (Nat.le_refl _) hleft.built hright.built

theorem Expr.Proper.group {n level : Nat} {e : Expr} (hroom : n < Parser.maxNesting)
    (h : e.Proper (n + 1) 1) : e.Proper n level :=
  ⟨h.wellFormed, .group hroom h.built⟩

structure Expr.AllProper (n : Nat) (es : List Expr) : Prop where
  wellFormed : Expr.allWellFormed es isLiteral = true
  built : Expr.AllBuilt n es

theorem Expr.AllProper.nil {n : Nat} : AllProper n [] :=
  ⟨rfl, Expr.allBuilt_nil⟩

theorem Expr.AllProper.cons {n : Nat} {e : Expr} {es : List Expr} (he : e.Proper n 1)
    (hes : AllProper n es) : AllProper n (e :: es) where
  wellFormed := by
    rw [allWellFormed, Bool.and_eq_true]
    exact ⟨he.wellFormed, hes.wellFormed⟩
  built := Expr.allBuilt_cons.mpr ⟨he.built, hes.built⟩

theorem Expr.Proper.single {n : Nat} {e : Expr} (he : e.Proper n 1) : AllBuilt n [e] :=
  Expr.allBuilt_cons.mpr ⟨he.built, Expr.allBuilt_nil⟩

theorem Expr.Proper.call {n level : Nat} {callee : String} {args : List Expr}
    (hname : isPlainName callee = true) (hroom : n < Parser.maxNesting)
    (hargs : AllProper (n + 1) args) : (Expr.call callee args).Proper n level where
  wellFormed := by
    rw [Expr.wellFormed, Bool.and_eq_true]
    exact ⟨hname, hargs.wellFormed⟩
  built := .call hroom hargs.built

theorem Expr.Proper.ui {n level : Nat} {widget : Widget} {args children : List Expr}
    (hroom : args ++ children ≠ [] → n < Parser.maxNesting) (hargs : AllProper (n + 1) args)
    (hchildren : AllProper (n + 1) children) : (Expr.ui widget args children).Proper n level where
  wellFormed := by
    rw [Expr.wellFormed, Bool.and_eq_true]
    exact ⟨hargs.wellFormed, hchildren.wellFormed⟩
  built := .ui hroom hargs.built hchildren.built

structure Stmt.Proper (n : Nat) (s : Stmt) : Prop where
  wellFormed : s.wellFormed isLiteral = true
  built : s.Built n

structure Stmt.AllProper (n : Nat) (stmts : List Stmt) : Prop where
  wellFormed : Stmt.allWellFormed stmts isLiteral = true
  built : Stmt.AllBuilt n stmts

theorem Stmt.AllProper.nil {n : Nat} : AllProper n [] :=
  ⟨rfl, Stmt.allBuilt_nil⟩

theorem Stmt.AllProper.cons {n : Nat} {s : Stmt} {stmts : List Stmt} (hs : s.Proper n)
    (hstmts : AllProper n stmts) : AllProper n (s :: stmts) where
  wellFormed := by
    rw [allWellFormed, Bool.and_eq_true]
    exact ⟨hs.wellFormed, hstmts.wellFormed⟩
  built := Stmt.allBuilt_cons.mpr ⟨hs.built, hstmts.built⟩

structure Stmt.ProperBlock (n : Nat) (body : List Stmt) : Prop where
  nonempty : (!body.isEmpty) = true
  room : n < Parser.maxNesting
  all : Stmt.AllProper (n + 1) body

theorem Stmt.Proper.leaf {n : Nat} {s : Stmt} (hwf : s.wellFormed isLiteral = true)
    (hexprs : s.exprs = []) (hblocks : s.blocks = []) : s.Proper n :=
  ⟨hwf, by simp [Stmt.built_iff, hexprs, hblocks]⟩

theorem Stmt.Proper.ending {n : Nat} {s : Stmt} {e : Expr} (he : e.Proper n 1)
    (hwf : s.wellFormed isLiteral = true) (hexprs : s.exprs = [e]) (hblocks : s.blocks = []) :
    s.Proper n :=
  ⟨hwf, by simp [Stmt.built_iff, hexprs, hblocks, he.built]⟩

theorem Stmt.Proper.headed {n : Nat} {s : Stmt} {body : List Stmt} (hbody : ProperBlock n body)
    (hwf : s.wellFormed isLiteral = true) (hexprs : Expr.AllBuilt n s.exprs)
    (hblocks : s.blocks = [body]) : s.Proper n :=
  ⟨hwf, by simp [Stmt.built_iff, hexprs, hblocks, hbody.room, hbody.all.built]⟩

namespace Parser

variable {α β : Type} {c : Cursor}

/-- What is known where a parser stands. -/
structure Mark where
  depth : Nat
  said : List Sense
  behind : Option Kind
  /-- The next word does not end a statement. -/
  inside : Bool
  /-- The next word, if it was looked at. -/
  next : Option Word

namespace Mark

/-- A cursor from which on the rest of `all` is said. -/
structure At (all : List Sense) (s : Mark) (c : Cursor) : Prop where
  legible : c.Legible
  depth : c.nesting = s.depth
  said : all = s.said ++ Word.senses s.behind c.words
  inside : s.inside = true → c.kind.endsStatement = false
  next : ∀ w, s.next = some w → c.here.word = w

def isPlain (s : Mark) : Bool :=
  match s.behind with
  | some (.keyword .generate) | some (.keyword .aiImport) => false
  | _ => true

@[simp] def read (s : Mark) (w : Word) : Mark where
  depth := s.depth
  said := s.said ++ w.reading s.behind
  behind := some w.1
  inside := w.1 = .indent
  next := none

@[simp] def rest (n : Nat) (said : List Sense) : Mark :=
  ⟨n, said, none, false, none⟩

variable {all : List Sense} {s : Mark}

theorem senses_of_isPlain (h : s.isPlain = true) (us : List Word) :
    Word.senses s.behind us = Word.senses none us := by
  unfold isPlain at h
  cases hbehind : s.behind with
  | none => rfl
  | some kind =>
    refine @Word.senses_of_not_cue (kind, "") ?_ us
    simp only [Word.isCue, Bool.or_eq_false_iff, decide_eq_false_iff_not]
    constructor <;> rintro rfl <;> simp [hbehind] at h

namespace At

theorem forget (h : s.At all c) (hplain : s.isPlain = true) :
    Mark.At all ⟨s.depth, s.said, none, s.inside, none⟩ c where
  legible := h.legible
  depth := h.depth
  said := by
    rw [h.said, senses_of_isPlain hplain]
  inside := h.inside
  next _ hw := by cases hw

theorem look (h : s.At all c) {w : Word} (hword : c.here.word = w) :
    Mark.At all { s with next := some w } c where
  legible := h.legible
  depth := h.depth
  said := h.said
  inside := h.inside
  next v hv := by
    cases hv
    exact hword

theorem read (h : s.At all c) (hend : c.kind ≠ .endOfInput) :
    (s.read c.here.word).At all c.advance where
  legible := h.legible.advance
  depth := c.nesting_advance.trans h.depth
  said := by
    have hsaid := h.said
    rw [Cursor.words_advance h.legible.ended hend,
      Word.senses_eq_reading (h.legible.isExact hend)] at hsaid
    rw [hsaid, ← List.append_assoc]
    rfl
  inside hinside := h.legible.indented (of_decide_eq_true hinside)
  next _ hw := by cases hw

theorem skipNewlines {c : Cursor} {s : Mark} (h : s.At all c) (hplain : s.isPlain = true) :
    Mark.At all ⟨s.depth, s.said, none, s.inside, none⟩ c.skipNewlines := by
  by_cases hkind : c.kind = .newline
  · have houtside : s.inside = false := by
      cases hinside : s.inside with
      | false => rfl
      | true =>
        have hends := h.inside hinside
        rw [hkind] at hends
        cases hends
    have hless := h.legible.ended.left_advance (by simp [hkind])
    have hnext := h.read (by simp [hkind])
    have hword : c.here.word = (.newline, c.here.text) := Prod.ext hkind rfl
    have hsilent : s.read c.here.word = ⟨s.depth, s.said, some .newline, false, none⟩ := by
      rw [hword]
      simp [Word.reading]
    rw [hsilent] at hnext
    rw [← Cursor.skipNewlines_advance hkind, houtside]
    exact hnext.skipNewlines rfl
  · rw [Cursor.skipNewlines_eq_self hkind]
    exact h.forget hplain
termination_by c.left

end At

end Mark

def Step.Ready (s : Mark) : Step β → Prop
  | .advance => ∃ w, s.next = some w ∧ w.1 ≠ .endOfInput
  | .accept wanted | .expect wanted _ => wanted ≠ .endOfInput
  | .skipNewlines | .acceptOtherwise => s.isPlain = true
  | _ => True

def Step.Marks (s : Mark) : Step β → β → Mark → Prop
  | .kind, found, t => ∃ text, t = { s with next := some (found, text) } ∧
    (s.inside = true → found.endsStatement = false)
  | .isNext wanted, true, t => ∃ text, t = { s with next := some (wanted, text) }
  | .isNext _, false, t => t = s
  | .operator?, some op, t => ∃ text, t = { s with next := some (.operator op, text) }
  | .operator?, none, t => t = s
  | .ends, _, t => t = s
  | .advance, text, t => ∃ kind, t = s.read (kind, text) ∧ Word.isSpelled (kind, text) = true ∧
    ∀ w, s.next = some w → (kind, text) = w
  | .accept wanted, true, t => ∃ text, t = s.read (wanted, text) ∧
    Word.isSpelled (wanted, text) = true
  | .accept _, false, t => t = s
  | .expect wanted _, text, t => t = s.read (wanted, text) ∧ Word.isSpelled (wanted, text) = true
  | .breakLine, _, t => ∃ text, t = s.read (.newline, text)
  | .skipNewlines, _, t => t = ⟨s.depth, s.said, none, s.inside, none⟩
  | .enter, _, t => t = { s with depth := s.depth + 1 } ∧ s.depth < maxNesting
  | .leave, _, t => t = { s with depth := s.depth - 1 }
  | .endStatement, _, t => t = s
  | .acceptOtherwise, true, t => t = .rest s.depth (s.said ++ [(Kind.keyword .otherwise).sense])
  | .acceptOtherwise, false, t => t = s
  | .opensGenerated, true, t => ∃ w, t = { s with next := some w } ∧
    (w.1 = .keyword .function ∨ w = (.ident, "function"))
  | .opensGenerated, false, t => t = s

def Rule.senses : Rule α → α → List Sense
  | .paramNames => Sense.names
  | .operation _ | .operands _ _ | .primary => Expr.senses
  | .arguments | .argumentList => fun es => Sense.list (Expr.allSenses es)
  | .children => fun es => Sense.block (Expr.allSenses es)
  | .childList => fun es => (Expr.allSenses es).flatten
  | .statement | .statementForm => Stmt.senses
  | .block => fun stmts => Sense.block (Stmt.allSenses stmts)
  | .statements _ => fun stmts => (Stmt.allSenses stmts).flatten

/-- What was said before the words that are read for a parser.  A left operand has been read when
the parser of the further ones is called. -/
def Rule.Follows (s : Mark) (before : List Sense) : Rule α → Prop
  | .operands level left => s.said = before ++ left.senses ∧ left.Proper s.depth level
  | _ => s.said = before

def Rule.Makes (s : Mark) : Rule α → α → Prop
  | .paramNames, names => names ≠ [] ∧ names.all isPlainName = true
  | .operation level, e | .operands level _, e => e.Proper s.depth level
  | .primary, e => ∀ level, e.Proper s.depth level
  | .arguments, es => s.depth < maxNesting ∧ Expr.AllProper (s.depth + 1) es
  | .argumentList, es => es ≠ [] ∧ Expr.AllProper s.depth es
  | .children, es => es ≠ [] ∧ s.depth < maxNesting ∧ Expr.AllProper (s.depth + 1) es
  | .childList, es => (s.inside = true → es ≠ []) ∧ Expr.AllProper s.depth es
  | .statement, stmt | .statementForm, stmt => stmt.Proper s.depth
  | .block, body => Stmt.ProperBlock s.depth body
  | .statements _, stmts =>
    (s.inside = true → (!stmts.isEmpty) = true) ∧ Stmt.AllProper s.depth stmts

def marking : Logic Mark where
  allows step s := step.Ready s
  leads step s a t := step.Marks s a t
  fails _ _ := True
  needs rule s := s.isPlain = true ∧ ∃ before, rule.Follows s before
  gives rule s a t := rule.Makes s a ∧ ∀ before, rule.Follows s before →
    t = .rest s.depth (before ++ rule.senses a)

open Mark in
theorem sound_marking (all : List Sense) : marking.Sound (Mark.At all) fun _ => True where
  fail _ := trivial
  step step s c hs hc := by
    cases step with
    | kind => exact ⟨_, ⟨c.here.text, rfl, hc.inside⟩, hc.look rfl⟩
    | isNext wanted =>
      rw [show (Step.isNext wanted).run c = .ok (decide (c.kind = wanted), c) from rfl]
      by_cases hkind : c.kind = wanted
      · have hword : c.here.word = (wanted, c.here.text) := Prod.ext hkind rfl
        rw [decide_eq_true hkind]
        exact ⟨_, ⟨c.here.text, rfl⟩, hc.look hword⟩
      · rw [decide_eq_false hkind]
        exact ⟨s, rfl, hc⟩
    | operator? =>
      rw [show Step.operator?.run c = .ok (c.kind.operator?, c) from rfl]
      cases hop : c.kind.operator? with
      | some op =>
        have hword : c.here.word = (.operator op, c.here.text) :=
          Prod.ext (Kind.operator?_eq_some.mp hop) rfl
        exact ⟨_, ⟨c.here.text, rfl⟩, hc.look hword⟩
      | none => exact ⟨s, rfl, hc⟩
    | ends => exact ⟨s, rfl, hc⟩
    | advance =>
      obtain ⟨w, hnext, hend⟩ := hs
      have hword := hc.next w hnext
      refine ⟨_, ⟨c.kind, rfl, hc.legible.isSpelled, hc.next⟩, hc.read ?_⟩
      rw [← hword] at hend
      exact hend
    | accept wanted =>
      simp only [Step.run, accept]
      split
      next hkind =>
        have hword : c.here.word = (wanted, c.here.text) := Prod.ext hkind rfl
        refine ⟨_, ⟨c.here.text, rfl, hword ▸ hc.legible.isSpelled⟩, ?_⟩
        rw [← hword]
        exact hc.read (hkind ▸ hs)
      next => exact ⟨s, rfl, hc⟩
    | expect wanted what =>
      by_cases hkind : c.kind = wanted
      · have hword : c.here.word = (wanted, c.here.text) := Prod.ext hkind rfl
        rw [Step.run, bind_of_ok (if_pos hkind)]
        refine ⟨_, ⟨rfl, hword ▸ hc.legible.isSpelled⟩, ?_⟩
        rw [← hword]
        exact hc.read (hkind ▸ hs)
      · rw [Step.run, bind_of_error (if_neg hkind)]
        trivial
    | breakLine =>
      by_cases hkind : c.kind = .newline
      · have hword : c.here.word = (.newline, c.here.text) := Prod.ext hkind rfl
        rw [Step.run, bind_of_ok (if_pos hkind)]
        refine ⟨_, ⟨c.here.text, rfl⟩, ?_⟩
        rw [← hword]
        exact hc.read (hkind ▸ Kind.noConfusion)
      · rw [Step.run, bind_of_error (if_neg hkind)]
        trivial
    | skipNewlines => exact ⟨_, rfl, hc.skipNewlines hs⟩
    | enter =>
      simp only [Step.run, enter]
      split
      next => trivial
      next hroom =>
        refine ⟨_, ⟨rfl, ?_⟩, ⟨hc.legible.sound, hc.legible.words⟩, ?_, hc.said, hc.inside, hc.next⟩
        · exact hc.depth ▸ Nat.lt_of_not_le hroom
        · exact congrArg (· + 1) hc.depth
    | leave =>
      exact ⟨_, rfl, ⟨hc.legible.sound, hc.legible.words⟩, congrArg (· - 1) hc.depth, hc.said,
        hc.inside, hc.next⟩
    | endStatement =>
      simp only [Step.run, endStatement]
      split
      next => exact ⟨s, rfl, hc⟩
      next => trivial
    | acceptOtherwise =>
      simp only [Step.run, acceptOtherwise]
      split
      next hword =>
        have hskip := hc.skipNewlines hs
        have hnext := hskip.read (by simp [hword])
        have hpair : c.skipNewlines.here.word = (.keyword .otherwise, c.skipNewlines.here.text) :=
          Prod.ext hword rfl
        rw [hpair] at hnext
        exact ⟨_, rfl, hnext.forget rfl⟩
      next => exact ⟨s, rfl, hc⟩
    | opensGenerated =>
      simp only [Step.run, opensGenerated]
      by_cases hopens : c.kind = .keyword .function ∨ (c.kind = .ident ∧ c.here.text = "function")
      · rw [decide_eq_true hopens]
        exact ⟨_, ⟨c.here.word, rfl, hopens.imp_right fun h => Prod.ext h.1 h.2⟩, hc.look rfl⟩
      · rw [decide_eq_false hopens]
        exact ⟨s, rfl, hc⟩

/-- From a mark a routine makes what is asked for, and stands at a mark as asked for. -/
def Routine.Reaches (r : Routine α) (s : Mark) (goal : α → Mark → Prop) : Prop :=
  r.wp marking s goal

namespace Routine.Reaches

variable {s : Mark} {goal : β → Mark → Prop}

theorem pure {b : β} (h : goal b s) : Reaches (Pure.pure b) s goal :=
  h

theorem pure_bind {a : α} {f : α → Routine β} (h : (f a).Reaches s goal) :
    Reaches (Pure.pure a >>= f) s goal :=
  h

theorem fail {cause : ParseFault.Cause} : Reaches (Routine.fail cause : Routine β) s goal :=
  trivial

theorem bind {r : Routine α} {f : α → Routine β}
    (h : r.Reaches s fun a t => (f a).Reaches t goal) : Reaches (r >>= f) s goal :=
  (wp_bind r f).mpr h

theorem of_step {step : Step α} {f : α → Routine β} (hready : step.Ready s)
    (h : ∀ a t, step.Marks s a t → (f a).Reaches t goal) :
    Reaches (liftM step >>= f) s goal :=
  bind ⟨hready, h⟩

theorem kind {f : Kind → Routine β} (h : ∀ found text,
    (s.inside = true → found.endsStatement = false) →
      (f found).Reaches { s with next := some (found, text) } goal) :
    Reaches (liftM Step.kind >>= f) s goal :=
  of_step trivial fun found _ ⟨text, ht, hinside⟩ => ht ▸ h found text hinside

theorem isNext {wanted : Kind} {f : Bool → Routine β}
    (htrue : ∀ text, (f true).Reaches { s with next := some (wanted, text) } goal)
    (hfalse : (f false).Reaches s goal) : Reaches (liftM (Step.isNext wanted) >>= f) s goal := by
  refine of_step trivial ?_
  rintro (_ | _) t ht
  · exact ht ▸ hfalse
  · obtain ⟨text, rfl⟩ := ht
    exact htrue text

theorem operator? {f : Option Operator → Routine β}
    (hsome : ∀ op text, (f (some op)).Reaches { s with next := some (.operator op, text) } goal)
    (hnone : (f none).Reaches s goal) : Reaches (liftM Step.operator? >>= f) s goal := by
  refine of_step trivial ?_
  rintro (_ | op) t ht
  · exact ht ▸ hnone
  · obtain ⟨text, rfl⟩ := ht
    exact hsome op text

theorem ends {f : Bool → Routine β} (h : ∀ found, (f found).Reaches s goal) :
    Reaches (liftM Step.ends >>= f) s goal :=
  of_step trivial fun found _ ht => ht ▸ h found

theorem advance {w : Word} {f : String → Routine β} (hnext : s.next = some w)
    (hend : w.1 ≠ .endOfInput) (h : w.isSpelled = true → (f w.2).Reaches (s.read w) goal) :
    Reaches (liftM Step.advance >>= f) s goal :=
  of_step ⟨w, hnext, hend⟩ fun text t ⟨kind, ht, hspelled, hword⟩ => by
    obtain rfl := hword w hnext
    exact ht ▸ h hspelled

theorem accept {wanted : Kind} {f : Bool → Routine β} (hend : wanted ≠ .endOfInput)
    (htrue : ∀ text, Word.isSpelled (wanted, text) = true →
      (f true).Reaches (s.read (wanted, text)) goal)
    (hfalse : (f false).Reaches s goal) : Reaches (liftM (Step.accept wanted) >>= f) s goal := by
  refine of_step hend ?_
  rintro (_ | _) t ht
  · exact ht ▸ hfalse
  · obtain ⟨text, rfl, hspelled⟩ := ht
    exact htrue text hspelled

theorem expect {wanted : Kind} {what : ParseFault.Expected} {f : String → Routine β}
    (hend : wanted ≠ .endOfInput) (h : ∀ text, Word.isSpelled (wanted, text) = true →
      (f text).Reaches (s.read (wanted, text)) goal) :
    Reaches (liftM (Step.expect wanted what) >>= f) s goal :=
  of_step hend fun text _ ⟨ht, hspelled⟩ => ht ▸ h text hspelled

theorem skipNewlines {f : Unit → Routine β} (hplain : s.isPlain = true)
    (h : (f ()).Reaches ⟨s.depth, s.said, none, s.inside, none⟩ goal) :
    Reaches (liftM Step.skipNewlines >>= f) s goal :=
  of_step hplain fun _ _ ht => ht ▸ h

theorem enter {f : Unit → Routine β}
    (h : s.depth < maxNesting → (f ()).Reaches { s with depth := s.depth + 1 } goal) :
    Reaches (liftM Step.enter >>= f) s goal :=
  of_step trivial fun _ _ ⟨ht, hroom⟩ => ht ▸ h hroom

theorem leave {f : Unit → Routine β} (h : (f ()).Reaches { s with depth := s.depth - 1 } goal) :
    Reaches (liftM Step.leave >>= f) s goal :=
  of_step trivial fun _ _ ht => ht ▸ h

theorem endStatement {f : Unit → Routine β} (h : (f ()).Reaches s goal) :
    Reaches (liftM Step.endStatement >>= f) s goal :=
  of_step trivial fun _ _ ht => ht ▸ h

theorem acceptOtherwise {f : Bool → Routine β} (hplain : s.isPlain = true)
    (htrue : (f true).Reaches (.rest s.depth (s.said ++ [(Kind.keyword .otherwise).sense])) goal)
    (hfalse : (f false).Reaches s goal) :
    Reaches (liftM Step.acceptOtherwise >>= f) s goal := by
  refine of_step hplain ?_
  rintro (_ | _) t ht
  · exact ht ▸ hfalse
  · exact ht ▸ htrue

theorem call {rule : Rule α} {f : α → Routine β} {before : List Sense} (hplain : s.isPlain = true)
    (hbefore : rule.Follows s before)
    (h : ∀ a, rule.Makes s a → (f a).Reaches (.rest s.depth (before ++ rule.senses a)) goal) :
    Reaches (liftM rule >>= f) s goal :=
  bind ⟨⟨hplain, before, hbefore⟩, fun a _ ⟨hmakes, ht⟩ => ht before hbefore ▸ h a hmakes⟩

theorem last {rule : Rule β} {before : List Sense} (hplain : s.isPlain = true)
    (hbefore : rule.Follows s before)
    (h : ∀ b, rule.Makes s b → goal b (.rest s.depth (before ++ rule.senses b))) :
    Reaches (liftM rule) s goal :=
  ⟨⟨hplain, before, hbefore⟩, fun b _ ⟨hmakes, ht⟩ => ht before hbefore ▸ h b hmakes⟩

theorem openBlock {f : Unit → Routine β} (h : (f ()).Reaches
    ⟨s.depth, s.said ++ [Kind.indent.sense], some .indent, true, none⟩ goal) :
    Reaches (Routine.openBlock >>= f) s goal := by
  refine bind (of_step trivial ?_)
  rintro - _ ⟨text, rfl⟩
  refine .skipNewlines rfl ?_
  refine .expect Kind.noConfusion fun _ _ => .pure ?_
  simpa [Word.reading] using h

theorem close {wanted : Kind} {what : ParseFault.Expected} {b : β} (hend : wanted ≠ .endOfInput)
    (h : ∀ text, goal b ⟨s.depth - 1, s.said ++ Word.reading s.behind (wanted, text), some wanted,
      wanted = .indent, none⟩) :
    Reaches (do let _ ← Step.expect wanted what; Step.leave; return b) s goal :=
  .expect hend fun text _ => .leave (.pure (h text))

end Routine.Reaches

end Parser

end Splice
