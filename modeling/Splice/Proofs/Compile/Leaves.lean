import Splice.Proofs.Tree.Image
import Splice.Proofs.Tree.Parts
import Splice.Proofs.Tree.RoundTrip

/-! What stands in a program.  A program that has a text consists of names that can be scanned as
such, of texts that fit between quotes, of numbers without a sign, and of blocks that are not
empty, at every depth. -/
namespace Splice

namespace Expr

def names : Expr → List String
  | .name n => [n]
  | .call callee _ => [callee]
  | _ => []

def texts : Expr → List String
  | .text value => [value]
  | _ => []

def literals : Expr → List Float
  | .number value => [value]
  | _ => []

def parts : Expr → List Expr
  | .binary _ left right => [left, right]
  | .call _ args => args
  | .ui _ args children => args ++ children
  | _ => []

/-- An expression stands in another one, at any depth. -/
inductive Within (e : Expr) : Expr → Prop where
  | self : Within e e
  | inside {outer inner : Expr} (hinner : inner ∈ outer.parts) (h : Within e inner) :
      Within e outer

end Expr

namespace Stmt

def names : Stmt → List String
  | .function name params _ => name :: params
  | .binding name _ => [name]
  | .generate name params _ => name :: params
  | _ => []

def texts : Stmt → List String
  | .generate _ _ description => [description]
  | .ask (some instruction) _ => [instruction]
  | .load library => [library]
  | .search query => [query]
  | _ => []

end Stmt

def IsNameStart (c : Char) : Prop :=
  ('A' ≤ c ∧ c ≤ 'Z') ∨ ('a' ≤ c ∧ c ≤ 'z') ∨ c = '_'

def IsNamePart (c : Char) : Prop :=
  IsNameStart c ∨ ('0' ≤ c ∧ c ≤ '9') ∨ c = '.'

/-- Letters, digits, underscores and dots that begin with a letter or an underscore, and that are
not a reserved word. -/
def IsName (name : String) : Prop :=
  (∃ first rest, name.toList = first :: rest ∧ IsNameStart first ∧ ∀ c ∈ rest, IsNamePart c) ∧
    Kind.ofWord? name = none

/-- A text on one line, with a sort of quote that it does not hold. -/
def IsText (text : String) : Prop :=
  '\n' ∉ text.toList ∧ ¬('"' ∈ text.toList ∧ '\'' ∈ text.toList)

/-- A number, not less than zero: its highest bit is the sign. -/
def IsUnsigned (x : Float) : Prop :=
  x.isNaN = false ∧ x.toBits < 0x8000000000000000

structure Expr.Plain (e : Expr) : Prop where
  names : ∀ n ∈ e.names, IsName n
  texts : ∀ t ∈ e.texts, IsText t
  literals : ∀ x ∈ e.literals, IsUnsigned x

structure Stmt.Plain (s : Stmt) : Prop where
  names : ∀ n ∈ s.names, IsName n
  texts : ∀ t ∈ s.texts, IsText t
  blocks : ∀ block ∈ s.blocks, block ≠ []

theorem isNameStart_of_isWordStart {c : Char} (h : Line.isWordStart c = true) : IsNameStart c := by
  rcases (Line.isWordStart_iff c).mp h with hupper | hlower | hunderscore
  · exact .inl hupper
  · exact .inr (.inl hlower)
  · exact .inr (.inr (Char.toNat_inj.mp hunderscore))

theorem isNamePart_of_isWordPart {c : Char} (h : Line.isWordPart c = true) : IsNamePart c := by
  simp only [Line.isWordPart, Char.isAlphanum, Bool.or_eq_true, beq_iff_eq] at h
  rcases h with ((halpha | hdigit) | hunderscore) | hdot
  · exact .inl (isNameStart_of_isWordStart (by simp [Line.isWordStart, halpha]))
  · exact .inr (.inl ((Line.isDigit_iff c).mp hdigit))
  · exact .inl (.inr (.inr hunderscore))
  · exact .inr (.inr hdot)

theorem isName_of_isPlainName {name : String} (h : isPlainName name = true) : IsName name := by
  unfold isPlainName at h
  cases hname : name.toList with
  | nil =>
    rw [hname] at h
    cases h
  | cons first rest =>
    simp only [hname, Bool.and_eq_true, List.all_eq_true, Option.isNone_iff_eq_none] at h
    exact ⟨⟨first, rest, hname, isNameStart_of_isWordStart h.1.1,
      fun c hc => isNamePart_of_isWordPart (h.1.2 c hc)⟩, h.2⟩

theorem isText_of_isPlainText {text : String} (h : isPlainText text = true) : IsText text := by
  simpa [isPlainText, IsText, imp_iff_not_or] using h

theorem isUnsigned_of_isLiteral {x : Float} (h : Decimal.isLiteral x = true) : IsUnsigned x := by
  rcases Bool.or_eq_true_iff.mp h with hnatural | hbits
  · have hsign : x.toBits < 0x8000000000000000 := by
      simp only [Decimal.isNatural, Bool.and_eq_true, decide_eq_true_eq] at hnatural
      exact hnatural.2
    refine ⟨?_, hsign⟩
    change x.toModel.unpack.isNaN = false
    rcases (Decimal.isNatural_iff x).mp hnatural with hzero | ⟨m, e, hm, n, hfinite, -⟩
    · rw [hzero]
      rfl
    · rw [hfinite]
      rfl
  · rw [Float.toBits_inj.mp (beq_iff_eq.mp hbits)]
    exact ⟨by decide, by decide⟩

namespace Expr

open Decimal (isLiteral)

variable {e part : Expr}

theorem wellFormed_of_mem {p : Float → Bool} {es : List Expr} (hwf : allWellFormed es p = true)
    (he : e ∈ es) : e.wellFormed p = true := by
  induction es with
  | nil => cases he
  | cons first es ih =>
    rw [allWellFormed, Bool.and_eq_true] at hwf
    rcases List.mem_cons.mp he with rfl | he
    · exact hwf.1
    · exact ih hwf.2 he

theorem wellFormed_of_mem_parts {p : Float → Bool} (hwf : e.wellFormed p = true)
    (hpart : part ∈ e.parts) : part.wellFormed p = true := by
  cases e with
  | binary op left right =>
    rw [wellFormed, Bool.and_eq_true] at hwf
    rcases List.mem_cons.mp hpart with rfl | hright
    · exact hwf.1
    · obtain rfl := List.mem_singleton.mp hright
      exact hwf.2
  | call callee args =>
    rw [wellFormed, Bool.and_eq_true] at hwf
    exact wellFormed_of_mem hwf.2 hpart
  | ui widget args children =>
    rw [wellFormed, Bool.and_eq_true] at hwf
    rcases List.mem_append.mp hpart with harg | hchild
    · exact wellFormed_of_mem hwf.1 harg
    · exact wellFormed_of_mem hwf.2 hchild
  | name n => cases hpart
  | number value => cases hpart
  | text value => cases hpart

theorem Within.wellFormed {p : Float → Bool} (h : part.Within e) (hwf : e.wellFormed p = true) :
    part.wellFormed p = true := by
  induction h with
  | self => exact hwf
  | inside hinner _ ih => exact ih (wellFormed_of_mem_parts hwf hinner)

theorem plain_of_wellFormed (hwf : e.wellFormed isLiteral = true) : e.Plain := by
  cases e <;> constructor <;>
    simp only [names, texts, literals, List.mem_singleton, List.not_mem_nil, forall_eq,
      false_implies, implies_true]
  case name.names n => exact isName_of_isPlainName hwf
  case number.literals value => exact isUnsigned_of_isLiteral hwf
  case text.texts value => exact isText_of_isPlainText hwf
  case call.names callee args =>
    rw [wellFormed, Bool.and_eq_true] at hwf
    exact isName_of_isPlainName hwf.1

end Expr

namespace Stmt

open Decimal (isLiteral)

variable {s : Stmt}

theorem wellFormed_of_mem_exprs {p : Float → Bool} {e : Expr} (hwf : s.wellFormed p = true)
    (he : e ∈ s.exprs) : e.wellFormed p = true := by
  match s with
  | .binding name (some init) =>
    obtain rfl := List.mem_singleton.mp he
    rw [wellFormed, Bool.and_eq_true] at hwf
    exact hwf.2
  | .branch test yes none =>
    obtain rfl := List.mem_singleton.mp he
    simp only [wellFormed, Bool.and_eq_true] at hwf
    exact hwf.1.1
  | .branch test yes (some no) =>
    obtain rfl := List.mem_singleton.mp he
    simp only [wellFormed, Bool.and_eq_true] at hwf
    exact hwf.1.1.1.1
  | .loop test body =>
    obtain rfl := List.mem_singleton.mp he
    simp only [wellFormed, Bool.and_eq_true] at hwf
    exact hwf.1.1
  | .ret (some e) | .expr e | .inspect e =>
    obtain rfl := List.mem_singleton.mp he
    exact hwf

theorem isName_of_wellFormed {p : Float → Bool} (hwf : s.wellFormed p = true) {n : String}
    (hn : n ∈ s.names) : IsName n := by
  have hheading {name : String} {params : List String}
      (h : isPlainName name = true ∧ params.all isPlainName = true) (hn : n ∈ name :: params) :
      IsName n := by
    rcases List.mem_cons.mp hn with rfl | hparam
    · exact isName_of_isPlainName h.1
    · exact isName_of_isPlainName (List.all_eq_true.mp h.2 n hparam)
  match s with
  | .function name params body =>
    simp only [wellFormed, Bool.and_eq_true] at hwf
    exact hheading hwf.1.1 hn
  | .generate name params description =>
    simp only [wellFormed, Bool.and_eq_true] at hwf
    exact hheading hwf.1 hn
  | .binding name none =>
    obtain rfl := List.mem_singleton.mp hn
    exact isName_of_isPlainName hwf
  | .binding name (some init) =>
    obtain rfl := List.mem_singleton.mp hn
    rw [wellFormed, Bool.and_eq_true] at hwf
    exact isName_of_isPlainName hwf.1

theorem isText_of_wellFormed {p : Float → Bool} (hwf : s.wellFormed p = true) {t : String}
    (ht : t ∈ s.texts) : IsText t := by
  apply isText_of_isPlainText
  match s with
  | .generate name params description =>
    obtain rfl := List.mem_singleton.mp ht
    simp only [wellFormed, Bool.and_eq_true] at hwf
    exact hwf.2
  | .ask (some instruction) none =>
    obtain rfl := List.mem_singleton.mp ht
    exact hwf
  | .ask (some instruction) (some body) =>
    obtain rfl := List.mem_singleton.mp ht
    simp only [wellFormed, Bool.and_eq_true] at hwf
    exact hwf.1.1
  | .load text | .search text =>
    obtain rfl := List.mem_singleton.mp ht
    exact hwf

theorem ne_nil_of_wellFormed {p : Float → Bool} (hwf : s.wellFormed p = true) {block : List Stmt}
    (hblock : block ∈ s.blocks) : block ≠ [] := by
  rintro rfl
  match s with
  | .function _ _ body | .loop _ body | .optimize body | .ask _ (some body)
  | .branch _ body none =>
    obtain rfl := List.mem_singleton.mp hblock
    simp [wellFormed] at hwf
  | .branch _ yes (some no) =>
    rcases List.mem_cons.mp hblock with rfl | hno
    · simp [wellFormed] at hwf
    · obtain rfl := List.mem_singleton.mp hno
      simp [wellFormed] at hwf

theorem plain_of_wellFormed {p : Float → Bool} (hwf : s.wellFormed p = true) : s.Plain where
  names _ := isName_of_wellFormed hwf
  texts _ := isText_of_wellFormed hwf
  blocks _ := ne_nil_of_wellFormed hwf

end Stmt

/-- At every position of a program that has a text stands what may stand there. -/
theorem plain_of_compile {source : String} {program : Program} (h : compile source = .ok program)
    {s : Stmt} (hs : s.Within program.body) :
    s.Plain ∧ ∀ e ∈ s.exprs, ∀ part : Expr, part.Within e → part.Plain := by
  have hwf := hs.wellFormed (wellFormed_of_compile h)
  refine ⟨s.plain_of_wellFormed hwf, ?_⟩
  intro e he part hpart
  exact part.plain_of_wellFormed (hpart.wellFormed (s.wellFormed_of_mem_exprs hwf he))

/-- A callee and a number in the test of a loop, in the body of a function. -/
theorem plain_of_compile_nested :
    compile "fn f(x):\n    while f(2):\n        return\n" =
        .ok ⟨[.function "f" ["x"] [.loop (.call "f" [.number 2]) [.ret none]]]⟩ ∧
      (Stmt.loop (.call "f" [.number 2]) [.ret none]).Plain ∧
      (Expr.call "f" [.number 2]).Plain ∧ (Expr.number 2).Plain := by
  have hsource : Stmt.printAll
      [.function "f" ["x"] [.loop (.call "f" [.number 2]) [.ret none]]] ++ "\n" =
        "fn f(x):\n    while f(2):\n        return\n" := by
    decide +kernel
  have hcompile : compile "fn f(x):\n    while f(2):\n        return\n" =
      .ok ⟨[.function "f" ["x"] [.loop (.call "f" [.number 2]) [.ret none]]]⟩ := by
    rw [← hsource]
    exact compile_printAll true (List.cons_ne_nil _ _) (by decide) (by decide)
      (Token.ofSource_ne_crash (by decide +kernel))
  have hwithin : (Stmt.loop (.call "f" [.number 2]) [.ret none]).Within
      [.function "f" ["x"] [.loop (.call "f" [.number 2]) [.ret none]]] :=
    .inside List.mem_cons_self List.mem_cons_self (.here List.mem_cons_self)
  obtain ⟨hloop, hparts⟩ := plain_of_compile hcompile hwithin
  have hcall := hparts _ List.mem_cons_self
  exact ⟨hcompile, hloop, hcall _ .self, hcall _ (.inside List.mem_cons_self .self)⟩

end Splice
