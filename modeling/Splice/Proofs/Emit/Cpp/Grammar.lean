import Splice.Proofs.Emit.Cpp.Lexemes

/-! Expressions of C++.  Operators bind on four levels and associate to the left; a call binds more
strongly, and what it calls is a name, a number, a literal, an expression in parentheses or a
function that is written where it stands.  No lexemes are two different expressions: reading them
from left to right leaves no choice. -/
namespace Splice.Cpp

inductive Tree where
  | number (value : Float)
  | name (text : String)
  | literal (text : String)
  | binary (op : Operator) (left right : Tree)
  | call (callee : Tree) (args : List Tree)
  | lambda (body : List Tree)

/-- How strongly operators bind; equality is weaker than the other comparisons. -/
def level : Operator → Nat
  | .equal | .notEqual => 0
  | .less | .greater => 1
  | .add | .sub => 2
  | .mul | .div => 3

def callLevel : Nat := 4

inductive Phrase where
  | primary
  | expr (level : Nat)
  /-- What stands between the parentheses of a call. -/
  | args
  | list
  | body
  /-- What carries on an expression whose first part is read. -/
  | after (level : Nat) (first : Tree)

/-- The rules of the grammar: the lexemes are a phrase that consists of these expressions. -/
inductive Derives : Phrase → List Tree → List Lexeme → Prop where
  | number (value : Float) : Derives .primary [.number value] [.number value]
  | name (text : String) : Derives .primary [.name text] [.name text]
  | literal (text : String) : Derives .primary [.literal text] [.literal text]
  | parens {t : Tree} {ls : List Lexeme} (h : Derives (.expr 0) [t] ls) :
      Derives .primary [t] (.opening .round :: (ls ++ [.closing .round]))
  | lambda {body : List Tree} {ls : List Lexeme} (h : Derives .body body ls) :
      Derives .primary [.lambda body]
        (.opening .square :: .ampersand :: .closing .square :: .opening .round ::
          .closing .round :: .opening .curly :: (ls ++ [.closing .curly]))
  | primary {t : Tree} {ls : List Lexeme} (h : Derives .primary [t] ls) :
      Derives (.expr callLevel) [t] ls
  | call {callee : Tree} {args : List Tree} {cs ls : List Lexeme}
      (hcallee : Derives (.expr callLevel) [callee] cs) (hargs : Derives .args args ls) :
      Derives (.expr callLevel) [.call callee args]
        (cs ++ .opening .round :: (ls ++ [.closing .round]))
  | stronger {k : Nat} {t : Tree} {ls : List Lexeme} (hk : k < callLevel)
      (h : Derives (.expr (k + 1)) [t] ls) : Derives (.expr k) [t] ls
  | binary {op : Operator} {left right : Tree} {ls rs : List Lexeme}
      (hleft : Derives (.expr (level op)) [left] ls)
      (hright : Derives (.expr (level op + 1)) [right] rs) :
      Derives (.expr (level op)) [.binary op left right] (ls ++ .operator op :: rs)
  | noArgs : Derives .args [] []
  | args {ts : List Tree} {ls : List Lexeme} (h : Derives .list ts ls) : Derives .args ts ls
  | last {t : Tree} {ls : List Lexeme} (h : Derives (.expr 0) [t] ls) : Derives .list [t] ls
  | more {t : Tree} {ts : List Tree} {ls ms : List Lexeme} (h : Derives (.expr 0) [t] ls)
      (hmore : Derives .list ts ms) : Derives .list (t :: ts) (ls ++ .comma :: ms)
  | done : Derives .body [] []
  | statement {t : Tree} {ts : List Tree} {ls ms : List Lexeme} (h : Derives (.expr 0) [t] ls)
      (hmore : Derives .body ts ms) : Derives .body (t :: ts) (ls ++ .semicolon :: ms)

def IsExpr (t : Tree) (ls : List Lexeme) : Prop :=
  Derives (.expr 0) [t] ls

def Lexeme.starts : Lexeme → Bool
  | .name _ | .number _ | .literal _ | .opening _ => true
  | _ => false

def Phrase.isInhabited : Phrase → Bool
  | .primary | .expr _ | .list => true
  | _ => false

namespace Derives

variable {p : Phrase} {ts : List Tree} {ls : List Lexeme}

theorem starts (h : Derives p ts ls) (hp : p.isInhabited = true) :
    ∃ l, ls.head? = some l ∧ l.starts = true := by
  induction h with
  | number | name | literal | parens | lambda => exact ⟨_, rfl, rfl⟩
  | primary _ ih | stronger _ _ ih | last _ ih => exact ih rfl
  | call _ _ ih | binary _ _ ih | more _ _ ih =>
    obtain ⟨l, hhead, hstarts⟩ := ih rfl
    exact ⟨l, by rw [List.head?_append, hhead, Option.some_or], hstarts⟩
  | noArgs | args | done | statement => cases hp

theorem balanced_append (h : Derives p ts ls) (outer : List Bracket) (rest : List Lexeme) :
    balanced outer (ls ++ rest) = balanced outer rest := by
  induction h generalizing outer rest with
  | number | name | literal | noArgs | done => rfl
  | primary _ ih | stronger _ _ ih | args _ ih | last _ ih => exact ih outer rest
  | parens _ ih | lambda _ ih => simp [balanced, ih]
  | call _ _ ihcallee ihargs => simp [balanced, ihcallee, ihargs]
  | binary _ _ ihleft ihright => simp [balanced, ihleft, ihright]
  | more _ _ ih ihmore | statement _ _ ih ihmore => simp [balanced, ih, ihmore]

end Derives

def Lexeme.level? : Lexeme → Option Nat
  | .operator op => some (level op)
  | .opening .round => some callLevel
  | _ => none

/-- A phrase is taken from the front of some lexemes and leaves the others. -/
inductive Takes : Phrase → List Lexeme → List Tree → List Lexeme → Prop where
  | number {value : Float} {rest : List Lexeme} :
      Takes .primary (.number value :: rest) [.number value] rest
  | name {text : String} {rest : List Lexeme} :
      Takes .primary (.name text :: rest) [.name text] rest
  | literal {text : String} {rest : List Lexeme} :
      Takes .primary (.literal text :: rest) [.literal text] rest
  | parens {t : Tree} {ls rest : List Lexeme}
      (h : Takes (.expr 0) ls [t] (.closing .round :: rest)) :
      Takes .primary (.opening .round :: ls) [t] rest
  | lambda {body : List Tree} {ls rest : List Lexeme}
      (h : Takes .body ls body (.closing .curly :: rest)) :
      Takes .primary (.opening .square :: .ampersand :: .closing .square :: .opening .round ::
        .closing .round :: .opening .curly :: ls) [.lambda body] rest
  | callee {first t : Tree} {ls mid rest : List Lexeme} (h : Takes .primary ls [first] mid)
      (hafter : Takes (.after callLevel first) mid [t] rest) :
      Takes (.expr callLevel) ls [t] rest
  | operand {k : Nat} {first t : Tree} {ls mid rest : List Lexeme} (hk : k < callLevel)
      (h : Takes (.expr (k + 1)) ls [first] mid) (hafter : Takes (.after k first) mid [t] rest) :
      Takes (.expr k) ls [t] rest
  | stop {k : Nat} {t : Tree} {rest : List Lexeme} (h : ∀ l ∈ rest.head?, l.level? ≠ some k) :
      Takes (.after k t) rest [t] rest
  | call {callee t : Tree} {args : List Tree} {ls mid rest : List Lexeme}
      (h : Takes .args ls args (.closing .round :: mid))
      (hafter : Takes (.after callLevel (.call callee args)) mid [t] rest) :
      Takes (.after callLevel callee) (.opening .round :: ls) [t] rest
  | binary {k : Nat} {op : Operator} {left right t : Tree} {ls mid rest : List Lexeme}
      (hop : level op = k) (h : Takes (.expr (k + 1)) ls [right] mid)
      (hafter : Takes (.after k (.binary op left right)) mid [t] rest) :
      Takes (.after k left) (.operator op :: ls) [t] rest
  | noArgs {rest : List Lexeme} :
      Takes .args (.closing .round :: rest) [] (.closing .round :: rest)
  | args {ts : List Tree} {ls rest : List Lexeme} (hls : ls.head? ≠ some (.closing .round))
      (h : Takes .list ls ts rest) : Takes .args ls ts rest
  | last {t : Tree} {ls rest : List Lexeme} (h : Takes (.expr 0) ls [t] rest)
      (hrest : rest.head? ≠ some .comma) : Takes .list ls [t] rest
  | more {t : Tree} {ts : List Tree} {ls mid rest : List Lexeme}
      (h : Takes (.expr 0) ls [t] (.comma :: mid)) (hmore : Takes .list mid ts rest) :
      Takes .list ls (t :: ts) rest
  | done {rest : List Lexeme} :
      Takes .body (.closing .curly :: rest) [] (.closing .curly :: rest)
  | statement {t : Tree} {ts : List Tree} {ls mid rest : List Lexeme}
      (hls : ls.head? ≠ some (.closing .curly)) (h : Takes (.expr 0) ls [t] (.semicolon :: mid))
      (hmore : Takes .body mid ts rest) : Takes .body ls (t :: ts) rest

theorem Takes.unique {p : Phrase} {ls rest rest' : List Lexeme} {ts ts' : List Tree}
    (h : Takes p ls ts rest) (h' : Takes p ls ts' rest') : ts = ts' ∧ rest = rest' := by
  induction h generalizing ts' rest' with
  | number | name | literal => cases h'; exact ⟨rfl, rfl⟩
  | parens _ ih =>
    cases h' with
    | parens h' =>
      obtain ⟨ht, hrest⟩ := ih h'
      cases hrest
      exact ⟨ht, rfl⟩
  | lambda _ ih =>
    cases h' with
    | lambda h' =>
      obtain ⟨rfl, hrest⟩ := ih h'
      cases hrest
      exact ⟨rfl, rfl⟩
  | callee _ _ ih ihafter =>
    cases h' with
    | callee h' hafter' =>
      obtain ⟨hfirst, rfl⟩ := ih h'
      cases hfirst
      exact ihafter hafter'
    | operand hk => exact absurd hk (Nat.lt_irrefl _)
  | operand hk _ _ ih ihafter =>
    cases h' with
    | callee => exact absurd hk (Nat.lt_irrefl _)
    | operand _ h' hafter' =>
      obtain ⟨hfirst, rfl⟩ := ih h'
      cases hfirst
      exact ihafter hafter'
  | stop hstop =>
    cases h' with
    | stop => exact ⟨rfl, rfl⟩
    | call => exact absurd rfl (hstop _ rfl)
    | binary hop => exact absurd (congrArg some hop) (hstop _ rfl)
  | call _ _ ih ihafter =>
    cases h' with
    | stop hstop => exact absurd rfl (hstop _ rfl)
    | call h' hafter' =>
      obtain ⟨rfl, hmid⟩ := ih h'
      cases hmid
      exact ihafter hafter'
  | binary hop _ _ ih ihafter =>
    cases h' with
    | stop hstop => exact absurd (congrArg some hop) (hstop _ rfl)
    | binary _ h' hafter' =>
      obtain ⟨hright, rfl⟩ := ih h'
      cases hright
      exact ihafter hafter'
  | noArgs =>
    cases h' with
    | noArgs => exact ⟨rfl, rfl⟩
    | args hls => exact absurd rfl hls
  | args hls _ ih =>
    cases h' with
    | noArgs => exact absurd rfl hls
    | args _ h' => exact ih h'
  | last _ hrest ih =>
    cases h' with
    | last h' => exact ih h'
    | more h' =>
      obtain ⟨-, rfl⟩ := ih h'
      exact absurd rfl hrest
  | more _ _ ih ihmore =>
    cases h' with
    | last h' hrest =>
      obtain ⟨-, rfl⟩ := ih h'
      exact absurd rfl hrest
    | more h' hmore' =>
      obtain ⟨ht, hmid⟩ := ih h'
      cases ht
      cases hmid
      obtain ⟨rfl, rfl⟩ := ihmore hmore'
      exact ⟨rfl, rfl⟩
  | done =>
    cases h' with
    | done => exact ⟨rfl, rfl⟩
    | statement hls => exact absurd rfl hls
  | statement hls _ _ ih ihmore =>
    cases h' with
    | done => exact absurd rfl hls
    | statement _ h' hmore' =>
      obtain ⟨ht, hmid⟩ := ih h'
      cases ht
      cases hmid
      obtain ⟨rfl, rfl⟩ := ihmore hmore'
      exact ⟨rfl, rfl⟩

def Loose (k : Nat) (ls : List Lexeme) : Prop :=
  ∀ l ∈ ls.head?, ∀ j, l.level? = some j → j ≤ k

theorem Loose.stronger {k : Nat} {ls : List Lexeme} (h : Loose k ls) : Loose (k + 1) ls :=
  fun l hl j hj => Nat.le_succ_of_le (h l hl j hj)

theorem Loose.stop {k : Nat} {ls : List Lexeme} (h : Loose k ls) (t : Tree) :
    Takes (.after (k + 1) t) ls [t] ls :=
  .stop fun l hl hlevel => Nat.not_succ_le_self k (h l hl _ hlevel)

/-- How a phrase is taken from the front of what may follow it.  An expression is taken together
with all that carries it on, since an operation is read from its left operand onwards. -/
def Phrase.Taken : Phrase → List Tree → List Lexeme → Prop
  | .primary, ts, ls => ∀ rest, Takes .primary (ls ++ rest) ts rest
  | .expr k, [t], ls => ∀ u rest rest', Loose k rest → Takes (.after k t) rest [u] rest' →
      Takes (.expr k) (ls ++ rest) [u] rest'
  | .args, ts, ls => ∀ rest,
      Takes .args (ls ++ .closing .round :: rest) ts (.closing .round :: rest)
  | .list, ts, ls => ∀ rest,
      Takes .list (ls ++ .closing .round :: rest) ts (.closing .round :: rest)
  | .body, ts, ls => ∀ rest,
      Takes .body (ls ++ .closing .curly :: rest) ts (.closing .curly :: rest)
  | _, _, _ => True

theorem takes_whole {t : Tree} {ls rest : List Lexeme} (h : (Phrase.expr 0).Taken [t] ls)
    (hrest : ∀ l ∈ rest.head?, l.level? = none) : Takes (.expr 0) (ls ++ rest) [t] rest := by
  refine h t rest rest ?_ (.stop ?_)
  · intro l hl j hj
    rw [hrest l hl] at hj
    cases hj
  · intro l hl hlevel
    rw [hrest l hl] at hlevel
    cases hlevel

theorem takes_before {t : Tree} {ls rest : List Lexeme} {l : Lexeme}
    (h : (Phrase.expr 0).Taken [t] ls) (hl : l.level? = none) :
    Takes (.expr 0) (ls ++ l :: rest) [t] (l :: rest) := by
  refine takes_whole h ?_
  rintro l' ⟨⟩
  exact hl

theorem head?_append_ne {ls rest : List Lexeme} {l : Lexeme}
    (hstarts : ∃ l, ls.head? = some l ∧ l.starts = true) (hl : l.starts = false) :
    (ls ++ rest).head? ≠ some l := by
  obtain ⟨first, hhead, hfirst⟩ := hstarts
  rw [List.head?_append, hhead, Option.some_or]
  rintro ⟨⟩
  rw [hl] at hfirst
  cases hfirst

theorem Derives.taken {p : Phrase} {ts : List Tree} {ls : List Lexeme} (h : Derives p ts ls) :
    p.Taken ts ls := by
  induction h with
  | number | name | literal => exact fun rest => by constructor
  | parens _ ih =>
    intro rest
    rw [List.cons_append, List.append_assoc]
    exact .parens (takes_before ih rfl)
  | lambda _ ih =>
    intro rest
    simp only [List.cons_append, List.append_assoc]
    exact .lambda (ih rest)
  | primary _ ih => exact fun u rest rest' _ hafter => .callee (ih rest) hafter
  | call _ _ ihcallee ihargs =>
    intro u rest rest' _ hafter
    rw [List.append_assoc, List.cons_append, List.append_assoc]
    refine ihcallee u _ rest' ?_ (.call (ihargs rest) hafter)
    rintro l ⟨⟩ j ⟨⟩
    exact Nat.le_refl _
  | stronger hk _ ih =>
    -- nothing at the front of `rest` binds at the stronger level, so the operand ends here
    intro u rest rest' hloose hafter
    exact .operand hk (ih _ rest rest hloose.stronger (hloose.stop _)) hafter
  | binary _ _ ihleft ihright =>
    -- the left operand is carried on by the operator, the right operand and what carries both on
    intro u rest rest' hloose hafter
    rw [List.append_assoc, List.cons_append]
    refine ihleft u _ rest' ?_
      (.binary rfl (ihright _ rest rest hloose.stronger (hloose.stop _)) hafter)
    rintro l ⟨⟩ j ⟨⟩
    exact Nat.le_refl _
  | noArgs => exact fun rest => .noArgs
  | args h ih => exact fun rest => .args (head?_append_ne (h.starts rfl) rfl) (ih rest)
  | last _ ih => exact fun rest => .last (takes_before ih rfl) (by simp)
  | more _ _ ih ihmore =>
    intro rest
    rw [List.append_assoc, List.cons_append]
    exact .more (takes_before ih rfl) (ihmore rest)
  | done => exact fun rest => .done
  | statement h _ ih ihmore =>
    intro rest
    rw [List.append_assoc, List.cons_append]
    exact .statement (head?_append_ne (h.starts rfl) rfl)
      (takes_before ih rfl) (ihmore rest)

namespace IsExpr

variable {t u : Tree} {ls : List Lexeme}

theorem unique (ht : IsExpr t ls) (hu : IsExpr u ls) : t = u := by
  have htakes {t : Tree} (h : IsExpr t ls) : Takes (.expr 0) (ls ++ []) [t] [] :=
    takes_whole h.taken (by rintro l ⟨⟩)
  obtain ⟨h, -⟩ := (htakes ht).unique (htakes hu)
  exact List.singleton_inj.mp h

theorem isBalanced (h : IsExpr t ls) : balanced [] ls = true := by
  have hempty := h.balanced_append [] []
  rwa [List.append_nil] at hempty

end IsExpr

end Splice.Cpp
