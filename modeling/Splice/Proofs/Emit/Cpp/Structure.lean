import Splice.Proofs.Compile.Leaves
import Splice.Proofs.Emit.Cpp.Grammar

/-! The structure of written expressions.  The text of an expression, read by the rules of C++, is
the expression itself: the operators that C++ orders in another way never stand side by side, since
an operation among the operands of another one is put in parentheses. -/
namespace Splice

/-- The arguments of a widget; a text or a button has one even when none is given. -/
def Widget.shown : Widget → List Expr → List Expr
  | .text, [] => [.text ""]
  | .button, [] => [.text "Button"]
  | _, args => args

namespace Expr

mutual

def filled : Expr → Expr
  | .binary op left right => .binary op left.filled right.filled
  | .call callee args => .call callee (filledAll args)
  | .ui widget args children =>
    .ui widget (widget.shown (filledAll args)) (filledAll children)
  | e => e

def filledAll : List Expr → List Expr
  | [] => []
  | e :: es => e.filled :: filledAll es

end

theorem allWellFormed_shown {p : Float → Bool} {args : List Expr}
    (hwf : allWellFormed args p = true) (widget : Widget) :
    allWellFormed (widget.shown args) p = true := by
  cases args with
  | nil => cases widget <;> rfl
  | cons e es => cases widget <;> exact hwf

mutual

theorem wellFormed_filled {p : Float → Bool} : ∀ e : Expr, e.wellFormed p = true →
    e.filled.wellFormed p = true
  | .number _, hwf | .text _, hwf | .name _, hwf => hwf
  | .binary op left right, hwf => by
    rw [wellFormed, Bool.and_eq_true] at hwf
    rw [filled, wellFormed, Bool.and_eq_true]
    exact ⟨wellFormed_filled left hwf.1, wellFormed_filled right hwf.2⟩
  | .call callee args, hwf => by
    rw [wellFormed, Bool.and_eq_true] at hwf
    rw [filled, wellFormed, Bool.and_eq_true]
    exact ⟨hwf.1, allWellFormed_filledAll args hwf.2⟩
  | .ui widget args children, hwf => by
    rw [wellFormed, Bool.and_eq_true] at hwf
    rw [filled, wellFormed, Bool.and_eq_true]
    exact ⟨allWellFormed_shown (allWellFormed_filledAll args hwf.1) widget,
      allWellFormed_filledAll children hwf.2⟩

theorem allWellFormed_filledAll {p : Float → Bool} : ∀ es : List Expr,
    allWellFormed es p = true → allWellFormed (filledAll es) p = true
  | [], hwf => hwf
  | e :: es, hwf => by
    rw [allWellFormed, Bool.and_eq_true] at hwf
    rw [filledAll, allWellFormed, Bool.and_eq_true]
    exact ⟨wellFormed_filled e hwf.1, allWellFormed_filledAll es hwf.2⟩

end

end Expr

namespace Cpp

open Splice.Line (Closed)

mutual

/-- What an expression is in C++: a widget is a call, and with children it is a call of a function
that first makes the widget and then runs the children. -/
def tree : Expr → Tree
  | .number value => .number value
  | .text value => .call (.name "string") [.literal value]
  | .name n => .name n
  | .binary op left right => .binary op (tree left) (tree right)
  | .call callee args => .call (.name callee) (trees args)
  | .ui widget args [] => .call (.name widget.name) (trees args)
  | .ui widget args (child :: more) =>
    .call (.lambda (.call (.name widget.name) (trees args) :: trees (child :: more))) []

def trees : List Expr → List Tree
  | [] => []
  | e :: es => tree e :: trees es

end

def callWords (callee : String) (args : List Lexeme) : List Lexeme :=
  .name callee :: .opening .round :: (args ++ [.closing .round])

def lambdaWords (body : List Lexeme) : List Lexeme :=
  .opening .square :: .ampersand :: .closing .square :: .opening .round :: .closing .round ::
    .opening .curly :: (body ++ [.closing .curly, .opening .round, .closing .round])

def groupWords (parens : Bool) (part : List Lexeme) : List Lexeme :=
  if parens then .opening .round :: (part ++ [.closing .round]) else part

mutual

def words : Expr → List Lexeme
  | .number value => [.number value]
  | .text value => callWords "string" [.literal value]
  | .name n => [.name n]
  | .binary op left right =>
    groupWords (isBinary left) (words left) ++ .operator op ::
      groupWords (isBinary right) (words right)
  | .call callee args => callWords callee (argWords args)
  | .ui widget args [] => callWords widget.name (argWords args)
  | .ui widget args (child :: more) =>
    lambdaWords (callWords widget.name (argWords args) ++ .semicolon ::
      bodyWords (child :: more))

def argWords : List Expr → List Lexeme
  | [] => []
  | [e] => words e
  | e :: next :: es => words e ++ .comma :: argWords (next :: es)

def bodyWords : List Expr → List Lexeme
  | [] => []
  | e :: es => words e ++ .semicolon :: bodyWords es

end

def strength : Expr → Nat
  | .binary op _ _ => level op
  | _ => callLevel

theorem level_lt (op : Operator) : level op < callLevel := by
  cases op <;> decide

theorem strength_le (e : Expr) : strength e ≤ callLevel := by
  cases e with
  | binary op => exact (level_lt op).le
  | _ => exact Nat.le_refl _

namespace Derives

variable {t : Tree} {ts : List Tree} {ls : List Lexeme}

theorem weaken {j k : Nat} (hjk : j ≤ k) (hk : k ≤ callLevel) (h : Derives (.expr k) [t] ls) :
    Derives (.expr j) [t] ls := by
  induction hjk with
  | refl => exact h
  | step hjk ih => exact ih (Nat.le_of_succ_le hk) (.stronger hk h)

theorem named (callee : String) (h : Derives .args ts ls) :
    Derives (.expr callLevel) [.call (.name callee) ts] (callWords callee ls) :=
  .call (.primary (.name callee)) h

theorem lambdaCalled (h : Derives .body ts ls) :
    Derives (.expr callLevel) [.call (.lambda ts) []] (lambdaWords ls) := by
  have hcall := Derives.call (.primary (.lambda h)) .noArgs
  simpa only [lambdaWords, List.cons_append, List.append_assoc, List.nil_append] using hcall

theorem ofList {args : List Expr} (h : args ≠ [] → Derives .list (trees args) (argWords args)) :
    Derives .args (trees args) (argWords args) := by
  cases args with
  | nil => exact .noArgs
  | cons e es => exact .args (h (List.cons_ne_nil e es))

theorem whole {e : Expr} (h : Derives (.expr (strength e)) [t] ls) : Derives (.expr 0) [t] ls :=
  h.weaken (Nat.zero_le _) (strength_le e)

theorem grouped {e : Expr} (h : Derives (.expr (strength e)) [t] ls) :
    Derives (.expr callLevel) [t] (groupWords (isBinary e) ls) := by
  cases e with
  | binary op left right => exact .primary (.parens h.whole)
  | _ => exact h

end Derives

mutual

theorem derives_words : ∀ e : Expr, Derives (.expr (strength e)) [tree e] (words e)
  | .number value => .primary (.number value)
  | .text value => by
    have hliteral := (Derives.primary (.literal value)).weaken (Nat.zero_le _) (Nat.le_refl _)
    rw [tree, words]
    exact .named "string" (.args (.last hliteral))
  | .name n => .primary (.name n)
  | .binary op left right => by
    have hleft := (derives_words left).grouped
    have hright := (derives_words right).grouped
    rw [tree, words]
    exact .binary (hleft.weaken (level_lt op).le (Nat.le_refl _))
      (hright.weaken (level_lt op) (Nat.le_refl _))
  | .call callee args => by
    rw [tree, words]
    exact .named callee (.ofList (derives_argWords args))
  | .ui widget args [] => by
    rw [tree, words]
    exact .named widget.name (.ofList (derives_argWords args))
  | .ui widget args (child :: more) => by
    have hcall := Derives.named widget.name (.ofList (derives_argWords args))
    rw [tree, words]
    exact .lambdaCalled (.statement (hcall.weaken (Nat.zero_le _) (Nat.le_refl _))
      (derives_bodyWords (child :: more)))

theorem derives_argWords : ∀ args : List Expr, args ≠ [] →
    Derives .list (trees args) (argWords args)
  | [], hargs => absurd rfl hargs
  | [e], _ => .last (derives_words e).whole
  | e :: next :: es, _ =>
    .more (derives_words e).whole (derives_argWords (next :: es) (List.cons_ne_nil next es))

theorem derives_bodyWords : ∀ es : List Expr, Derives .body (trees es) (bodyWords es)
  | [] => .done
  | e :: es => .statement (derives_words e).whole (derives_bodyWords es)

end

theorem closed_cons {c : Char} (hc : Line.isWordPart c = false) (cs : List Char) :
    Closed (c :: cs) := by
  rintro d ⟨⟩
  exact hc

/-- A text stands for these lexemes in front of every text that does not carry on its last word. -/
def Writes (text : String) (ws : List Lexeme) : Prop :=
  ∀ ⦃cs ls⦄, Closed cs → Lexed cs ls → Lexed (text.toList ++ cs) (ws ++ ls)

namespace Writes

variable {text more : String} {ws vs : List Lexeme}

theorem called {callee : String} (hcallee : Line.isWordText callee = true) (h : Writes text ws) :
    Writes (callee ++ "(" ++ text ++ ")") (callWords callee ws) := by
  intro cs ls _ hcs
  have htext : (callee ++ "(" ++ text ++ ")").toList ++ cs =
      callee.toList ++ '(' :: (text.toList ++ ')' :: cs) := by
    simp [String.toList_append]
  rw [htext, callWords, List.cons_append, List.cons_append, List.append_assoc]
  exact .word hcallee (closed_cons rfl _) (.mark rfl (h (closed_cons rfl _) (.mark rfl hcs)))

theorem literal (value : String) :
    Writes (Cpp.literal value) (callWords "string" [.literal value]) := by
  have htext : Cpp.literal value = "string" ++ "(" ++ ("\"" ++ escape value ++ "\"") ++ ")" := by
    simp [Cpp.literal, ← String.toList_inj]
  rw [htext]
  refine called (by decide) fun cs ls _ hcs => ?_
  have hquoted := Lexed.literal value hcs
  simpa [String.toList_append] using hquoted

theorem grouped (parens : Bool) (h : Writes text ws) :
    Writes (group parens text) (groupWords parens ws) := by
  cases parens with
  | false => exact h
  | true =>
    intro cs ls _ hcs
    have htext : (group true text).toList ++ cs = '(' :: (text.toList ++ ')' :: cs) := by
      simp [group, String.toList_append]
    rw [htext, groupWords, if_pos rfl, List.cons_append, List.append_assoc]
    exact .mark rfl (h (closed_cons rfl _) (.mark rfl hcs))

theorem operation (op : Operator) (h : Writes text ws) (hmore : Writes more vs) :
    Writes (text ++ " " ++ op.symbol ++ " " ++ more) (ws ++ .operator op :: vs) := by
  intro cs ls hclosed hcs
  have htext : (text ++ " " ++ op.symbol ++ " " ++ more).toList ++ cs =
      text.toList ++ ' ' :: (op.symbol.toList ++ ' ' :: (more.toList ++ cs)) := by
    simp [String.toList_append]
  rw [htext, List.append_assoc, List.cons_append]
  exact h (closed_cons rfl _) (.blank rfl (.operator op (hmore hclosed hcs)))

theorem comma (h : Writes text ws) (hmore : Writes more vs) :
    Writes (text ++ ", " ++ more) (ws ++ .comma :: vs) := by
  intro cs ls hclosed hcs
  have htext : (text ++ ", " ++ more).toList ++ cs =
      text.toList ++ ',' :: ' ' :: (more.toList ++ cs) := by
    simp [String.toList_append]
  rw [htext, List.append_assoc, List.cons_append]
  exact h (closed_cons rfl _) (.mark rfl (.blank rfl (hmore hclosed hcs)))

theorem statement (depth : Nat) (h : Writes text ws) (hmore : Writes more vs) :
    Writes (line depth (text ++ ";") ++ more) (ws ++ .semicolon :: vs) := by
  intro cs ls hclosed hcs
  have htext : (line depth (text ++ ";") ++ more).toList ++ cs =
      List.replicate (4 * depth) ' ' ++ (text.toList ++ ';' :: '\n' :: (more.toList ++ cs)) := by
    simp [line, indentation, String.toList_append]
  rw [htext, List.append_assoc, List.cons_append]
  exact .spaces (h (closed_cons rfl _) (.mark rfl (.blank rfl (hmore hclosed hcs)))) _

theorem lambdaCalled (depth : Nat) (h : Writes text ws) (hmore : Writes more vs) :
    Writes (Cpp.called depth text more) (lambdaWords (ws ++ .semicolon :: vs)) := by
  intro cs ls _ hcs
  have htext : (Cpp.called depth text more).toList ++ cs =
      '[' :: '&' :: ']' :: '(' :: ')' :: ' ' :: '\x7b' :: '\n' ::
        ((line (depth + 1) (text ++ ";") ++ more).toList ++
          (List.replicate (4 * depth) ' ' ++ '\x7d' :: '(' :: ')' :: cs)) := by
    simp [Cpp.called, indentation, String.toList_append]
  have hclosed : Closed (List.replicate (4 * depth) ' ' ++ '\x7d' :: '(' :: ')' :: cs) := by
    cases 4 * depth <;> exact closed_cons rfl _
  have hend : Lexed (List.replicate (4 * depth) ' ' ++ '\x7d' :: '(' :: ')' :: cs)
      (.closing .curly :: .opening .round :: .closing .round :: ls) :=
    .spaces (.mark rfl (.mark rfl (.mark rfl hcs))) _
  have hbody := statement (depth + 1) h hmore hclosed hend
  rw [htext, lambdaWords]
  simp only [List.cons_append, List.append_assoc, List.nil_append] at hbody ⊢
  exact .mark rfl (@Lexed.munched _ _ _ (some .ampersand) 0 rfl (.mark rfl (.mark rfl (.mark rfl
    (.blank rfl (.mark rfl (.blank rfl hbody)))))))

end Writes

theorem isBinary_filled (e : Expr) : isBinary e.filled = isBinary e := by
  cases e <;> rfl

theorem isWordText_name (widget : Widget) : Line.isWordText widget.name = true := by
  cases widget <;> decide

theorem writes_shown {depth : Nat} {args : List Expr} (widget : Widget)
    (h : Writes (", ".intercalate (exprs depth args)) (argWords (Expr.filledAll args))) :
    Writes (if args.isEmpty then defaultArgs widget else ", ".intercalate (exprs depth args))
      (argWords (widget.shown (Expr.filledAll args))) := by
  cases args with
  | nil =>
    cases widget with
    | box => exact h
    | text => exact .literal ""
    | button => exact .literal "Button"
  | cons e es => cases widget <;> exact h

mutual

theorem writes_expr (depth : Nat) : ∀ e : Expr, e.wellFormed = true →
    Writes (expr depth e) (words e.filled)
  | .number value, hwf => fun _ _ hclosed hcs => .number hwf hclosed hcs
  | .text value, _ => .literal value
  | .name n, hwf => fun _ _ hclosed hcs =>
    .word (Line.isWordText_of_isPlainName hwf).1 hclosed hcs
  | .binary op left right, hwf => by
    rw [Expr.wellFormed, Bool.and_eq_true] at hwf
    rw [expr, Expr.filled, words, isBinary_filled, isBinary_filled]
    exact .operation op (.grouped _ (writes_expr depth left hwf.1))
      (.grouped _ (writes_expr depth right hwf.2))
  | .call callee args, hwf => by
    rw [Expr.wellFormed, Bool.and_eq_true] at hwf
    rw [expr, Expr.filled, words]
    exact .called (Line.isWordText_of_isPlainName hwf.1).1 (writes_args depth args hwf.2)
  | .ui widget args [], hwf => by
    rw [Expr.wellFormed, Bool.and_eq_true] at hwf
    rw [expr, Expr.filled, Expr.filledAll, words]
    exact .called (isWordText_name widget) (writes_shown widget (writes_args depth args hwf.1))
  | .ui widget args (child :: more), hwf => by
    rw [Expr.wellFormed, Bool.and_eq_true] at hwf
    have hcall := Writes.called (isWordText_name widget)
      (writes_shown widget (writes_args depth args hwf.1))
    rw [expr, Expr.filled, Expr.filledAll, words]
    exact .lambdaCalled depth hcall (writes_lines (depth + 1) (child :: more) hwf.2)

theorem writes_args (depth : Nat) : ∀ args : List Expr, Expr.allWellFormed args = true →
    Writes (", ".intercalate (exprs depth args)) (argWords (Expr.filledAll args))
  | [], _ => fun _ _ _ hcs => hcs
  | [e], hwf => by
    rw [Expr.allWellFormed, Bool.and_eq_true] at hwf
    exact writes_expr depth e hwf.1
  | e :: next :: es, hwf => by
    rw [Expr.allWellFormed, Bool.and_eq_true] at hwf
    have hmore := writes_args depth (next :: es) hwf.2
    rw [exprs, exprs, String.intercalate_cons_cons]
    exact .comma (writes_expr depth e hwf.1) hmore

theorem writes_lines (depth : Nat) : ∀ es : List Expr, Expr.allWellFormed es = true →
    Writes (String.join ((exprs depth es).map fun e => line depth (e ++ ";")))
      (bodyWords (Expr.filledAll es))
  | [], _ => fun _ _ _ hcs => hcs
  | e :: es, hwf => by
    rw [Expr.allWellFormed, Bool.and_eq_true] at hwf
    rw [exprs, List.map_cons, String.join_cons]
    exact .statement depth (writes_expr depth e hwf.1) (writes_lines depth es hwf.2)

end

theorem tree_ne_literal (e : Expr) (value : String) : tree e ≠ .literal value := by
  intro h
  cases e with
  | ui _ _ children => cases children <;> cases h
  | _ => cases h

theorem cases_of_tree_eq_call {e : Expr} {callee : Tree} {args : List Tree}
    (h : tree e = .call callee args) :
    (∃ value, e = .text value ∧ callee = .name "string" ∧ args = [.literal value]) ∨
    (∃ n es, e = .call n es ∧ callee = .name n ∧ args = trees es) ∨
    (∃ widget es, e = .ui widget es [] ∧ callee = .name widget.name ∧ args = trees es) ∨
    ∃ widget es child more, e = .ui widget es (child :: more) ∧
      callee = .lambda (.call (.name widget.name) (trees es) :: trees (child :: more)) ∧
      args = [] := by
  match e with
  | .text value =>
    cases h
    exact .inl ⟨value, rfl, rfl, rfl⟩
  | .call n es =>
    cases h
    exact .inr (.inl ⟨n, es, rfl, rfl, rfl⟩)
  | .ui widget es [] =>
    cases h
    exact .inr (.inr (.inl ⟨widget, es, rfl, rfl, rfl⟩))
  | .ui widget es (child :: more) =>
    cases h
    exact .inr (.inr (.inr ⟨widget, es, child, more, rfl, rfl, rfl⟩))

theorem trees_ne_literal (es : List Expr) (value : String) : trees es ≠ [.literal value] := by
  intro h
  cases es with
  | nil => cases h
  | cons e es => exact tree_ne_literal e value (List.cons.inj h).1

theorem not_isPlainName_name (widget : Widget) : isPlainName widget.name ≠ true := by
  cases widget <;> decide

theorem name_ne_string (widget : Widget) : widget.name ≠ "string" := by
  cases widget <;> decide

theorem name_inj {widget widget' : Widget} (h : widget.name = widget'.name) :
    widget = widget' := by
  revert h
  cases widget <;> cases widget' <;> decide

mutual

theorem eq_of_tree {p : Float → Bool} : ∀ e e' : Expr, e.wellFormed p = true →
    e'.wellFormed p = true → tree e = tree e' → e = e'
  | .number _, e', _, _, h | .name _, e', _, _, h => by
    cases e' with
    | ui _ _ children => cases children <;> cases h
    | _ => cases h <;> rfl
  | .binary op left right, e', hwf, hwf', h => by
    cases e' with
    | binary op' left' right' =>
      rw [Expr.wellFormed, Bool.and_eq_true] at hwf hwf'
      rw [tree, tree] at h
      injection h with hop hleft hright
      rw [hop, eq_of_tree left left' hwf.1 hwf'.1 hleft,
        eq_of_tree right right' hwf.2 hwf'.2 hright]
    | ui _ _ children => cases children <;> cases h
    | _ => cases h
  | .text value, e', _, hwf', h => by
    obtain ⟨_, rfl, -, hargs⟩ | ⟨_, es, rfl, -, hargs⟩ | ⟨widget, _, rfl, hcallee, -⟩ |
      ⟨_, _, _, _, -, hcallee, -⟩ := cases_of_tree_eq_call h.symm
    · cases hargs
      rfl
    · exact absurd hargs.symm (trees_ne_literal es value)
    · exact absurd (Tree.name.inj hcallee).symm (name_ne_string widget)
    · cases hcallee
  | .call callee args, e', hwf, hwf', h => by
    rw [Expr.wellFormed, Bool.and_eq_true] at hwf
    obtain ⟨value, -, -, hargs⟩ | ⟨_, args', rfl, hcallee, hargs⟩ | ⟨widget, _, -, hcallee, -⟩ |
      ⟨_, _, _, _, -, hcallee, -⟩ := cases_of_tree_eq_call h.symm
    · exact absurd hargs (trees_ne_literal args value)
    · rw [Expr.wellFormed, Bool.and_eq_true] at hwf'
      rw [Tree.name.inj hcallee, eq_of_trees args args' hwf.2 hwf'.2 hargs]
    · rw [Tree.name.inj hcallee] at hwf
      exact absurd hwf.1 (not_isPlainName_name widget)
    · cases hcallee
  | .ui widget args [], e', hwf, hwf', h => by
    rw [Expr.wellFormed, Bool.and_eq_true] at hwf
    obtain ⟨_, -, hcallee, -⟩ | ⟨_, _, rfl, hcallee, -⟩ | ⟨_, args', rfl, hcallee, hargs⟩ |
      ⟨_, _, _, _, -, hcallee, -⟩ := cases_of_tree_eq_call h.symm
    · exact absurd (Tree.name.inj hcallee) (name_ne_string widget)
    · rw [Expr.wellFormed, Bool.and_eq_true, ← Tree.name.inj hcallee] at hwf'
      exact absurd hwf'.1 (not_isPlainName_name widget)
    · rw [Expr.wellFormed, Bool.and_eq_true] at hwf'
      rw [name_inj (Tree.name.inj hcallee), eq_of_trees args args' hwf.1 hwf'.1 hargs]
    · cases hcallee
  | .ui widget args (child :: more), e', hwf, hwf', h => by
    rw [Expr.wellFormed, Bool.and_eq_true] at hwf
    obtain ⟨_, -, hcallee, -⟩ | ⟨_, _, -, hcallee, -⟩ | ⟨_, _, -, hcallee, -⟩ |
      ⟨_, args', child', more', rfl, hcallee, -⟩ := cases_of_tree_eq_call h.symm
    · cases hcallee
    · cases hcallee
    · cases hcallee
    · rw [Expr.wellFormed, Bool.and_eq_true] at hwf'
      injection hcallee with hbody
      injection hbody with hfirst hchildren
      injection hfirst with hname hargs
      rw [name_inj (Tree.name.inj hname), eq_of_trees args args' hwf.1 hwf'.1 hargs,
        eq_of_trees (child :: more) (child' :: more') hwf.2 hwf'.2 hchildren]

theorem eq_of_trees {p : Float → Bool} : ∀ es es' : List Expr, Expr.allWellFormed es p = true →
    Expr.allWellFormed es' p = true → trees es = trees es' → es = es'
  | [], [], _, _, _ => rfl
  | e :: es, e' :: es', hwf, hwf', h => by
    rw [Expr.allWellFormed, Bool.and_eq_true] at hwf hwf'
    rw [trees, trees] at h
    injection h with hfirst hrest
    rw [eq_of_tree e e' hwf.1 hwf'.1 hfirst, eq_of_trees es es' hwf.2 hwf'.2 hrest]

end
/-- The text of an expression is read as that expression alone, and no other expression has its
tree. -/
theorem expr_keeps_structure {source : String} {program : Program}
    (hcompile : compile source = .ok program) {s : Stmt} (hs : s.Within program.body)
    {outer e : Expr} (houter : outer ∈ s.exprs) (he : e.Within outer)
    (hfinite : ∀ x ∈ e.numbers, x.isFinite = true) (depth : Nat) :
    ∃ ls, lexemes (expr depth e).toList = some ls ∧ balanced [] ls = true ∧
      (∀ t, IsExpr t ls ↔ t = tree e.filled) ∧
      ∀ other : Expr, other.wellFormed Decimal.isLiteral = true →
        tree other = tree e.filled → other = e.filled := by
  have hstmt := hs.wellFormed (wellFormed_of_compile hcompile)
  have hread : e.wellFormed Decimal.isLiteral = true :=
    he.wellFormed (s.wellFormed_of_mem_exprs hstmt houter)
  have hwf : e.wellFormed = true := e.wellFormed_of_numbers hread fun x hx hliteral =>
    Decimal.isNatural_of_isLiteral hliteral (hfinite x hx)
  have hlexed := writes_expr depth e hwf (by rintro c ⟨⟩) .nil
  rw [List.append_nil, List.append_nil] at hlexed
  have hexpr : IsExpr (tree e.filled) (words e.filled) := (derives_words e.filled).whole
  refine ⟨words e.filled, hlexed, hexpr.isBalanced, fun t => ⟨fun ht => ht.unique hexpr, ?_⟩, ?_⟩
  · rintro rfl
    exact hexpr
  · exact fun other hother => eq_of_tree other e.filled hother (Expr.wellFormed_filled e hread)

/-- An equality on the left of a comparison, and a widget with a child on its right. -/
theorem expr_keeps_structure_children :
    compile "var x = 2 == 1 < box(\"a\\b)\"):\n    text()\n" =
        .ok ⟨[.binding "x" (some (.binary .less (.binary .equal (.number 2) (.number 1))
          (.ui .box [.text "a\\b)"] [.ui .text [] []])))]⟩ ∧
      ∃ ls, lexemes ("(2 == 1) < [&]() \x7b\n    box(string(\"a\\\\b)\"));\n" ++
          "    text(string(\"\"));\n\x7d()").toList = some ls ∧ balanced [] ls = true ∧
        ∀ t, IsExpr t ls ↔ t = .binary .less (.binary .equal (.number 2) (.number 1))
          (.call (.lambda [.call (.name "box") [.call (.name "string") [.literal "a\\b)"]],
            .call (.name "text") [.call (.name "string") [.literal ""]]]) []) := by
  have hsource : Stmt.printAll
      [.binding "x" (some (.binary .less (.binary .equal (.number 2) (.number 1))
        (.ui .box [.text "a\\b)"] [.ui .text [] []])))] ++ "\n" =
        "var x = 2 == 1 < box(\"a\\b)\"):\n    text()\n" := by
    decide +kernel
  have hcompile : compile "var x = 2 == 1 < box(\"a\\b)\"):\n    text()\n" =
      .ok ⟨[.binding "x" (some (.binary .less (.binary .equal (.number 2) (.number 1))
        (.ui .box [.text "a\\b)"] [.ui .text [] []])))]⟩ := by
    rw [← hsource]
    exact compile_printAll true (List.cons_ne_nil _ _) (by decide) (by decide)
      (Token.ofSource_ne_crash (by decide +kernel))
  have htext : expr 0 (.binary .less (.binary .equal (.number 2) (.number 1))
      (.ui .box [.text "a\\b)"] [.ui .text [] []])) =
        "(2 == 1) < [&]() \x7b\n    box(string(\"a\\\\b)\"));\n" ++
          "    text(string(\"\"));\n\x7d()" := by
    decide +kernel
  obtain ⟨ls, hls, hbalanced, hexpr, -⟩ := expr_keeps_structure hcompile (.here List.mem_cons_self)
    List.mem_cons_self .self (by decide) 0
  rw [htext] at hls
  exact ⟨hcompile, ls, hls, hbalanced, hexpr⟩

end Cpp

end Splice
