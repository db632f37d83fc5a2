import Splice.Proofs.Decimal.Whole
import Splice.Proofs.Tree.Yields

/-! The words of an expression are read as that expression, at every level that its operators
allow, as long as the next word does not carry it on.  Lines are read one after the other, and the
blocks that a line leaves open are closed by whoever opened them. -/
namespace Splice

open Splice.Parser Spelling

def Kind.startsExpr : Kind → Bool
  | .number | .string | .ident | .widget _ | .leftParen => true
  | _ => false

def Kind.startsLine : Kind → Bool
  | .keyword .otherwise | .keyword .description => false
  | .keyword _ => true
  | kind => kind.startsExpr

theorem Kind.startsLine_of_startsExpr {kind : Kind} (h : kind.startsExpr = true) :
    kind.startsLine = true := by
  cases kind <;> first | rfl | cases h

theorem Kind.endsStatement_of_startsExpr {kind : Kind} (h : kind.startsExpr = true) :
    kind.endsStatement = false := by
  cases kind <;> first | rfl | cases h

theorem Expr.line_starts (e : Expr) :
    ∃ w, e.spelling.line.head? = some w ∧ w.1.startsExpr = true := by
  cases e with
  | binary op left right =>
    obtain ⟨w, hline, hstart⟩ := line_starts left
    rw [spelling, Spelling.after, settled]
    by_cases hparens : left.strength < op.precedence
    · exact ⟨Kind.leftParen.word, by simp [group, hparens], rfl⟩
    · exact ⟨w, by simp [group, hparens, hline], hstart⟩
  | ui widget args children =>
    cases children <;> exact ⟨(Kind.widget widget).word, by simp [spelling, Spelling.after], rfl⟩
  | _ => exact ⟨_, by rw [spelling]; rfl, rfl⟩

theorem Stmt.line_starts (s : Stmt) :
    ∃ w, s.spelling.line.head? = some w ∧ w.1.startsLine = true := by
  cases s with
  | binding name init => cases init <;> exact ⟨_, by rw [spelling]; rfl, rfl⟩
  | branch test yes no => cases no <;> exact ⟨_, by rw [spelling]; rfl, rfl⟩
  | ret value => cases value <;> exact ⟨_, by rw [spelling]; rfl, rfl⟩
  | expr e =>
    obtain ⟨w, hline, hstart⟩ := e.line_starts
    exact ⟨w, by rw [spelling, hline], Kind.startsLine_of_startsExpr hstart⟩
  | ask instruction body => cases body <;> exact ⟨_, by rw [spelling]; rfl, rfl⟩
  | _ => exact ⟨_, by rw [spelling]; rfl, rfl⟩

namespace Cursor

variable {c c' : Cursor} {ws : List Word}

theorem Passes.kind_eq {w : Word} (h : c.Passes ws c') (hw : ws.head? = some w) :
    c.kind = w.1 := by
  obtain ⟨tokens, rfl, hsame, -⟩ := h
  cases tokens with
  | nil => cases hw
  | cons token later =>
    injection hsame with hhere _
    injection hw with hw
    rw [← hw]
    exact congrArg Token.kind hhere

theorem Passes.skipNewlines (h : c.Passes ws c') (hall : ∀ w ∈ ws, w = Kind.newline.word)
    (hkind : c'.kind ≠ .newline) : c.skipNewlines = c' := by
  induction ws generalizing c with
  | nil =>
    obtain rfl := h.nil
    exact skipNewlines_eq_self hkind
  | cons w ws ih =>
    obtain rfl := hall w List.mem_cons_self
    obtain ⟨hnext, -, hrest⟩ := h.next (by decide)
    rw [← skipNewlines_advance hnext]
    exact ih hrest fun w hw => hall w (List.mem_cons_of_mem _ hw)

theorem Passes.openBlock (h : c.Passes (Kind.newline.word :: Kind.indent.word :: ws) c') :
    ∃ mid, Parser.openBlock c = .ok ((), mid) ∧ mid.Passes ws c' := by
  obtain ⟨hbreak, -, hrest⟩ := h.next (by decide)
  obtain ⟨hindent, -, hblock⟩ := hrest.next (by decide)
  refine ⟨c.advance.advance, ?_, hblock⟩
  have hskip : c.advance.skipNewlines = c.advance := skipNewlines_eq_self (by simp [hindent])
  have hfirst : Parser.expect .newline .blockNewline c = .ok (c.here, c.advance) := if_pos hbreak
  have hsecond : Parser.expect .indent .blockIndent c.advance =
      .ok (c.advance.here, c.advance.advance) := if_pos hindent
  unfold Parser.openBlock
  rw [Parser.bind_of_ok hfirst, Parser.bind_of_ok rfl, hskip, Parser.bind_of_ok hsecond]
  rfl

end Cursor

/-- The next word does not carry on an expression: no operator binds as strongly as `level`, and
neither an argument list nor a children block starts where one would be taken for its own. -/
structure Ends (opens : Nat) (bare : Bool) (level : Nat) (kind : Kind) : Prop where
  call : opens = 0 → kind ≠ .leftParen
  children : bare = true → kind ≠ .colon
  operator : ∀ op, kind = .operator op → op.precedence < level

theorem Ends.mono {opens level level' : Nat} {bare : Bool} {kind : Kind}
    (h : Ends opens bare level kind) (hle : level ≤ level') : Ends opens bare level' kind :=
  ⟨h.call, h.children, fun op hop => Nat.lt_of_lt_of_le (h.operator op hop) hle⟩

theorem ends_plain {kind : Kind} (hcall : kind ≠ .leftParen) (hcolon : kind ≠ .colon)
    (hop : kind.operator? = none) (opens : Nat) (bare : Bool) (level : Nat) :
    Ends opens bare level kind := by
  refine ⟨fun _ => hcall, fun _ => hcolon, ?_⟩
  rintro op rfl
  cases hop

variable {s : Spelling} {bare : Bool} {nesting level strength : Nat} {e : Expr}

def Takes (s : Spelling) (bare : Bool) (nesting level : Nat) (e : Expr) : Prop :=
  ∀ ⦃broken c c'⦄, c.nesting ≤ maxNesting → c.Passes (s.line ++ closing broken s.opens) c' →
    Ends s.opens bare level c'.kind → Yields (operation level) c c' (c.nesting + nesting) e

def Continues (s : Spelling) (bare : Bool) (nesting level : Nat) (e : Expr) : Prop :=
  ∀ ⦃broken c c' last more result⦄, c.nesting ≤ maxNesting →
    c.Passes (s.line ++ closing broken s.opens) c' →
    Ends s.opens bare (level + 1) c'.kind →
    (c.nesting + nesting ≤ maxNesting → Yields (operands level e) c' last more result) →
      Yields (operation level) c last (max (c.nesting + nesting) more) result

/-- The words are read as an expression at every level up to a strength. -/
structure Readable (s : Spelling) (bare : Bool) (nesting strength : Nat) (e : Expr) : Prop where
  takes : ∀ level ≤ strength, Takes s bare nesting level e
  continues : ∀ level ≤ strength, level ≤ 3 → Continues s bare nesting level e

theorem Takes.continues (hlevel : level ≤ 3) (h : Takes s bare nesting (level + 1) e) :
    Continues s bare nesting level e := by
  intro broken c c' last more result hdepth hpasses hends hrest
  have hlow : ¬ 3 < level := by omega
  refine .succ ?_
  simp only [operation, hlow, if_false]
  exact (h hdepth hpasses hends).bind hrest

theorem operands_stop {c : Cursor} (h : ∀ op, c.kind = .operator op → op.precedence ≠ level) :
    Yields (operands level e) c c 0 e := by
  refine .succ ?_
  simp only [operands]
  refine .kind ?_
  cases hop : c.kind.operator? with
  | none => exact .pure c e
  | some op =>
    have hkind : c.kind = .operator op := by
      cases hk : c.kind <;> rw [hk] at hop <;> cases hop
      rfl
    simp only [h op hkind, if_false]
    exact .pure c e

theorem Continues.takes (h : Continues s bare nesting level e) : Takes s bare nesting level e := by
  intro broken c c' hdepth hpasses hends
  have hstop : Yields (operands level e) c' c' 0 e :=
    operands_stop fun op hop => Nat.ne_of_lt (hends.operator op hop)
  exact (h hdepth hpasses (hends.mono (Nat.le_succ level)) fun _ => hstop).congr (Nat.max_zero _)

theorem Takes.readable (hstrength : strength ≤ 4) (h : Takes s bare nesting strength e)
    (hlast : strength ≤ 3 → Continues s bare nesting strength e) :
    Readable s bare nesting strength e := by
  have hbelow (k : Nat) : ∀ level, level + k = strength →
      Takes s bare nesting level e ∧ (level ≤ 3 → Continues s bare nesting level e) := by
    induction k with
    | zero =>
      rintro level rfl
      exact ⟨h, hlast⟩
    | succ k ih =>
      intro level hlevel
      have hcontinues := (ih (level + 1) (by omega)).1.continues (by omega)
      exact ⟨hcontinues.takes, fun _ => hcontinues⟩
  exact ⟨fun level hle => (hbelow (strength - level) level (by omega)).1,
    fun level hle => (hbelow (strength - level) level (by omega)).2⟩

theorem Continues.readable (hstrength : strength ≤ 3) (h : Continues s bare nesting strength e) :
    Readable s bare nesting strength e :=
  h.takes.readable (by omega) fun _ => h

theorem readable_of_primary
    (h : ∀ ⦃broken c c'⦄, c.nesting ≤ maxNesting →
      c.Passes (s.line ++ closing broken s.opens) c' → Ends s.opens bare 4 c'.kind →
        Yields primary c c' (c.nesting + nesting) e) :
    Readable s bare nesting 4 e := by
  refine Takes.readable (Nat.le_refl 4) ?_ (by omega)
  intro broken c c' hdepth hpasses hends
  refine .succ ?_
  simp only [operation, show 3 < 4 by decide, if_true]
  exact h hdepth hpasses hends

theorem Readable.weaken {bare' : Bool} (h : Readable s bare nesting strength e)
    (hbare : bare = true → bare' = true) : Readable s bare' nesting strength e := by
  have hends {level : Nat} {kind : Kind} (hk : Ends s.opens bare' level kind) :
      Ends s.opens bare level kind :=
    ⟨hk.call, fun hb => hk.children (hbare hb), hk.operator⟩
  exact ⟨fun level hle _ _ _ hdepth hpasses hk => h.takes level hle hdepth hpasses (hends hk),
    fun level hle hlow _ _ _ _ _ _ hdepth hpasses hk =>
      h.continues level hle hlow hdepth hpasses (hends hk)⟩

theorem Readable.parens (h : Readable s bare nesting strength e) (hstrength : 1 ≤ strength) :
    Readable (group true s) false (nesting + 1) 4 e := by
  apply readable_of_primary
  intro broken c c' _ hpasses _
  have hwords : (group true s).line ++ closing broken (group true s).opens =
      Kind.leftParen.word :: (s.settled ++ [Kind.rightParen.word]) := by
    simp [group, closing]
  rw [hwords] at hpasses
  have hsame := hpasses.nesting
  obtain ⟨hkind, -, -⟩ := hpasses.next (by decide)
  obtain ⟨-, -, hgroup⟩ := (hpasses.within (c.nesting + 1)).next (by decide)
  have hinner := hgroup.nesting
  obtain ⟨mid, hexpr, hclose⟩ := hgroup.append
  obtain ⟨hparen, -, -⟩ := hclose.next (by decide)
  have hends : Ends s.opens bare 1 mid.kind := by
    rw [hparen]
    exact ends_plain (by decide) (by decide) rfl _ _ _
  refine .succ ?_
  simp only [primary]
  refine .kind ?_
  simp only [hkind]
  refine .enter (by omega) fun hdepth => .advance ?_
  rw [← hsame] at hclose
  rw [Cursor.nesting_within] at hinner
  exact (h.takes 1 hstrength (by omega) hexpr hends).andThen 0
    (fun _ => .close hclose (by decide)) (by omega)

theorem Readable.operand (h : Readable s bare nesting strength e) (hstrength : 1 ≤ strength)
    (parens : Bool) :
    Readable (group parens s) (!parens && bare) (grouped parens nesting)
      (if parens then 4 else strength) e := by
  cases parens with
  | false => exact h
  | true => exact h.parens hstrength

theorem operands_next {c c' : Cursor} {op : Operator} {peak : Nat} {left result : Expr}
    (hkind : c.kind = .operator op)
    (h : Yields (fun fuel => do
      let right ← operation (op.precedence + 1) fuel
      operands op.precedence (.binary op left right) fuel) c.advance c' peak result) :
    Yields (operands op.precedence left) c c' peak result := by
  refine .succ ?_
  simp only [operands]
  refine .kind ?_
  simp only [hkind, Kind.operator?, if_true]
  exact .advance h

theorem readable_binary (op : Operator) {s₁ s₂ : Spelling} {bare₁ bare₂ : Bool} {n₁ n₂ k₁ k₂ : Nat}
    {left right : Expr} (hleft : Readable s₁ bare₁ n₁ k₁ left)
    (hright : Readable s₂ bare₂ n₂ k₂ right) (hk₁ : op.precedence ≤ k₁)
    (hk₂ : op.precedence < k₂) :
    Readable (s₂.after (s₁.settled ++ [(Kind.operator op).word])) bare₂ (max n₁ n₂) op.precedence
      (.binary op left right) := by
  have hlow : op.precedence ≤ 3 := by cases op <;> decide
  refine Continues.readable hlow ?_
  intro broken c c' last more result hdepth hpasses hends hrest
  have hwords :
      (s₂.after (s₁.settled ++ [(Kind.operator op).word])).line ++ closing broken s₂.opens =
      s₁.settled ++ ((Kind.operator op).word :: (s₂.line ++ closing broken s₂.opens)) := by
    simp [Spelling.after]
  rw [show (s₂.after (s₁.settled ++ [(Kind.operator op).word])).opens = s₂.opens from rfl,
    hwords] at hpasses
  obtain ⟨mid, hfirst, htail⟩ := hpasses.append
  obtain ⟨hkind, -, hsecond⟩ := htail.next (by simp)
  have hsame := hfirst.nesting
  have hsame' := htail.nesting
  have hsame'' := hsecond.nesting
  have hmid : Ends s₁.opens bare₁ (op.precedence + 1) mid.kind := by
    rw [hkind]
    refine ⟨by simp, by simp, ?_⟩
    rintro op' ⟨⟩
    exact Nat.lt_succ_self _
  have hwhole (hleft : c.nesting + n₁ ≤ maxNesting) :
      Yields (operands op.precedence left) mid last (max (c.nesting + n₂) more) result := by
    refine operands_next hkind ?_
    exact (hright.takes _ hk₂ (by omega) hsecond hends).andThen more
      (fun hright => hrest (by omega)) (by omega)
  exact (hleft.continues op.precedence hk₁ hlow hdepth hfirst hmid hwhole).congr (by omega)

def ArgsRead (es : List Expr) : Prop :=
  ∀ ⦃c c'⦄, es ≠ [] → c.nesting ≤ maxNesting → c.Passes (list (Expr.spellings es)) c' →
    c'.kind = .rightParen → Yields argumentList c c' (c.nesting + Expr.maxNesting es) es

theorem argsRead_nil : ArgsRead [] :=
  fun _ _ hne => absurd rfl hne

theorem argsRead_cons {e : Expr} {es : List Expr}
    (he : Readable e.spelling e.endsBare e.nesting e.strength e) (hstrength : 1 ≤ e.strength)
    (hes : ArgsRead es) : ArgsRead (e :: es) := by
  intro c c' _ hdepth hpasses hkind
  rw [Expr.spellings, list] at hpasses
  have hsame := hpasses.nesting
  obtain ⟨mid, hfirst, hrest⟩ := hpasses.append
  have hends (hplain : mid.kind = .comma ∨ mid.kind = .rightParen) :
      Ends e.spelling.opens e.endsBare 1 mid.kind := by
    rcases hplain with hplain | hplain <;> rw [hplain] <;>
      exact ends_plain (by decide) (by decide) rfl _ _ _
  refine .succ ?_
  simp only [argumentList]
  cases es with
  | nil =>
    obtain rfl := hrest.nil
    refine (he.takes 1 hstrength hdepth hfirst (hends (.inr hkind))).andThen 0 (fun _ => ?_) ?_
    · exact .decline (by simp [hkind]) (.pure _ _)
    · simp [Expr.maxNesting]
  | cons next more =>
    rw [Expr.spellings, listTail] at hrest
    obtain ⟨hcomma, -, hrest⟩ := hrest.next (by decide)
    have hsame' := hrest.nesting
    refine (he.takes 1 hstrength hdepth hfirst (hends (.inl hcomma))).andThen
      (c.nesting + Expr.maxNesting (next :: more)) (fun _ => ?_) ?_
    · exact .accept hcomma (((hes (by simp) (by omega) hrest hkind).map (e :: ·)).congr (by omega))
    · simp only [Expr.maxNesting]
      omega

theorem arguments_read {es : List Expr} (hes : ArgsRead es) {c c' : Cursor}
    (hpasses : c.Passes (Kind.leftParen.word :: list (Expr.spellings es) ++ [Kind.rightParen.word])
      c') :
    Yields arguments c c' (c.nesting + (Expr.maxNesting es + 1)) es := by
  have hsame := hpasses.nesting
  obtain ⟨hkind, -, hargs⟩ := (hpasses.within (c.nesting + 1)).next (by decide)
  have hinner := hargs.nesting
  rw [Cursor.nesting_within] at hinner
  obtain ⟨mid, hlist, hclose⟩ := hargs.append
  obtain ⟨hparen, -, -⟩ := hclose.next (by decide)
  rw [← hsame] at hclose
  refine .succ ?_
  simp only [arguments]
  refine .enter (by omega) fun hdepth => .expect hkind (.kind ?_)
  cases es with
  | nil =>
    obtain rfl := hlist.nil
    simp only [hparen, if_true, pure_bind]
    exact (Yields.close hclose (by decide)).within (Nat.zero_le _)
      (by simp [Expr.maxNesting]; omega)
  | cons e es =>
    obtain ⟨w, hw, hstart⟩ := e.line_starts
    have hfirst : (c.within (c.nesting + 1)).advance.kind = w.1 :=
      hlist.kind_eq (by simp [Expr.spellings, list, settled, hw])
    have hne : w.1 ≠ .rightParen := by
      intro heq
      rw [heq] at hstart
      cases hstart
    simp only [hfirst, hne, if_false]
    exact (hes (by simp) (by omega) hlist hparen).andThen 0
      (fun _ => .close hclose (by decide)) (by omega)

/-- What may come behind a line, once the blocks that it left open are closed. -/
def LineEnds (opens : Nat) (kind : Kind) : Prop :=
  if opens = 0 then kind.endsStatement = true
  else kind.startsLine = true ∨ kind = .dedent ∨ kind = .endOfInput

theorem LineEnds.ends {opens : Nat} {kind : Kind} (h : LineEnds opens kind) (bare : Bool)
    (level : Nat) : Ends opens bare level kind := by
  unfold LineEnds at h
  split at h
  · exact ends_plain (by rintro rfl; cases h) (by rintro rfl; cases h)
      (by cases kind <;> first | rfl | cases h) _ _ _
  · rename_i hopens
    refine ⟨fun hzero => absurd hzero hopens, fun _ => ?_, ?_⟩
    · rintro rfl
      simp [Kind.startsLine, Kind.startsExpr] at h
    · rintro op rfl
      simp [Kind.startsLine, Kind.startsExpr] at h

theorem ended_lines_cons (s : Spelling) (ss : List Spelling) (broken : Bool) :
    ∃ b₁ b₂, (lines (s :: ss)).ended broken = (s.line ++ closing b₁ s.opens) ++
        (lineBreak (b₁ && s.opens == 0) ++ (lines ss).ended b₂) ∧
      (b₁ = false → ss = []) ∧ (ss = [] → b₂ = false) := by
  cases ss with
  | nil =>
    refine ⟨broken, false, ?_, fun _ => rfl, fun _ => rfl⟩
    by_cases hopens : s.opens = 0 <;>
      simp [lines, linesTail, ended, closing, lineBreak, dedents, Spelling.after, hopens]
  | cons next more =>
    refine ⟨true, broken, ?_, by simp, by simp⟩
    by_cases hopens : s.opens = 0 <;>
      simp [lines, linesTail, ended, closing, lineBreak, dedents, Spelling.after, hopens]

theorem next_line {s : Spelling} {ss : List Spelling} {broken : Bool} {c c' : Cursor}
    (hpasses : c.Passes ((lines (s :: ss)).ended broken) c')
    (hstarts : ∀ next ∈ ss.head?, ∃ w, next.line.head? = some w ∧ w.1.startsLine = true)
    (hlast : c'.kind = .dedent ∨ c'.kind = .endOfInput) :
    ∃ mid b₁ b₂ first, c.Passes (s.line ++ closing b₁ s.opens) mid ∧
      mid.Passes (lineBreak first ++ (lines ss).ended b₂) c' ∧ LineEnds s.opens mid.kind ∧
        endStatement mid = .ok ((), mid) := by
  obtain ⟨b₁, b₂, hwords, hsingle, hempty⟩ := ended_lines_cons s ss broken
  rw [hwords] at hpasses
  obtain ⟨mid, hline, hrest⟩ := hpasses.append
  have hends : LineEnds s.opens mid.kind := by
    unfold LineEnds
    by_cases hopens : s.opens = 0
    · rw [if_pos hopens]
      cases b₁ with
      | true =>
        have hkind := hrest.kind_eq (w := Kind.newline.word) (by simp [hopens, lineBreak])
        rw [hkind]
        rfl
      | false =>
        obtain rfl := hsingle rfl
        obtain rfl := hempty rfl
        obtain rfl := hrest.nil
        rcases hlast with hlast | hlast <;> rw [hlast] <;> rfl
    · rw [if_neg hopens]
      cases ss with
      | nil =>
        obtain rfl := hempty rfl
        have hnil : mid.Passes [] c' := by
          simpa [hopens, lineBreak, lines, ended, dedents] using hrest
        obtain rfl := hnil.nil
        exact .inr hlast
      | cons next more =>
        obtain ⟨w, hw, hstart⟩ := hstarts next rfl
        have hkind := hrest.kind_eq (w := w)
          (by simp [hopens, lineBreak, lines, ended, Spelling.after, hw])
        rw [hkind]
        exact .inl hstart
  refine ⟨mid, b₁, b₂, _, hline, hrest, hends, if_pos ?_⟩
  unfold LineEnds at hends
  by_cases hopens : s.opens = 0
  · rw [if_pos hopens] at hends
    exact .inr hends
  · obtain ⟨count, hcount⟩ := Nat.exists_eq_succ_of_ne_zero hopens
    have hdedent : s.line ++ closing b₁ s.opens =
        (s.line ++ (lineBreak b₁ ++ dedents count)) ++ [Kind.dedent.word] := by
      simp [closing, hcount, dedents, List.replicate_succ']
    rw [hdedent] at hline
    exact .inl hline.last

theorem block_words (s : Spelling) (ss : List Spelling) (broken : Bool) :
    (Spelling.block (s :: ss)).line ++ closing broken (Spelling.block (s :: ss)).opens =
      Kind.newline.word :: Kind.indent.word ::
        ((lineBreak false ++ (lines (s :: ss)).ended broken) ++ [Kind.dedent.word]) := by
  simp [Spelling.block, closing, ended, lineBreak, dedents, List.replicate_succ']

def ChildrenRead (es : List Expr) : Prop :=
  ∀ ⦃first broken c c'⦄, c.nesting ≤ maxNesting →
    c.Passes (lineBreak first ++ (lines (Expr.spellings es)).ended broken) c' →
      c'.kind = .dedent → Yields childList c c' (c.nesting + Expr.maxNesting es) es

theorem childrenRead_nil : ChildrenRead [] := by
  intro first broken c c' hdepth hpasses hkind
  have hskip : c.skipNewlines = c' := by
    refine hpasses.skipNewlines ?_ (by simp [hkind])
    cases first <;> cases broken <;>
      simp [Expr.spellings, lines, ended, lineBreak, dedents]
  refine .succ ?_
  simp only [childList]
  refine .of_ok rfl (.kind ?_)
  rw [hskip]
  simp only [hkind]
  exact (Yields.pure c' []).within (Nat.zero_le _) hdepth

theorem skip_lineBreak {c c' : Cursor} {first : Bool} {ws : List Word}
    (h : c.Passes (lineBreak first ++ ws) c') {w : Word} (hw : ws.head? = some w)
    (hne : w.1 ≠ .newline) : c.skipNewlines.Passes ws c' ∧ c.skipNewlines.kind = w.1 := by
  obtain ⟨mid, hbreak, hrest⟩ := h.append
  have hkind := hrest.kind_eq hw
  have hskip : c.skipNewlines = mid := by
    refine hbreak.skipNewlines ?_ (by rw [hkind]; exact hne)
    cases first <;> simp [lineBreak]
  rw [hskip]
  exact ⟨hrest, hkind⟩

theorem childrenRead_cons {e : Expr} {es : List Expr}
    (he : Readable e.spelling e.endsBare e.nesting e.strength e) (hstrength : 1 ≤ e.strength)
    (hes : ChildrenRead es) : ChildrenRead (e :: es) := by
  intro first broken c c' hdepth hpasses hkind
  have hsame := hpasses.nesting
  obtain ⟨w, hw, hstart⟩ := e.line_starts
  have hne : w.1 ≠ .newline ∧ w.1 ≠ .dedent ∧ w.1 ≠ .endOfInput := by
    refine ⟨?_, ?_, ?_⟩ <;> intro heq <;> rw [heq] at hstart <;> cases hstart
  obtain ⟨hlines, hfirst⟩ := skip_lineBreak hpasses
    (w := w) (by simp [Expr.spellings, lines, ended, Spelling.after, hw]) hne.1
  rw [Expr.spellings] at hlines
  have hstarts : ∀ next ∈ (Expr.spellings es).head?,
      ∃ u, next.line.head? = some u ∧ u.1.startsLine = true := by
    cases es with
    | nil => simp [Expr.spellings]
    | cons next more =>
      rw [Expr.spellings]
      rintro _ ⟨rfl⟩
      obtain ⟨u, hu, hustart⟩ := next.line_starts
      exact ⟨u, hu, Kind.startsLine_of_startsExpr hustart⟩
  obtain ⟨mid, b₁, b₂, again, hline, hrest, hends, hend⟩ :=
    next_line hlines hstarts (.inl hkind)
  have hinner := hlines.nesting
  have hinner' := hrest.nesting
  refine .succ ?_
  simp only [childList]
  refine .of_ok rfl (.kind ?_)
  have hchild : Yields (fun fuel => do
      let child ← operation 1 fuel
      endStatement
      return child :: (← childList fuel)) c.skipNewlines c'
      (c.nesting + Expr.maxNesting (e :: es)) (e :: es) := by
    refine (he.takes 1 hstrength (by omega) hline (hends.ends _ _)).andThen
      (c.nesting + Expr.maxNesting es) (fun _ => .of_ok hend ?_) ?_
    · exact ((hes (by omega) hrest hkind).map (e :: ·)).congr (by omega)
    · simp only [Expr.maxNesting]
      omega
  cases hk : c.skipNewlines.kind with
  | dedent => exact absurd (hfirst.symm.trans hk) hne.2.1
  | endOfInput => exact absurd (hfirst.symm.trans hk) hne.2.2
  | _ => exact hchild

theorem children_read {e : Expr} {es : List Expr} (hes : ChildrenRead (e :: es)) {broken : Bool}
    {c c' : Cursor}
    (hpasses : c.Passes ((Spelling.block (Expr.spellings (e :: es))).line ++
      closing broken (Spelling.block (Expr.spellings (e :: es))).opens) c') :
    Yields children c c' (c.nesting + (Expr.maxNesting (e :: es) + 1)) (e :: es) := by
  rw [Expr.spellings, block_words, ← Expr.spellings] at hpasses
  have hsame := hpasses.nesting
  obtain ⟨start, hopen, hblock⟩ := (hpasses.within (c.nesting + 1)).openBlock
  have hinner := hblock.nesting
  rw [Cursor.nesting_within] at hinner
  obtain ⟨mid, hlines, hclose⟩ := hblock.append
  obtain ⟨hdedent, -, -⟩ := hclose.next (by decide)
  rw [← hsame] at hclose
  refine .succ ?_
  simp only [children]
  refine .enter (by omega) fun hdepth => .of_ok hopen ?_
  exact (hes (by omega) hlines hdedent).andThen 0 (fun _ => .close hclose (by decide)) (by omega)

namespace Expr

theorem one_le_strength (e : Expr) : 1 ≤ e.strength := by
  cases e with
  | binary op left right => cases op <;> simp [strength, Operator.precedence]
  | _ => simp [strength]

theorem readable_name (n : String) : Readable (spelling (.name n)) false 0 4 (.name n) := by
  apply readable_of_primary
  intro broken c c' hdepth hpasses hends
  rw [spelling] at hpasses hends
  obtain ⟨hkind, htext, hrest⟩ := hpasses.next (by decide)
  obtain rfl := hrest.nil
  refine .succ ?_
  simp only [primary]
  refine .kind ?_
  simp only [hkind]
  refine .advance (.kind ?_)
  simp only [hends.call rfl, if_false, htext]
  exact (Yields.pure _ _).within (Nat.zero_le _) hdepth

theorem readable_number {x : Float} (hx : Decimal.isNatural x = true) :
    Readable (spelling (.number x)) false 0 4 (.number x) := by
  apply readable_of_primary
  intro broken c c' hdepth hpasses hends
  rw [spelling] at hpasses
  obtain ⟨hkind, htext, hrest⟩ := hpasses.next (by decide)
  obtain rfl := hrest.nil
  refine .succ ?_
  simp only [primary]
  refine .kind ?_
  simp only [hkind]
  refine .advance ?_
  simp only [htext, Parser.number, Decimal.read?_text hx]
  exact (Yields.pure _ _).within (Nat.zero_le _) hdepth

theorem readable_text (value : String) :
    Readable (spelling (.text value)) false 0 4 (.text value) := by
  apply readable_of_primary
  intro broken c c' hdepth hpasses hends
  rw [spelling] at hpasses
  obtain ⟨hkind, htext, hrest⟩ := hpasses.next (by decide)
  obtain rfl := hrest.nil
  refine .succ ?_
  simp only [primary]
  refine .kind ?_
  simp only [hkind]
  refine .advance ?_
  simp only [htext]
  exact (Yields.pure _ _).within (Nat.zero_le _) hdepth

theorem readable_call (callee : String) {args : List Expr} (hargs : ArgsRead args) :
    Readable (spelling (.call callee args)) false (maxNesting args + 1) 4 (.call callee args) := by
  apply readable_of_primary
  intro broken c c' hdepth hpasses hends
  rw [spelling, closing, if_pos rfl, List.append_nil] at hpasses
  have hsame := hpasses.nesting
  obtain ⟨hkind, htext, hrest⟩ := hpasses.next (by decide)
  have hsame' := hrest.nesting
  obtain ⟨hparen, -, -⟩ := hrest.next (by decide)
  refine .succ ?_
  simp only [primary]
  refine .kind ?_
  simp only [hkind]
  refine .advance (.kind ?_)
  simp only [hparen, if_true, htext]
  exact ((arguments_read hargs hrest).map (Expr.call callee)).congr (by omega)

theorem widget_read {widget : Widget} {args : List Expr} (hargs : ArgsRead args) {c mid c' : Cursor}
    {more total : Nat} {e : Expr}
    (hpasses : c.Passes ((Kind.widget widget).word :: Kind.leftParen.word ::
      list (spellings args) ++ [Kind.rightParen.word]) mid)
    (h : Yields (fun fuel => do
      if ← accept .colon then return .ui widget args (← Parser.children fuel)
      else return .ui widget args []) mid c' more e)
    (htotal : max (c.nesting + (maxNesting args + 1)) more = total) :
    Yields primary c c' total e := by
  have hsame := hpasses.nesting
  obtain ⟨hkind, -, hrest⟩ := hpasses.next (by simp)
  have hsame' := hrest.nesting
  obtain ⟨hparen, -, -⟩ := hrest.next (by decide)
  refine .succ ?_
  simp only [primary]
  refine .kind ?_
  simp only [hkind]
  refine .advance (.kind ?_)
  simp only [hparen, if_true]
  exact (arguments_read hargs hrest).andThen more (fun _ => h) (by omega)

theorem readable_leaf (widget : Widget) {args : List Expr} (hargs : ArgsRead args) :
    Readable (spelling (.ui widget args [])) true (maxNesting args + 1) 4 (.ui widget args []) := by
  apply readable_of_primary
  intro broken c c' hdepth hpasses hends
  rw [spelling, closing, if_pos rfl, List.append_nil] at hpasses
  refine widget_read hargs hpasses ?_ (Nat.max_zero _)
  exact .decline (hends.children rfl) (.pure _ _)

theorem readable_branch (widget : Widget) {args : List Expr} {child : Expr} {more : List Expr}
    (hargs : ArgsRead args) (hchildren : ChildrenRead (child :: more)) :
    Readable (spelling (.ui widget args (child :: more))) false
      (max (maxNesting args + 1) (maxNesting (child :: more) + 1)) 4
      (.ui widget args (child :: more)) := by
  apply readable_of_primary
  intro broken c c' hdepth hpasses hends
  rw [spelling, Spelling.after, List.append_assoc, List.append_assoc] at hpasses
  have hsame := hpasses.nesting
  obtain ⟨mid, hcall, hrest⟩ := hpasses.append
  have hsame' := hcall.nesting
  obtain ⟨hcolon, -, hblock⟩ := hrest.next (by decide)
  have hsame'' := hblock.nesting
  have hrun := (children_read hchildren hblock).map (Expr.ui widget args)
  exact widget_read hargs hcall (.accept hcolon hrun) (by omega)

mutual

theorem readable (e : Expr) (hwf : e.wellFormed = true) :
    Readable e.spelling e.endsBare e.nesting e.strength e := by
  cases e with
  | binary op left right =>
    rw [wellFormed, Bool.and_eq_true] at hwf
    have hlow : op.precedence ≤ 3 := by cases op <;> decide
    have hleft := (readable left hwf.1).operand left.one_le_strength
      (left.strength < op.precedence)
    have hright := (readable right hwf.2).operand right.one_le_strength
      (right.strength ≤ op.precedence)
    have hboth := readable_binary op hleft hright ?_ ?_
    · rw [spelling, endsBare, nesting, strength]
      exact hboth.weaken (by simp)
    · simp only [decide_eq_true_eq]
      split <;> omega
    · simp only [decide_eq_true_eq]
      split <;> omega
  | name n => exact readable_name n
  | number x =>
    rw [wellFormed] at hwf
    exact readable_number hwf
  | text value => exact readable_text value
  | call callee args =>
    rw [wellFormed, Bool.and_eq_true] at hwf
    exact readable_call callee (argsRead args hwf.2)
  | ui widget args children =>
    rw [wellFormed, Bool.and_eq_true] at hwf
    cases children with
    | nil => exact readable_leaf widget (argsRead args hwf.1)
    | cons child more =>
      exact readable_branch widget (argsRead args hwf.1) (childrenRead (child :: more) hwf.2)

theorem argsRead (es : List Expr) (hwf : allWellFormed es = true) : ArgsRead es := by
  cases es with
  | nil => exact argsRead_nil
  | cons e es =>
    rw [allWellFormed, Bool.and_eq_true] at hwf
    exact argsRead_cons (readable e hwf.1) e.one_le_strength (argsRead es hwf.2)

theorem childrenRead (es : List Expr) (hwf : allWellFormed es = true) : ChildrenRead es := by
  cases es with
  | nil => exact childrenRead_nil
  | cons e es =>
    rw [allWellFormed, Bool.and_eq_true] at hwf
    exact childrenRead_cons (readable e hwf.1) e.one_le_strength (childrenRead es hwf.2)

end

end Expr

end Splice
