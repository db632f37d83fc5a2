import Splice.Compile
import Splice.Proofs.Token.Places
import Splice.Proofs.Tree.Legible
import Splice.Proofs.Tree.Simulation

/-! Positions are exact.  The tokens of a text stand in order at the places that they name and
leave nothing out but blanks and comments, and every fault of a text names the place where it
shows. -/
namespace Splice

open Text (byteLength)

theorem Text.byteLength_le_of_prefix {cs ds : List Char} (h : cs <+: ds) :
    byteLength cs ≤ byteLength ds := by
  obtain ⟨rest, rfl⟩ := h
  rw [byteLength_append]
  exact Nat.le_add_right _ _

theorem Text.byteLength_append_lt {cs ds : List Char} (h : ds ≠ []) :
    byteLength cs < byteLength (cs ++ ds) := by
  obtain ⟨d, ds, rfl⟩ := List.exists_cons_of_ne_nil h
  have hd := d.utf8Size_pos
  rw [byteLength_append, byteLength_cons]
  omega

namespace Token

variable {before text : List Char} {tokens : List Token}

/-- A token is written in a text, at the place that it names. -/
def StandsIn (token : Token) (text : List Char) : Prop :=
  ∃ before written after, text = before ++ (written ++ after) ∧
    token.toPlace = .after before written ∧ token.IsWritten written

def Outside (tokens : List Token) (offset : Nat) : Prop :=
  ∀ token ∈ tokens, ¬ (token.span.start ≤ offset ∧ offset < token.span.stop)

/-- A comment between tokens: it runs from its mark to the end of the line. -/
structure IsComment (tokens : List Token) (text before comment : List Char) : Prop where
  marked : comment.head? = some '#'
  inLine : '\n' ∉ comment
  toLineEnd : ∃ after, text = before ++ (comment ++ after) ∧ ∀ c ∈ after.head?, c = '\n'
  between : ∀ token ∈ tokens, token.span.stop ≤ byteLength before ∨
    byteLength (before ++ comment) ≤ token.span.start

/-- The tokens stand in order in a text, and what they leave out is blank or in a comment. -/
structure Exact (text : List Char) (tokens : List Token) : Prop where
  ordered : tokens.Pairwise fun first second => first.span.stop ≤ second.span.start
  stands : ∀ token ∈ tokens, token.StandsIn text
  complete : ∀ before c after, text = before ++ c :: after → Outside tokens (byteLength before) →
    Text.isBlank c = true ∨ ∃ first comment, IsComment tokens text first comment ∧
      first <+: before ∧ before.length < (first ++ comment).length

namespace Cover

theorem starts (h : Cover before text tokens) :
    ∀ token ∈ tokens, byteLength before ≤ token.span.start := by
  induction h with
  | done => simp
  | blank _ _ ih =>
    intro token htoken
    exact Nat.le_trans (Text.byteLength_le_of_prefix (List.prefix_append _ _)) (ih token htoken)
  | comment _ _ _ ih =>
    intro token htoken
    exact Nat.le_trans (Text.byteLength_le_of_prefix (List.prefix_append _ _)) (ih token htoken)
  | token hplace _ _ ih =>
    rintro other (_ | ⟨_, hother⟩)
    · exact Nat.le_of_eq (congrArg (·.span.start) hplace).symm
    · exact Nat.le_trans (Text.byteLength_le_of_prefix (List.prefix_append _ _)) (ih other hother)

theorem ordered (h : Cover before text tokens) :
    tokens.Pairwise fun first second => first.span.stop ≤ second.span.start := by
  induction h with
  | done => exact .nil
  | blank _ _ ih => exact ih
  | comment _ _ _ ih => exact ih
  | token hplace _ hrest ih =>
    refine .cons (fun other hother => ?_) ih
    exact Nat.le_trans (Nat.le_of_eq (congrArg (·.span.stop) hplace)) (hrest.starts other hother)

theorem stands (h : Cover before text tokens) :
    ∀ token ∈ tokens, token.StandsIn (before ++ text) := by
  induction h with
  | done => simp
  | blank _ _ ih => simpa using ih
  | comment _ _ _ ih => simpa using ih
  | @token before written cs token tokens hplace hwritten _ ih =>
    rintro other (_ | ⟨_, hother⟩)
    · exact ⟨before, written, cs, rfl, hplace, hwritten⟩
    · simpa using ih other hother

end Cover

/-- The character after `before ++ first` is in a comment of the part that stands after `before`. -/
def Commented (tokens : List Token) (before text first : List Char) : Prop :=
  ∃ lead comment, IsComment tokens (before ++ text) (before ++ lead) comment ∧
    lead <+: first ∧ first.length < (lead ++ comment).length

theorem Commented.stretch {stretch rest first : List Char}
    (h : Commented tokens (before ++ stretch) rest first) :
    Commented tokens before (stretch ++ rest) (stretch ++ first) := by
  obtain ⟨lead, comment, hcomment, hlead, hlength⟩ := h
  refine ⟨stretch ++ lead, comment, ?_, (List.prefix_append_right_inj stretch).mpr hlead, ?_⟩
  · simpa only [List.append_assoc] using hcomment
  · simp only [List.length_append] at hlength ⊢
    omega

theorem Commented.cons {token : Token} {first : List Char} (h : Commented tokens before text first)
    (hstop : token.span.stop ≤ byteLength before) :
    Commented (token :: tokens) before text first := by
  obtain ⟨lead, comment, hcomment, hlead, hlength⟩ := h
  refine ⟨lead, comment, ⟨hcomment.marked, hcomment.inLine, hcomment.toLineEnd, ?_⟩, hlead, hlength⟩
  rintro other (_ | ⟨_, hother⟩)
  · left
    exact Nat.le_trans hstop (Text.byteLength_le_of_prefix (List.prefix_append _ _))
  · exact hcomment.between other hother

theorem stretch_cases {stretch rest first after : List Char} {c : Char}
    (h : stretch ++ rest = first ++ c :: after) :
    (∃ more, more ≠ [] ∧ stretch = first ++ more) ∨
      ∃ later, first = stretch ++ later ∧ rest = later ++ c :: after := by
  rcases List.append_eq_append_iff.mp h with ⟨later, hfirst, hrest⟩ | ⟨more, hstretch, hrest⟩
  · exact .inr ⟨later, hfirst, hrest⟩
  · cases more with
    | nil =>
      rw [List.append_nil] at hstretch
      exact .inr ⟨[], by rw [hstretch, List.append_nil], hrest.symm⟩
    | cons d more => exact .inl ⟨d :: more, List.cons_ne_nil _ _, hstretch⟩

/-- What the tokens of a part of a text leave out of it is blank or in a comment. -/
theorem Cover.complete (h : Cover before text tokens) {first after : List Char} {c : Char}
    (htext : text = first ++ c :: after)
    (houtside : Outside tokens (byteLength (before ++ first))) :
    Text.isBlank c = true ∨ Commented tokens before text first := by
  induction h generalizing first with
  | done => simp at htext
  | @blank before cs d tokens hd hrest ih =>
    cases first with
    | nil =>
      left
      rw [← (List.cons.inj htext).1]
      exact hd
    | cons e first =>
      obtain ⟨rfl, hcs⟩ := List.cons.inj htext
      rw [List.append_cons] at houtside
      exact (ih hcs houtside).imp_right .stretch
  | @comment before body cs tokens hbody hend hrest ih =>
    rcases stretch_cases htext with ⟨more, hmore, hcomment⟩ | ⟨later, rfl, hcs⟩
    · right
      refine ⟨[], '#' :: body,
        ⟨rfl, by simpa using hbody, ⟨cs, by simp, hend⟩, fun token htoken => ?_⟩,
        List.nil_prefix, ?_⟩
      · right
        rw [List.append_nil]
        exact hrest.starts token htoken
      · rw [List.nil_append, hcomment, List.length_append]
        exact Nat.lt_add_of_pos_right (List.length_pos_iff.mpr hmore)
    · rw [← List.append_assoc] at houtside
      exact (ih hcs houtside).imp_right .stretch
  | @token before written cs token tokens hplace hwritten hrest ih =>
    have hstart : token.span.start = byteLength before := congrArg (·.span.start) hplace
    have hstop : token.span.stop = byteLength (before ++ written) := congrArg (·.span.stop) hplace
    rcases stretch_cases htext with ⟨more, hmore, rfl⟩ | ⟨later, rfl, hcs⟩
    · -- The token itself holds the character.
      refine absurd ⟨?_, ?_⟩ (houtside token List.mem_cons_self)
      · rw [hstart]
        exact Text.byteLength_le_of_prefix (List.prefix_append _ _)
      · rw [hstop, ← List.append_assoc]
        exact Text.byteLength_append_lt hmore
    · rw [← List.append_assoc] at houtside
      have hothers : Outside tokens (byteLength (before ++ written ++ later)) :=
        fun other hother => houtside other (List.mem_cons_of_mem _ hother)
      refine (ih hcs hothers).imp_right fun hcommented => ?_
      exact (hcommented.cons (Nat.le_of_eq hstop)).stretch

theorem ofSource_exact {source : String} (h : ofSource source = .ok tokens)
    (hsize : source.utf8ByteSize < Span.limit) : Exact source.toList tokens := by
  have hcover := ofSource_covers h hsize
  exact ⟨hcover.ordered, hcover.stands, fun first c after htext => hcover.complete htext⟩

end Token

/-- The tokens from the cursor on are some of `tokens`, up to the end of input. -/
def Cursor.Over (tokens : List Token) (c : Cursor) : Prop :=
  c.Ended ∧ ∀ token ∈ c.here :: c.after, token ∈ tokens

theorem Cursor.Over.advance {tokens : List Token} {c : Cursor} (h : c.Over tokens) :
    c.advance.Over tokens := by
  refine ⟨h.1.advance, ?_⟩
  rcases c.advance_cases with hstay | ⟨next, later, hafter, hmove⟩
  · rw [hstay]
    exact h.2
  · rw [hmove]
    intro token htoken
    apply h.2
    rw [hafter]
    exact List.mem_cons_of_mem _ htoken

def Parser.Simulation.still (tokens : List Token) : Simulation where
  Reached := Cursor.Over tokens
  Paired n c d := d = c ∧ c.nesting = n ∧ c.Over tokens
  ended h := h.1
  reached_advance := Cursor.Over.advance
  reached h := h.2.2
  nesting_eq := by
    rintro n c _ ⟨rfl, hnesting, -⟩
    exact ⟨hnesting, hnesting⟩
  paired_within := by
    rintro n c _ m ⟨rfl, -, h⟩
    exact ⟨rfl, rfl, h⟩
  word_eq := by
    rintro n c _ ⟨rfl, -⟩ -
    rfl
  ends := by
    rintro n c _ ⟨rfl, -⟩ hends
    exact .inl hends
  afterDedent := by
    rintro n c _ ⟨rfl, -⟩ hdedent
    exact hdedent
  paired_advance := by
    rintro n c _ ⟨rfl, hnesting, h⟩ - - -
    exact ⟨rfl, (Cursor.nesting_advance _).trans hnesting, h.advance⟩
  paired_skip := by
    rintro n c _ ⟨rfl, hnesting, h⟩ -
    exact ⟨⟨rfl, (Cursor.nesting_skipNewlines _).trans hnesting,
      Cursor.skipNewlines_induction (fun _ _ => Cursor.Over.advance) h⟩, rfl⟩
  no_otherwise := by
    rintro n c _ ⟨rfl, -⟩ hend
    simp [hend]
  paired_block := by
    rintro n c _ ⟨rfl, hnesting, h⟩ hbreak -
    refine ⟨hbreak, rfl, ?_,
      Cursor.skipNewlines_induction (fun _ _ => Cursor.Over.advance) h.advance⟩
    rw [Cursor.nesting_skipNewlines, Cursor.nesting_advance, hnesting]

theorem Program.ofTokens_fault {tokens : List Token} {fault : ParseFault}
    (hsound : Token.Sound tokens) (h : Program.ofTokens tokens = .error fault) :
    ∃ token ∈ tokens, fault.place = token.toPlace ∧ fault.found = token.kind := by
  have hover : (Cursor.ofTokens tokens).Over tokens := by
    refine ⟨Cursor.ended_ofTokens tokens, ?_⟩
    rw [Cursor.here_cons_after_ofTokens hsound]
    exact fun token htoken => htoken
  unfold Program.ofTokens at h
  dsimp only at h
  cases hrun : Parser.statements false (Parser.boundFor (Cursor.ofTokens tokens))
    (Cursor.ofTokens tokens) with
  | ok pair =>
    rw [hrun] at h
    cases h
  | error first =>
    rw [hrun] at h
    cases h
    obtain ⟨c, cause, hreached, rfl⟩ :=
      (Parser.Simulation.still tokens).statements_fails ⟨rfl, rfl, hover⟩ hrun
    exact ⟨c.here, hreached.2 c.here List.mem_cons_self, rfl, rfl⟩

def CompileFault.Shows (fault : CompileFault) (text : List Char) : Prop :=
  match fault with
  | .scan fault => fault.Shows text
  | .parse fault => ∃ before written after,
      text = before ++ (written ++ after) ∧ fault.place = .after before written

/-- A text of less than four gigabytes that is not compiled has a fault, which shows in it. -/
theorem shows_of_compile {source : String} {halt : Halt CompileFault}
    (h : compile source = .error halt) (hsize : source.utf8ByteSize < Span.limit) :
    ∃ fault, halt = .fault fault ∧ fault.Shows source.toList := by
  unfold compile at h
  cases hscan : Token.ofSource source with
  | error first =>
    rw [hscan] at h
    cases h
    cases first with
    | crash => exact absurd hscan (Token.ofSource_ne_crash hsize)
    | fault first => exact ⟨.scan first, rfl, Token.ofSource_shows hscan hsize⟩
  | ok tokens =>
    rw [hscan] at h
    cases hparse : Program.ofTokens tokens with
    | ok program =>
      simp only [hparse] at h
      cases h
    | error first =>
      simp only [hparse] at h
      cases h
      obtain ⟨token, htoken, hplace, -⟩ :=
        Program.ofTokens_fault (Token.ofSource_sound hscan) hparse
      obtain ⟨before, written, after, htext, hat, -⟩ :=
        (Token.ofSource_exact hscan hsize).stands token htoken
      exact ⟨.parse first, rfl, before, written, after, htext, hplace.trans hat⟩

/-- A text of less than four gigabytes has exact tokens, and every fault names its place. -/
theorem positions_exact (source : String) (hsize : source.utf8ByteSize < Span.limit) :
    (∀ tokens, Token.ofSource source = .ok tokens → Token.Exact source.toList tokens) ∧
      ∀ halt, compile source = .error halt →
        ∃ fault, halt = .fault fault ∧ fault.Shows source.toList :=
  ⟨fun _ htokens => Token.ofSource_exact htokens hsize, fun _ h => shows_of_compile h hsize⟩

theorem positions_exact_indented :
    (∃ tokens : List Token, Token.ofSource "1\n # é\n  2" = .ok tokens ∧ tokens.length = 7 ∧
      Token.Exact "1\n # é\n  2".toList tokens) ∧
    compile "1\n # é\n  2" =
      .error (.fault (.parse ⟨.unexpectedToken .indent, ⟨3, 3, ⟨10, 10⟩⟩, .indent⟩)) ∧
    (CompileFault.parse ⟨.unexpectedToken .indent, ⟨3, 3, ⟨10, 10⟩⟩, .indent⟩).Shows
      "1\n # é\n  2".toList := by
  have hsize : "1\n # é\n  2".utf8ByteSize < Span.limit := by decide
  have htokens : Token.ofSource "1\n # é\n  2" = .ok
      [⟨⟨1, 1, ⟨0, 1⟩⟩, .number, "1"⟩, ⟨⟨1, 2, ⟨1, 2⟩⟩, .newline, "\n"⟩,
        ⟨⟨2, 5, ⟨7, 8⟩⟩, .newline, "\n"⟩, ⟨⟨3, 3, ⟨10, 10⟩⟩, .indent, ""⟩,
        ⟨⟨3, 3, ⟨10, 11⟩⟩, .number, "2"⟩, ⟨⟨3, 4, ⟨11, 11⟩⟩, .dedent, ""⟩,
        ⟨⟨3, 4, ⟨11, 11⟩⟩, .endOfInput, ""⟩] := by cbv
  have hfault : compile "1\n # é\n  2" =
      .error (.fault (.parse ⟨.unexpectedToken .indent, ⟨3, 3, ⟨10, 10⟩⟩, .indent⟩)) := by
    unfold compile
    rw [htokens]
    rfl
  obtain ⟨_, ⟨⟩, hshows⟩ := (positions_exact _ hsize).2 _ hfault
  exact ⟨⟨_, htokens, rfl, (positions_exact _ hsize).1 _ htokens⟩, hfault, hshows⟩

end Splice
