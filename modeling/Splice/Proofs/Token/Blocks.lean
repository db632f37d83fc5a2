import Mathlib
import Splice.Proofs.Token.Shape

/-! How the tokens of a text mark its blocks.  The kinds of the tokens follow a small grammar of
lines, and every fact about where blocks open and close is read off that grammar. -/
namespace Splice

def Kind.isShift : Kind → Bool
  | .indent | .dedent => true
  | _ => false

def Kind.closing (count : Nat) : List Kind :=
  List.replicate count .dedent ++ [.endOfInput]

theorem Kind.count_closing (count : Nat) : (closing count).count .dedent = count ∧
    (closing count).count .indent = 0 ∧ (closing count).count .newline = 0 := by
  simp [closing, List.count_replicate]

theorem Kind.isLayout_of_isShift {kind : Kind} (h : kind.isShift = true) :
    kind.isLayout = true := by
  cases kind <;> first | rfl | cases h

theorem Layout.depth_closeTo_le (layout : Layout) (width : Nat) :
    (layout.closeTo width).depth ≤ layout.depth :=
  (List.dropWhile_sublist _).length_le

namespace Token

/-- The kinds of one line, which leads from a depth of open blocks to another. -/
inductive LineKinds : Nat → Nat → List Kind → Prop where
  | blank (depth : Nat) : LineKinds depth depth []
  | opens (depth : Nat) {words : List Kind} (hne : words ≠ [])
      (hwords : ∀ k ∈ words, k.isLayout = false) :
      LineKinds depth (depth + 1) (.indent :: words)
  | closes (depth count : Nat) {words : List Kind} (hne : words ≠ [])
      (hwords : ∀ k ∈ words, k.isLayout = false) :
      LineKinds (depth + count) depth (List.replicate count .dedent ++ words)

/-- The kinds of a text with so many line breaks, from the start of a line at a depth. -/
inductive TextKinds : Nat → Nat → List Kind → Prop where
  | last {depth final : Nat} {line : List Kind} (hline : LineKinds depth final line) :
      TextKinds depth 0 (line ++ Kind.closing final)
  | next {depth moved breaks : Nat} {line later : List Kind} (hline : LineKinds depth moved line)
      (hlater : TextKinds moved breaks later) :
      TextKinds depth (breaks + 1) (line ++ .newline :: later)

theorem ofLine_kinds {layout moved : Layout} {line offset : Nat} {cs : List Char}
    {tokens : List Token} (h : ofLine layout line offset cs = .ok (tokens, moved)) :
    LineKinds layout.depth moved.depth (tokens.map (·.kind)) := by
  unfold ofLine at h
  split at h
  · cases h
    exact .blank _
  rename_i hblank
  simp only [bind, Except.bind] at h
  split at h
  · cases h
  rename_i marks hmarks
  split at h
  · cases h
  rename_i lineTokens hscan
  cases h
  have hne : lineTokens.map (·.kind) ≠ [] := by
    simpa using Line.scan_ne_nil hscan (by simpa using hblank)
  have hwords : ∀ k ∈ lineTokens.map (·.kind), k.isLayout = false := by
    intro k hk
    obtain ⟨token, htoken, rfl⟩ := List.mem_map.mp hk
    exact (Line.scan_isSpelled hscan token htoken).2
  rw [List.map_append]
  unfold Layout.moveTo at hmarks ⊢
  split at hmarks
  · rename_i hdeeper
    rw [if_pos hdeeper]
    cases hmarks
    exact .opens _ hne hwords
  · rename_i hdeeper
    rw [if_neg hdeeper]
    dsimp only at hmarks ⊢
    split at hmarks
    · rename_i hopen
      rw [if_pos hopen]
      cases hmarks
      have hle := layout.depth_closeTo_le (Layout.measure (cs.takeWhile Layout.isIndent))
      have hline := LineKinds.closes (layout.closeTo (Layout.measure
        (cs.takeWhile Layout.isIndent))).depth (layout.depth - (layout.closeTo (Layout.measure
        (cs.takeWhile Layout.isIndent))).depth) hne hwords
      rw [Nat.add_sub_cancel' hle] at hline
      rw [List.map_replicate]
      exact hline
    · cases hmarks

theorem ofLines_kinds {layout : Layout} {line offset : Nat} {cs : List Char}
    {later : List (List Char)} {tokens : List Token}
    (h : ofLines layout line offset cs later = .ok tokens) :
    TextKinds layout.depth later.length (tokens.map (·.kind)) := by
  induction later generalizing layout line offset cs tokens with
  | nil =>
    obtain ⟨own, moved, hline, rfl⟩ := ofLines_cases h
    rw [List.map_append, closing_eq, List.map_append, List.map_replicate]
    exact .last (ofLine_kinds hline)
  | cons next more ih =>
    obtain ⟨own, moved, hline, span, -, rest, hrest, rfl⟩ := ofLines_cases h
    rw [List.map_append]
    exact .next (ofLine_kinds hline) (ih hrest)

end Token

theorem Text.length_cut (cs : List Char) : (Text.cut cs).2.length = cs.count '\n' := by
  induction cs with
  | nil => rfl
  | cons c cs ih =>
    by_cases hc : c = '\n'
    · subst hc
      rw [List.count_cons_self, ← ih]
      rfl
    · rw [Text.cut_cons hc, List.count_cons_of_ne hc, ih]

namespace Token

theorem count_words {words : List Kind} (hwords : ∀ k ∈ words, k.isLayout = false) (kind : Kind)
    (hkind : kind.isLayout = true) : words.count kind = 0 := by
  refine List.count_eq_zero.mpr fun hmem => ?_
  rw [hwords _ hmem] at hkind
  cases hkind

theorem LineKinds.count_shifts {depth moved : Nat} {line : List Kind}
    (h : LineKinds depth moved line) :
    line.count .dedent + moved = line.count .indent + depth ∧ line.count .dedent ≤ depth := by
  cases h with
  | blank depth => simp
  | opens depth hne hwords =>
    have hindent := count_words hwords .indent rfl
    have hdedent := count_words hwords .dedent rfl
    simp [hindent, hdedent]
    omega
  | closes depth count hne hwords =>
    have hindent := count_words hwords .indent rfl
    have hdedent := count_words hwords .dedent rfl
    simp [hindent, hdedent, List.count_replicate]
    omega

theorem LineKinds.notMem {depth moved : Nat} {line : List Kind} (h : LineKinds depth moved line)
    {k : Kind} (hlayout : k.isLayout = true) (hshift : k.isShift = false) : k ∉ line := by
  have hindent : k ≠ .indent := by rintro rfl; cases hshift
  have hdedent : k ≠ .dedent := by rintro rfl; cases hshift
  have hword {words : List Kind} (hwords : ∀ k ∈ words, k.isLayout = false) : k ∉ words :=
    List.count_eq_zero.mp (count_words hwords k hlayout)
  cases h with
  | blank depth => simp
  | opens depth hne hwords => simp [hindent, hword hwords]
  | closes depth count hne hwords => simp [hdedent, hword hwords]

theorem TextKinds.count_shifts {depth breaks : Nat} {kinds : List Kind}
    (h : TextKinds depth breaks kinds) : kinds.count .dedent = kinds.count .indent + depth := by
  induction h with
  | @last depth final line hline =>
    have hshifts := hline.count_shifts.1
    obtain ⟨hdedent, hindent, -⟩ := Kind.count_closing final
    rw [List.count_append, List.count_append]
    omega
  | next hline _ ih =>
    have hshifts := hline.count_shifts.1
    simp [ih]
    omega

theorem TextKinds.count_newline {depth breaks : Nat} {kinds : List Kind}
    (h : TextKinds depth breaks kinds) : kinds.count .newline = breaks := by
  induction h with
  | @last depth final line hline =>
    have hline := List.count_eq_zero.mpr (hline.notMem (k := .newline) rfl rfl)
    rw [List.count_append, hline, (Kind.count_closing final).2.2]
  | next hline _ ih =>
    have hline := List.count_eq_zero.mpr (hline.notMem (k := .newline) rfl rfl)
    simp [hline, ih]

theorem TextKinds.count_prefix {depth breaks : Nat} {kinds : List Kind}
    (h : TextKinds depth breaks kinds) {first : List Kind} (hfirst : first <+: kinds) :
    first.count .dedent ≤ first.count .indent + depth := by
  induction h generalizing first with
  | @last depth final line hline =>
    obtain ⟨hshifts, hdepth⟩ := hline.count_shifts
    rcases List.prefix_or_prefix_of_prefix hfirst (List.prefix_append line _) with
      hinside | ⟨more, rfl⟩
    · have hle := hinside.sublist.count_le .dedent
      omega
    · have hmore := (List.prefix_append_right_inj line).mp hfirst
      have hle := hmore.sublist.count_le .dedent
      rw [(Kind.count_closing final).1] at hle
      rw [List.count_append, List.count_append]
      omega
  | @next depth moved breaks line later hline _ ih =>
    obtain ⟨hshifts, hdepth⟩ := hline.count_shifts
    rcases List.prefix_or_prefix_of_prefix hfirst (List.prefix_append line _) with
      hinside | ⟨more, rfl⟩
    · have hle := hinside.sublist.count_le .dedent
      omega
    · rcases List.prefix_cons_iff.mp ((List.prefix_append_right_inj line).mp hfirst) with
        rfl | ⟨more, rfl, hmore⟩
      · simp
        omega
      · have hle := ih hmore
        simp
        omega

end Token

/-- Which kinds may stand side by side before the dedents that end a text. -/
structure Kind.Leads (k next : Kind) : Prop where
  afterIndent : k = .indent → next.isLayout = false
  afterDedent : k = .dedent → next ≠ .newline ∧ next ≠ .indent
  beforeIndent : next = .indent → k = .newline
  beforeDedent : next = .dedent → k = .newline ∨ k = .dedent

theorem Kind.Leads.word (k : Kind) {next : Kind} (h : next.isLayout = false) : k.Leads next where
  afterIndent _ := h
  afterDedent _ := by
    constructor <;> rintro rfl <;> cases h
  beforeIndent := by rintro rfl; cases h
  beforeDedent := by rintro rfl; cases h

namespace Token

theorem chain_words {words : List Kind} (hwords : ∀ k ∈ words, k.isLayout = false) :
    words.IsChain Kind.Leads :=
  (List.pairwise_of_forall_mem_list fun _ _ _ hnext => .word _ (hwords _ hnext)).isChain

theorem LineKinds.chain {depth moved : Nat} {line : List Kind} (h : LineKinds depth moved line) :
    (.newline :: line).IsChain Kind.Leads ∧
      ∀ k ∈ (Kind.newline :: line).getLast?, k.isShift = false := by
  have hlast {words : List Kind} (hne : words ≠ []) (hwords : ∀ k ∈ words, k.isLayout = false) :
      ∀ k ∈ words.getLast?, k.isShift = false := by
    intro k hk
    have hword := hwords k (List.mem_of_getLast? hk)
    cases hshift : k.isShift with
    | false => rfl
    | true =>
      rw [Kind.isLayout_of_isShift hshift] at hword
      cases hword
  cases h with
  | blank depth => exact ⟨List.isChain_singleton _, by rintro k ⟨⟩; rfl⟩
  | opens depth hne hwords =>
    obtain ⟨word, later, rfl⟩ := List.exists_cons_of_ne_nil hne
    have hword := hwords word List.mem_cons_self
    refine ⟨.cons_cons ⟨nofun, nofun, fun _ => rfl, nofun⟩ ?_, ?_⟩
    · exact .cons_cons (.word _ hword) (chain_words hwords)
    · simpa using hlast hne hwords
  | closes depth count hne hwords =>
    refine ⟨?_, ?_⟩
    · rw [← List.cons_append]
      refine List.IsChain.append (List.IsChain.cons ?_ ?_) (chain_words hwords) ?_
      · exact List.isChain_replicate_of_rel count ⟨nofun, by simp, nofun, fun _ => .inr rfl⟩
      · intro k hk
        obtain rfl := List.eq_of_mem_replicate (List.mem_of_mem_head? hk)
        exact ⟨nofun, nofun, nofun, fun _ => .inl rfl⟩
      · intro k _ next hnext
        exact .word k (hwords next (List.mem_of_mem_head? hnext))
    · rw [← List.cons_append, List.getLast?_append_of_ne_nil _ hne]
      exact hlast hne hwords

/-- A text is its lines up to the last word or break, the dedents that close the blocks still open,
and the end of input. -/
theorem TextKinds.ending {depth breaks : Nat} {kinds : List Kind}
    (h : TextKinds depth breaks kinds) : ∃ body count,
      kinds = body ++ Kind.closing count ∧ (.newline :: body).IsChain Kind.Leads ∧
      (∀ k ∈ (Kind.newline :: body).getLast?, k.isShift = false) ∧ .endOfInput ∉ body := by
  induction h with
  | @last depth final line hline =>
    obtain ⟨hchain, hlast⟩ := hline.chain
    exact ⟨line, final, rfl, hchain, hlast, hline.notMem rfl rfl⟩
  | @next depth moved breaks line later hline _ ih =>
    obtain ⟨body, count, rfl, hbody, hbodyLast, hbodyEnd⟩ := ih
    obtain ⟨hchain, hlast⟩ := hline.chain
    refine ⟨line ++ .newline :: body, count, by simp, ?_, ?_, ?_⟩
    · rw [← List.cons_append]
      refine hchain.append hbody fun k hk next hnext => ?_
      obtain rfl : Kind.newline = next := by simpa using hnext
      have hshift := hlast k hk
      refine ⟨?_, ?_, nofun, nofun⟩ <;> rintro rfl <;> cases hshift
    · rw [← List.cons_append, List.getLast?_append_of_ne_nil _ (List.cons_ne_nil _ _)]
      exact hbodyLast
    · have hlineEnd : Kind.endOfInput ∉ line := hline.notMem rfl rfl
      simp [hlineEnd, hbodyEnd]

end Token

/-- A longest stretch of kinds that open or close blocks. -/
structure Kind.LongestRun (kinds before run after : List Kind) : Prop where
  split : kinds = before ++ (run ++ after)
  nonempty : run ≠ []
  shifts : ∀ k ∈ run, k.isShift = true
  left : ∀ k ∈ before.getLast?, k.isShift = false
  right : ∀ k ∈ after.head?, k.isShift = false

namespace Kind

/-- A run of shifts at the start of the dedents that end a text is all of them. -/
theorem eq_of_run_append {run after : List Kind} {count : Nat}
    (h : run ++ after = closing count)
    (hshifts : ∀ k ∈ run, k.isShift = true) (hright : ∀ k ∈ after.head?, k.isShift = false) :
    run = List.replicate count .dedent ∧ after = [.endOfInput] := by
  rcases List.append_eq_append_iff.mp h with ⟨rest, hrest, rfl⟩ | ⟨rest, rfl, hrest⟩
  · cases rest with
    | nil => exact ⟨by simpa using hrest.symm, rfl⟩
    | cons k rest =>
      have hk : k = .dedent := List.eq_of_mem_replicate (n := count) (by simp [hrest])
      subst hk
      cases hright .dedent rfl
  · cases rest with
    | nil => exact ⟨by simp, by simpa using hrest.symm⟩
    | cons k rest =>
      injection hrest with hk
      subst hk
      cases hshifts .endOfInput (by simp)

theorem eq_dedent_of_chain {run : List Kind} (hchain : (.dedent :: run).IsChain Leads)
    (hshifts : ∀ k ∈ run, k.isShift = true) : ∀ k ∈ run, k = .dedent := by
  induction run with
  | nil => simp
  | cons next run ih =>
    obtain ⟨hlead, hrest⟩ := List.isChain_cons_cons.mp hchain
    have hnext : next = .dedent := by
      have hshift := hshifts next List.mem_cons_self
      cases next with
      | dedent => rfl
      | indent => exact absurd rfl (hlead.afterDedent rfl).2
      | _ => cases hshift
    subst hnext
    have hrun := ih hrest fun k hk => hshifts k (List.mem_cons_of_mem _ hk)
    simpa using hrun

/-- A run of shifts that starts inside a stretch with another kind at its end stays inside it. -/
theorem run_inside {run after rest tail : List Kind} (h : run ++ after = rest ++ tail)
    (hshifts : ∀ k ∈ run, k.isShift = true) (hne : rest ≠ [])
    (hlast : ∀ k ∈ rest.getLast?, k.isShift = false) :
    ∃ next later, rest = run ++ next :: later ∧ after.head? = some next := by
  have hend : rest.getLast hne ∉ run := by
    intro hmem
    have hshift := hlast _ (List.getLast?_eq_some_getLast hne)
    rw [hshifts _ hmem] at hshift
    cases hshift
  rcases List.append_eq_append_iff.mp h with ⟨more, rfl, rfl⟩ | ⟨more, rfl, -⟩
  · cases more with
    | nil => exact absurd (by simp) hend
    | cons next later => exact ⟨next, later, rfl, rfl⟩
  · exact absurd (List.mem_append_left _ (List.getLast_mem hne)) hend

/-- A run is one indent or all dedents, and after it comes a word or, behind dedents, the end. -/
theorem run_of_chain {run later : List Kind} {next : Kind} (hne : run ≠ [])
    (hshifts : ∀ k ∈ run, k.isShift = true) (hchain : (run ++ next :: later).IsChain Leads) :
    (run = [.indent] ∨ ∀ k ∈ run, k = .dedent) ∧ next ≠ .newline ∧
      (run = [.indent] → next ≠ .endOfInput) := by
  obtain ⟨r, more, rfl⟩ := List.exists_cons_of_ne_nil hne
  obtain ⟨hrun, -, hjoin⟩ := List.isChain_append.mp hchain
  have hshift := hshifts r List.mem_cons_self
  cases r with
  | indent =>
    cases more with
    | nil =>
      have hword := (hjoin .indent rfl next rfl).afterIndent rfl
      refine ⟨.inl rfl, ?_, fun _ => ?_⟩ <;> rintro rfl <;> cases hword
    | cons second more =>
      have hword := (List.isChain_cons_cons.mp hrun).1.afterIndent rfl
      rw [isLayout_of_isShift (hshifts second (by simp))] at hword
      cases hword
  | dedent =>
    have hall : ∀ k ∈ Kind.dedent :: more, k = .dedent := by
      simpa using eq_dedent_of_chain hrun fun k hk => hshifts k (List.mem_cons_of_mem _ hk)
    have hlast := List.getLast?_eq_some_getLast (List.cons_ne_nil Kind.dedent more)
    have hlead := hjoin _ hlast next rfl
    rw [hall _ (List.getLast_mem _)] at hlead
    exact ⟨.inr hall, (hlead.afterDedent rfl).1, by simp⟩
  | _ => cases hshift

theorem before_of_chain {before rest : List Kind} {r : Kind} (hshift : r.isShift = true)
    (hchain : (.newline :: (before ++ r :: rest)).IsChain Leads)
    (hleft : ∀ k ∈ before.getLast?, k.isShift = false) :
    before = [] ∨ before.getLast? = some .newline := by
  rw [← List.cons_append] at hchain
  rcases List.eq_nil_or_concat before with rfl | ⟨first, k, rfl⟩
  · exact .inl rfl
  · right
    rw [List.concat_eq_append] at hchain hleft ⊢
    have hlead := (List.isChain_append.mp hchain).2.2 k (by simp [List.getLast?_cons]) r rfl
    have hk := hleft k (by simp)
    cases r with
    | indent => simp [hlead.beforeIndent rfl]
    | dedent =>
      rcases hlead.beforeDedent rfl with rfl | rfl
      · simp
      · cases hk
    | _ => cases hshift

theorem LongestRun.start {body before run after : List Kind} {count : Nat}
    (h : LongestRun (body ++ closing count) before run after) :
    run ++ after = closing count ∨
      ∃ r rest, body = before ++ r :: rest ∧ run ++ after = r :: rest ++ closing count := by
  rcases List.append_eq_append_iff.mp h.split with ⟨more, hbefore, htail⟩ | ⟨rest, hbody, htail⟩
  · rcases List.eq_nil_or_concat more with rfl | ⟨first, k, rfl⟩
    · exact .inl htail.symm
    · -- The kind before the run would be one of the dedents.
      have hne : run ++ after ≠ [] := by simp [h.nonempty]
      have hdedents := congrArg List.dropLast htail
      rw [closing, List.dropLast_append_of_ne_nil hne, List.dropLast_concat] at hdedents
      have hk : k = .dedent := List.eq_of_mem_replicate (n := count) (by simp [hdedents])
      have hshift := h.left k (by simp [hbefore])
      rw [hk] at hshift
      cases hshift
  · cases rest with
    | nil => exact .inl htail
    | cons r rest => exact .inr ⟨r, rest, hbody, htail⟩

theorem LongestRun.shape {body before run after : List Kind} {count : Nat}
    (h : LongestRun (body ++ closing count) before run after)
    (hchain : (.newline :: body).IsChain Leads)
    (hlast : ∀ k ∈ (Kind.newline :: body).getLast?, k.isShift = false) :
    (run = [.indent] ∨ ∀ k ∈ run, k = .dedent) ∧
      (before = [] ∨ before.getLast? = some .newline ∨
        (∀ k ∈ run, k = .dedent) ∧ after = [.endOfInput]) ∧
      ∃ next, after.head? = some next ∧ next ≠ .newline ∧
        (run = [.indent] → next ≠ .endOfInput) := by
  rcases h.start with htail | ⟨r, rest, rfl, hrest⟩
  · obtain ⟨hrun, rfl⟩ := eq_of_run_append htail h.shifts h.right
    have hall : ∀ k ∈ run, k = .dedent := by
      rw [hrun]
      exact fun k hk => List.eq_of_mem_replicate hk
    refine ⟨.inr hall, .inr (.inr ⟨hall, rfl⟩), .endOfInput, rfl, nofun, ?_⟩
    rintro rfl
    cases hall .indent List.mem_cons_self
  · rw [← List.cons_append, List.getLast?_append_of_ne_nil _ (List.cons_ne_nil _ _)] at hlast
    obtain ⟨next, later, hinside, hnext⟩ :=
      run_inside hrest h.shifts (List.cons_ne_nil _ _) hlast
    have hr : r ∈ run := by
      obtain ⟨first, more, hfirst⟩ := List.exists_cons_of_ne_nil h.nonempty
      rw [hfirst] at hinside ⊢
      injection hinside with hr
      exact hr ▸ List.mem_cons_self
    have hstretch : (r :: rest).IsChain Leads := (hchain.tail).right_of_append
    rw [hinside] at hstretch
    obtain ⟨hkinds, hbreak, hend⟩ := run_of_chain h.nonempty h.shifts hstretch
    have hbefore := before_of_chain (h.shifts r hr) hchain h.left
    exact ⟨hkinds, hbefore.imp_right .inl, next, hnext, hbreak, hend⟩

end Kind

namespace Token

theorem ofList_ends {cs : List Char} {tokens : List Token} (h : ofList cs = .ok tokens) :
    ∃ body, tokens.map (·.kind) = body ++ [.endOfInput] ∧ .endOfInput ∉ body := by
  obtain ⟨body, count, hbody, -, -, hend⟩ := (ofLines_kinds h).ending
  exact ⟨body ++ List.replicate count .dedent, by simp [hbody, Kind.closing], by simp [hend]⟩

/-- The layout of every text that has tokens.  One end of input comes last.  Blocks are closed as
often as they are opened, and never before.  Each line break is a token.  A longest run of shifts is
one indent or all dedents; it starts a line, unless it closes the text; and what follows it is
neither a line break nor, after an indent, the end. -/
theorem ofSource_layout {source : String} {tokens : List Token}
    (h : ofSource source = .ok tokens) :
    (∃ body, tokens.map (·.kind) = body ++ [.endOfInput] ∧ .endOfInput ∉ body) ∧
    (tokens.map (·.kind)).count .indent = (tokens.map (·.kind)).count .dedent ∧
    (∀ first, first <+: tokens.map (·.kind) → first.count .dedent ≤ first.count .indent) ∧
    (tokens.map (·.kind)).count .newline = source.toList.count '\n' ∧
    ∀ before run after, Kind.LongestRun (tokens.map (·.kind)) before run after →
      (run = [.indent] ∨ ∀ k ∈ run, k = .dedent) ∧
      (before = [] ∨ before.getLast? = some .newline ∨
        (∀ k ∈ run, k = .dedent) ∧ after = [.endOfInput]) ∧
      ∃ next, after.head? = some next ∧ next ≠ .newline ∧
        (run = [.indent] → next ≠ .endOfInput) := by
  have hkinds : TextKinds 0 (Text.cut source.toList).2.length (tokens.map (·.kind)) :=
    ofLines_kinds h
  obtain ⟨body, count, hbody, hchain, hlast, -⟩ := hkinds.ending
  refine ⟨ofList_ends h, ?_, ?_, ?_, ?_⟩
  · exact hkinds.count_shifts.symm
  · exact fun first hfirst => hkinds.count_prefix hfirst
  · rw [hkinds.count_newline, Text.length_cut]
  · intro before run after hrun
    rw [hbody] at hrun
    exact hrun.shape hchain hlast

theorem ofSource_layout_two_blocks :
    ∃ tokens, ofSource "1\n 2\n\t3\n4" = .ok tokens ∧
      (tokens.map (·.kind)).count .indent = 2 ∧
      (tokens.map (·.kind)).count .indent = (tokens.map (·.kind)).count .dedent ∧
      ∃ before after, Kind.LongestRun (tokens.map (·.kind)) before [.dedent, .dedent] after ∧
        (before = [] ∨ before.getLast? = some .newline ∨
          (∀ k ∈ [Kind.dedent, .dedent], k = .dedent) ∧ after = [.endOfInput]) := by
  have hkinds : (ofSource "1\n 2\n\t3\n4").toOption.map (·.map (·.kind)) =
      some (([.number, .newline, .indent, .number, .newline, .indent, .number,
        .newline] : List Kind) ++
        (([.dedent, .dedent] : List Kind) ++ ([.number, .endOfInput] : List Kind))) := by
    cbv
  cases htokens : ofSource "1\n 2\n\t3\n4" with
  | error fault =>
    rw [htokens] at hkinds
    cases hkinds
  | ok tokens =>
    rw [htokens] at hkinds
    have hrun : Kind.LongestRun (tokens.map (·.kind)) _ _ _ :=
      ⟨Option.some.inj hkinds, by simp, by decide, by decide, by decide⟩
    have hlayout := ofSource_layout htokens
    refine ⟨tokens, rfl, ?_, hlayout.2.1, _, _, hrun, (hlayout.2.2.2.2 _ _ _ hrun).2.1⟩
    rw [hrun.split]
    decide

end Token

end Splice
