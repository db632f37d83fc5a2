import Splice.Proofs.Token.Places

/-! Scanning a line is longest-match scanning.  The rules for words, numbers, strings, comments and
symbols are written down as patterns; of all stretches that start at a position and that some rule
matches, the longest one is taken.  A line has no tokens exactly when a position is reached where no
rule matches anything. -/
namespace Splice.Line

/-- The shapes that the rules are written in. -/
inductive Pattern where
  | text (chars : List Char)
  | one (p : Char → Bool)
  /-- Any number of characters of a class. -/
  | many (p : Char → Bool)
  | seq (first second : Pattern)
  | alt (first second : Pattern)

namespace Pattern

def Matches : Pattern → List Char → Prop
  | text chars, cs => cs = chars
  | one p, cs => ∃ c ∈ cs, cs = [c] ∧ p c = true
  | many p, cs => ∀ c ∈ cs, p c = true
  | seq first second, cs => ∃ n ≤ cs.length, first.Matches (cs.take n) ∧ second.Matches (cs.drop n)
  | alt first second, cs => first.Matches cs ∨ second.Matches cs

instance decidableMatches : (pattern : Pattern) → (cs : List Char) → Decidable (pattern.Matches cs)
  | text chars, cs => inferInstanceAs (Decidable (cs = chars))
  -- Through the members of the stretch, never through all characters.
  | one p, cs => List.decidableBEx (fun c => cs = [c] ∧ p c = true) cs
  | many p, cs => List.decidableBAll (fun c => p c = true) cs
  | seq first second, cs =>
    have := fun n => decidableMatches first (cs.take n)
    have := fun n => decidableMatches second (cs.drop n)
    inferInstanceAs (Decidable (∃ n ≤ cs.length, first.Matches (cs.take n) ∧
      second.Matches (cs.drop n)))
  | alt first second, cs =>
    have := decidableMatches first cs
    have := decidableMatches second cs
    inferInstanceAs (Decidable (first.Matches cs ∨ second.Matches cs))

def run (p q : Char → Bool) : Pattern :=
  seq (one p) (many q)

def quoted (quote : Char) : Pattern :=
  seq (text [quote]) (seq (many fun c => c ≠ quote && c ≠ '\n') (text [quote]))

end Pattern

def isLetter (c : Char) : Bool :=
  ('A' ≤ c && c ≤ 'Z') || ('a' ≤ c && c ≤ 'z') || c == '_'

def isDecimal (c : Char) : Bool :=
  '0' ≤ c && c ≤ '9'

def isWordChar (c : Char) : Bool :=
  isLetter c || isDecimal c || c == '.'

inductive Rule where
  | word
  | number
  | string
  | comment
  | symbol (text : String) (kind : Kind)
  deriving DecidableEq, Repr

namespace Rule

def pattern : Rule → Pattern
  | word => .run isLetter isWordChar
  | number => .run isDecimal isDecimal
  | string => .alt (.quoted '"') (.quoted '\'')
  | comment => .run (· = '#') (· ≠ '\n')
  | symbol text _ => .text text.toList

/-- The kind and the text that a stretch stands for; a comment is dropped, and so are the quotes of
a string. -/
def reading : Rule → List Char → Option (Kind × List Char)
  | word, piece => some (Kind.ofWord (String.ofList piece), piece)
  | number, piece => some (.number, piece)
  | string, piece => some (.string, piece.tail.dropLast)
  | comment, _ => none
  | symbol _ kind, piece => some (kind, piece)

end Rule

def rules : List Rule :=
  [.word, .number, .string, .comment,
    .symbol "+" (.operator .add), .symbol "-" (.operator .sub), .symbol "*" (.operator .mul),
    .symbol "/" (.operator .div), .symbol "=" .assign, .symbol "==" (.operator .equal),
    .symbol "!=" (.operator .notEqual), .symbol "<" (.operator .less),
    .symbol ">" (.operator .greater), .symbol "(" .leftParen, .symbol ")" .rightParen,
    .symbol "," .comma, .symbol ":" .colon]

/-- The first `n` characters if a rule matches them, else a match of fewer. -/
def longestWithin (cs : List Char) : Nat → Option (Rule × List Char)
  | 0 => none
  | n + 1 =>
    match rules.find? fun rule => rule.pattern.Matches (cs.take (n + 1)) with
    | some rule => some (rule, cs.take (n + 1))
    | none => longestWithin cs n

/-- The longest stretch at the start of a text that a rule matches, with the rule. -/
def longest? (cs : List Char) : Option (Rule × List Char) :=
  longestWithin cs cs.length

/-- A rule that matches a stretch at the start of a text, such that no rule matches a longer one. -/
structure IsLongest (cs : List Char) (rule : Rule) (piece : List Char) : Prop where
  rule_mem : rule ∈ rules
  starts : piece <+: cs
  matched : rule.pattern.Matches piece
  nonempty : piece ≠ []
  longest : ∀ other ∈ rules, ∀ more, more <+: cs → other.pattern.Matches more →
    more.length ≤ piece.length

theorem longestWithin_eq_some {cs : List Char} {n : Nat} {rule : Rule} {piece : List Char}
    (h : longestWithin cs n = some (rule, piece)) :
    rule ∈ rules ∧ rule.pattern.Matches piece ∧ ∃ k, 0 < k ∧ k ≤ n ∧ piece = cs.take k ∧
      ∀ other ∈ rules, ∀ m, k < m → m ≤ n → ¬ other.pattern.Matches (cs.take m) := by
  induction n with
  | zero => cases h
  | succ n ih =>
    unfold longestWithin at h
    split at h
    next found hfound =>
      cases h
      have hmatched := List.find?_some hfound
      refine ⟨List.mem_of_find?_eq_some hfound, of_decide_eq_true hmatched, n + 1, Nat.succ_pos n,
        le_rfl, rfl, fun other _ m hlow hhigh => ?_⟩
      omega
    next hnone =>
      obtain ⟨hmem, hmatched, k, hpos, hk, hpiece, hlongest⟩ := ih h
      refine ⟨hmem, hmatched, k, hpos, Nat.le_succ_of_le hk, hpiece, ?_⟩
      intro other hother m hlow hhigh
      rcases Nat.lt_or_eq_of_le hhigh with hless | rfl
      · exact hlongest other hother m hlow (Nat.le_of_lt_succ hless)
      · simpa using List.find?_eq_none.mp hnone other hother

theorem longestWithin_eq_none {cs : List Char} {n : Nat} (h : longestWithin cs n = none) :
    ∀ rule ∈ rules, ∀ m, 0 < m → m ≤ n → ¬ rule.pattern.Matches (cs.take m) := by
  induction n with
  | zero =>
    intro rule _ m hpos hm
    omega
  | succ n ih =>
    unfold longestWithin at h
    split at h
    next => cases h
    next hnone =>
      intro rule hrule m hpos hm
      rcases Nat.lt_or_eq_of_le hm with hless | rfl
      · exact ih h rule hrule m hpos (Nat.le_of_lt_succ hless)
      · simpa using List.find?_eq_none.mp hnone rule hrule

theorem not_matches_nil : ∀ rule ∈ rules, ¬ rule.pattern.Matches [] := by
  decide

theorem isLongest_of_longest? {cs : List Char} {rule : Rule} {piece : List Char}
    (h : longest? cs = some (rule, piece)) : IsLongest cs rule piece := by
  obtain ⟨hmem, hmatched, k, hpos, hk, rfl, hlongest⟩ := longestWithin_eq_some h
  refine ⟨hmem, List.take_prefix k cs, hmatched, ?_, fun other hother more hmore hother' => ?_⟩
  · rintro hnil
    exact not_matches_nil rule hmem (hnil ▸ hmatched)
  · rw [List.length_take, min_eq_left hk]
    refine Nat.le_of_not_lt fun hlt => hlongest other hother more.length hlt hmore.length_le ?_
    rwa [← List.prefix_iff_eq_take.mp hmore]

example : longest? "ai.import x".toList = some (.word, "ai.import".toList) := by decide

theorem longest?_eq_none_iff {cs : List Char} :
    longest? cs = none ↔ ∀ rule ∈ rules, ∀ piece, piece <+: cs → ¬ rule.pattern.Matches piece := by
  constructor
  · intro h rule hrule piece hpiece hmatched
    have hpos : 0 < piece.length := by
      refine List.length_pos_iff.mpr fun hnil => ?_
      exact not_matches_nil rule hrule (hnil ▸ hmatched)
    refine longestWithin_eq_none h rule hrule piece.length hpos hpiece.length_le ?_
    rwa [← List.prefix_iff_eq_take.mp hpiece]
  · intro h
    cases hlongest : longest? cs with
    | none => rfl
    | some found =>
      have hfound := isLongest_of_longest? hlongest
      exact absurd hfound.matched (h _ hfound.rule_mem _ hfound.starts)

namespace Pattern

variable {p q : Char → Bool} {cs : List Char}

theorem matches_run : (run p q).Matches cs ↔
    ∃ c body, cs = c :: body ∧ p c = true ∧ ∀ d ∈ body, q d = true := by
  constructor
  · rintro ⟨n, hn, ⟨c, -, hc, hp⟩, hq⟩
    refine ⟨c, cs.drop n, ?_, hp, hq⟩
    conv => lhs; rw [← List.take_append_drop n cs, hc]
    rfl
  · rintro ⟨c, body, rfl, hp, hq⟩
    exact ⟨1, by simp, ⟨c, by simp, by simp, hp⟩, hq⟩

theorem matches_quoted {quote : Char} : (quoted quote).Matches cs ↔
    ∃ body, cs = quote :: (body ++ [quote]) ∧ ∀ d ∈ body, d ≠ quote ∧ d ≠ '\n' := by
  constructor
  · rintro ⟨n, hn, hopen, m, hm, hbody, hclose⟩
    refine ⟨(cs.drop n).take m, ?_, fun d hd => by simpa using hbody d hd⟩
    conv =>
      lhs
      rw [← List.take_append_drop n cs, ← List.take_append_drop m (cs.drop n),
        show cs.take n = [quote] from hopen, show (cs.drop n).drop m = [quote] from hclose]
    rfl
  · rintro ⟨body, rfl, hbody⟩
    refine ⟨1, by simp, rfl, body.length, by simp, ?_, ?_⟩
    · intro d hd
      simpa using hbody d (by simpa using hd)
    · show List.drop body.length _ = [quote]
      simp

end Pattern

theorem isLetter_eq : isLetter = isWordStart := by
  funext c
  rw [Bool.eq_iff_iff, isWordStart_iff]
  have hunderscore : c = '_' ↔ c.toNat = 95 := Char.toNat_inj.symm
  simp only [isLetter, Bool.or_eq_true, Bool.and_eq_true, decide_eq_true_eq, beq_iff_eq,
    Char.le_def, UInt32.le_iff_toNat_le, hunderscore, or_assoc]
  rfl

theorem isDecimal_eq : isDecimal = Char.isDigit := by
  funext c
  rw [Bool.eq_iff_iff, isDigit_iff]
  simp only [isDecimal, Bool.and_eq_true, decide_eq_true_eq, Char.le_def,
    UInt32.le_iff_toNat_le]
  rfl

theorem isWordChar_eq : isWordChar = isWordPart := by
  funext c
  unfold isWordChar isWordPart
  rw [isLetter_eq, isDecimal_eq]
  unfold isWordStart Char.isAlphanum
  cases c.isAlpha <;> cases c.isDigit <;> cases c == '_' <;> rfl

theorem matches_string {cs : List Char} : Rule.string.pattern.Matches cs ↔
    ∃ q body, isQuote q = true ∧ cs = q :: (body ++ [q]) ∧ ∀ d ∈ body, d ≠ q ∧ d ≠ '\n' := by
  refine (or_congr Pattern.matches_quoted Pattern.matches_quoted).trans ?_
  constructor
  · rintro (⟨body, hcs, hbody⟩ | ⟨body, hcs, hbody⟩)
    · exact ⟨_, body, by decide, hcs, hbody⟩
    · exact ⟨_, body, by decide, hcs, hbody⟩
  · rintro ⟨q, body, hq, hcs, hbody⟩
    simp only [isQuote, Bool.or_eq_true, beq_iff_eq] at hq
    rcases hq with rfl | rfl
    · exact .inl ⟨body, hcs, hbody⟩
    · exact .inr ⟨body, hcs, hbody⟩

theorem eq_takeWhile {p : Char → Bool} {body cs : List Char} (hbody : body <+: cs)
    (hall : ∀ d ∈ body, p d = true) (hle : (cs.takeWhile p).length ≤ body.length) :
    body = cs.takeWhile p := by
  obtain ⟨rest, rfl⟩ := hbody
  rw [List.takeWhile_append_of_pos hall, List.length_append] at hle
  rw [List.takeWhile_append_of_pos hall, List.length_eq_zero_iff.mp (by omega :
    (rest.takeWhile p).length = 0), List.append_nil]

def Rule.stretch (rule : Rule) (piece : List Char) : Stretch :=
  match rule.reading piece with
  | none => .comment
  | some (kind, text) => .token kind text

theorem symbol_cases {text : String} {kind : Kind} (h : Rule.symbol text kind ∈ rules) :
    (∃ c, text.toList = [c] ∧ symbol? c = some kind) ∨
      (text = "==" ∧ kind = .operator .equal) ∨ (text = "!=" ∧ kind = .operator .notEqual) := by
  simp only [rules, List.mem_cons, reduceCtorEq, Rule.symbol.injEq, false_or, List.not_mem_nil,
    or_false] at h
  rcases h with ⟨rfl, rfl⟩ | ⟨rfl, rfl⟩ | ⟨rfl, rfl⟩ | ⟨rfl, rfl⟩ | ⟨rfl, rfl⟩ | h | h |
    ⟨rfl, rfl⟩ | ⟨rfl, rfl⟩ | ⟨rfl, rfl⟩ | ⟨rfl, rfl⟩ | ⟨rfl, rfl⟩ | ⟨rfl, rfl⟩
  case inr.inr.inr.inr.inr.inl => exact .inr (.inl h)
  case inr.inr.inr.inr.inr.inr.inl => exact .inr (.inr h)
  all_goals exact .inl ⟨_, rfl, rfl⟩

theorem symbol_mem_rules {c : Char} {kind : Kind} (h : symbol? c = some kind) :
    Rule.symbol (String.singleton c) kind ∈ rules := by
  unfold symbol? at h
  split at h <;> cases h <;> decide

theorem closed_prefix {p : Char → Bool} {cs : List Char} {q : Char}
    (h : cs[(cs.takeWhile p).length]? = some q) : cs.takeWhile p ++ [q] <+: cs := by
  have htake : cs.take ((cs.takeWhile p).length + 1) = cs.takeWhile p ++ [q] := by
    rw [List.take_add_one, take_takeWhile, h]
    rfl
  rw [← htake]
  exact List.take_prefix _ _

theorem not_quote_of_mem_takeWhile (cs : List Char) (q : Char) :
    ∀ d ∈ cs.takeWhile (fun d => d ≠ q && d ≠ '\n'), d ≠ q ∧ d ≠ '\n' := by
  intro d hd
  simpa using List.mem_takeWhile_imp hd

theorem munch_of_no_match {c : Char} {cs : List Char} (hc : isGap c = false)
    (hnone : ∀ rule ∈ rules, ∀ piece, piece <+: c :: cs → ¬ rule.pattern.Matches piece) :
    munch c cs = none := by
  have hone (rule : Rule) (hrule : rule ∈ rules) : ¬ rule.pattern.Matches [c] :=
    hnone rule hrule [c] ⟨cs, rfl⟩
  have htwo {d : Char} (kind : Kind) (hrule : Rule.symbol (String.ofList [c, d]) kind ∈ rules) :
      cs.head? ≠ some d := by
    intro hd
    obtain ⟨later, rfl⟩ := List.head?_eq_some_iff.mp hd
    refine hnone _ hrule [c, d] ⟨later, rfl⟩ ?_
    exact String.toList_ofList.symm
  have hrun {p q : Char → Bool} (hp : p c = true) : (Pattern.run p q).Matches [c] :=
    Pattern.matches_run.mpr ⟨c, [], rfl, hp, List.forall_mem_nil _⟩
  by_cases hhash : c = '#'
  · exact absurd (hrun (decide_eq_true hhash)) (hone .comment (by decide))
  by_cases hword : isWordStart c = true
  · exact absurd (hrun (isLetter_eq ▸ hword)) (hone .word (by decide))
  by_cases hdigit : c.isDigit = true
  · exact absurd (hrun (isDecimal_eq ▸ hdigit)) (hone .number (by decide))
  by_cases hquote : isQuote c = true
  · rw [munch_quote hquote, if_neg]
    intro hclose
    refine hnone .string (by decide) _ (List.cons_prefix_cons.mpr ⟨rfl, closed_prefix hclose⟩) ?_
    exact matches_string.mpr ⟨c, _, hquote, rfl, not_quote_of_mem_takeWhile cs c⟩
  unfold munch
  rw [if_neg (by simp [hc]), if_neg hhash, if_neg hword, if_neg hdigit, if_neg hquote]
  split
  next hequal =>
    simp only [Bool.and_eq_true, decide_eq_true_eq] at hequal
    obtain ⟨rfl, hhead⟩ := hequal
    exact absurd hhead (htwo (.operator .equal) (by decide))
  split
  next hdifferent =>
    simp only [Bool.and_eq_true, decide_eq_true_eq] at hdifferent
    obtain ⟨rfl, hhead⟩ := hdifferent
    exact absurd hhead (htwo (.operator .notEqual) (by decide))
  cases hsymbol : symbol? c with
  | none => rfl
  | some kind => exact absurd (String.toList_singleton c).symm (hone _ (symbol_mem_rules hsymbol))

section Longest

variable {c : Char} {cs piece : List Char}

theorem IsLongest.run {rule : Rule} {p q : Char → Bool} (h : IsLongest (c :: cs) rule piece)
    (hrule : rule.pattern = .run p q) : p c = true ∧ piece = c :: cs.takeWhile q := by
  have hmatched := h.matched
  rw [hrule] at hmatched
  obtain ⟨_, body, rfl, hp, hbody⟩ := Pattern.matches_run.mp hmatched
  obtain ⟨rfl, hprefix⟩ := List.cons_prefix_cons.mp h.starts
  have hlongest := h.longest rule h.rule_mem (_ :: cs.takeWhile q)
    (List.cons_prefix_cons.mpr ⟨rfl, List.takeWhile_prefix _⟩) (by
      rw [hrule]
      exact Pattern.matches_run.mpr ⟨_, _, rfl, hp, fun d hd => List.mem_takeWhile_imp hd⟩)
  exact ⟨hp, congrArg _ (eq_takeWhile hprefix hbody (Nat.le_of_succ_le_succ hlongest))⟩

theorem munch_of_word (h : IsLongest (c :: cs) .word piece) :
    munch c cs = some (Rule.word.stretch piece, piece.length - 1) := by
  obtain ⟨hstart, rfl⟩ := h.run rfl
  rw [isLetter_eq] at hstart
  rw [munch_word hstart, isWordChar_eq]
  rfl

theorem munch_of_number (h : IsLongest (c :: cs) .number piece) :
    munch c cs = some (Rule.number.stretch piece, piece.length - 1) := by
  obtain ⟨hstart, rfl⟩ := h.run rfl
  rw [isDecimal_eq] at hstart ⊢
  rw [munch_digits hstart]
  rfl

theorem munch_of_comment (h : IsLongest (c :: cs) .comment piece) :
    munch c cs = some (Rule.comment.stretch piece, piece.length - 1) := by
  obtain ⟨hstart, rfl⟩ := h.run rfl
  obtain rfl : c = '#' := of_decide_eq_true hstart
  rfl

theorem munch_of_string (h : IsLongest (c :: cs) .string piece) :
    munch c cs = some (Rule.string.stretch piece, piece.length - 1) := by
  obtain ⟨q, body, hq, rfl, hbody⟩ := matches_string.mp h.matched
  obtain ⟨rfl, rest, rfl⟩ := List.cons_prefix_cons.mp h.starts
  have htake : (body ++ [q] ++ rest).takeWhile (fun d => d ≠ q && d ≠ '\n') = body := by
    rw [List.append_assoc]
    exact takeWhile_stretch (fun d hd => by simpa using hbody d hd) (by simp)
  rw [munch_quote hq, htake, if_pos (by simp)]
  simp [Rule.stretch, Rule.reading]

theorem munch_of_symbol {text : String} {kind : Kind}
    (h : IsLongest (c :: cs) (.symbol text kind) piece) :
    munch c cs = some ((Rule.symbol text kind).stretch piece, piece.length - 1) := by
  have hstarts := h.starts
  obtain rfl : piece = text.toList := h.matched
  rcases symbol_cases h.rule_mem with ⟨d, htext, hsymbol⟩ | ⟨rfl, rfl⟩ | ⟨rfl, rfl⟩
  · rw [htext] at hstarts ⊢
    obtain ⟨rfl, -⟩ := List.cons_prefix_cons.mp hstarts
    refine munch_symbol hsymbol fun hassign hhead => ?_
    -- Behind a sign of equality a second one would make a longer match.
    obtain ⟨later, rfl⟩ := List.head?_eq_some_iff.mp hhead
    have hlongest := h.longest (.symbol "==" (.operator .equal)) (by decide) ['=', '=']
      ⟨later, by rw [hassign]; rfl⟩ rfl
    rw [htext] at hlongest
    simp at hlongest
  · obtain ⟨rfl, later, rfl⟩ := List.cons_prefix_cons.mp hstarts
    rfl
  · obtain ⟨rfl, later, rfl⟩ := List.cons_prefix_cons.mp hstarts
    rfl

theorem munch_of_isLongest {rule : Rule} (h : IsLongest (c :: cs) rule piece) :
    munch c cs = some (rule.stretch piece, piece.length - 1) := by
  cases rule with
  | word => exact munch_of_word h
  | number => exact munch_of_number h
  | string => exact munch_of_string h
  | comment => exact munch_of_comment h
  | symbol text kind => exact munch_of_symbol h

end Longest

/-- The place of a stretch of the line, given what stands before it. -/
def placeAfter (offset line : Nat) (before piece : List Char) : Place :=
  ⟨line, before.length + 1, offset + Text.byteLength before,
    offset + Text.byteLength (before ++ piece)⟩

/-- The fault where no rule matches: at a quote, a string that does not end before the line does. -/
def stuck (offset line : Nat) (before : List Char) (c : Char) (later : List Char) : ScanFault :=
  if c = '"' ∨ c = '\'' then ⟨.unterminatedString, placeAfter offset line before (c :: later)⟩
  else ⟨.unexpectedCharacter c, placeAfter offset line before [c]⟩

def Rule.tokens (rule : Rule) (place : Place) (piece : List Char) : List Token :=
  match rule.reading piece with
  | none => []
  | some (kind, text) => [⟨place, kind, String.ofList text⟩]

def lex (offset line : Nat) (before rest : List Char) : Except ScanFault (List Token) :=
  match _ : rest.dropWhile isGap with
  | [] => .ok []
  | c :: later =>
    match _ : longest? (c :: later) with
    | none => .error (stuck offset line (before ++ rest.takeWhile isGap) c later)
    | some (rule, piece) =>
      (lex offset line (before ++ rest.takeWhile isGap ++ piece)
        ((c :: later).drop piece.length)).map
        (rule.tokens (placeAfter offset line (before ++ rest.takeWhile isGap) piece) piece ++ ·)
termination_by rest.length
decreasing_by
  rename_i hrest hfound
  have hpiece := List.length_pos_iff.mpr (isLongest_of_longest? hfound).nonempty
  have hle := (List.dropWhile_suffix (l := rest) isGap).length_le
  rw [hrest] at hle
  simp only [List.length_drop, List.length_cons] at hle ⊢
  omega

/-- Scanning goes on from one position of a line to another one. -/
inductive Reaches : (before rest before' rest' : List Char) → Prop where
  | gap {before rest : List Char} :
      Reaches before rest (before ++ rest.takeWhile isGap) (rest.dropWhile isGap)
  | taken {before rest before' rest' piece : List Char} {rule : Rule}
      (hfound : longest? (rest.dropWhile isGap) = some (rule, piece))
      (h : Reaches (before ++ rest.takeWhile isGap ++ piece)
        ((rest.dropWhile isGap).drop piece.length) before' rest') :
      Reaches before rest before' rest'

variable {offset line : Nat}

theorem Reaches.cases {before rest before' rest' : List Char}
    (h : Reaches before rest before' rest') :
    (before' = before ++ rest.takeWhile isGap ∧ rest' = rest.dropWhile isGap) ∨
      ∃ rule piece, longest? (rest.dropWhile isGap) = some (rule, piece) ∧
        Reaches (before ++ rest.takeWhile isGap ++ piece)
          ((rest.dropWhile isGap).drop piece.length) before' rest' := by
  cases h with
  | gap => exact .inl ⟨rfl, rfl⟩
  | taken hfound h => exact .inr ⟨_, _, hfound, h⟩

theorem Reaches.text_eq {before rest before' rest' : List Char}
    (h : Reaches before rest before' rest') : before' ++ rest' = before ++ rest := by
  induction h with
  | gap => rw [List.append_assoc, List.takeWhile_append_dropWhile]
  | @taken before rest _ _ piece rule hfound _ ih =>
    obtain ⟨more, hmore⟩ := (isLongest_of_longest? hfound).starts
    rw [← hmore, List.drop_left] at ih
    rw [ih, List.append_assoc, hmore, List.append_assoc, List.takeWhile_append_dropWhile]

theorem map_eq_error {α β : Type} {result : Except ScanFault α} {f : α → β} {fault : ScanFault} :
    result.map f = .error fault ↔ result = .error fault := by
  cases result with
  | error first =>
    constructor
    · rintro ⟨⟩
      rfl
    · rintro ⟨⟩
      rfl
  | ok a =>
    constructor
    · rintro ⟨⟩
    · rintro ⟨⟩

/-- Scanning by the rules fails exactly at a position that it reaches and where no rule matches. -/
theorem lex_eq_error {before rest : List Char} {fault : ScanFault} :
    lex offset line before rest = .error fault ↔
      ∃ before' c later, Reaches before rest before' (c :: later) ∧ longest? (c :: later) = none ∧
        fault = stuck offset line before' c later := by
  fun_induction lex offset line before rest with
  | case1 before rest hrest =>
    constructor
    · rintro ⟨⟩
    · rintro ⟨_, _, _, hreaches, -⟩
      rcases hreaches.cases with ⟨-, hend⟩ | ⟨_, _, hfound, -⟩
      · rw [hrest] at hend
        cases hend
      · rw [hrest] at hfound
        cases hfound
  | case2 before rest c later hrest hnone =>
    constructor
    · rintro ⟨⟩
      exact ⟨_, c, later, hrest ▸ .gap, hnone, rfl⟩
    · rintro ⟨_, d, more, hreaches, -, rfl⟩
      rcases hreaches.cases with ⟨rfl, hend⟩ | ⟨_, _, hfound, -⟩
      · rw [hrest] at hend
        cases hend
        rfl
      · rw [hrest, hnone] at hfound
        cases hfound
  | case3 before rest c later hrest rule piece hfound ih =>
    rw [map_eq_error, ih]
    constructor
    · rintro ⟨before', d, more, hreaches, hstuck⟩
      rw [← hrest] at hfound hreaches
      exact ⟨before', d, more, .taken hfound hreaches, hstuck⟩
    · rintro ⟨before', d, more, hreaches, hnone, hfault⟩
      rcases hreaches.cases with ⟨-, hend⟩ | ⟨_, _, hother, hlater⟩
      · rw [hend, hrest, hfound] at hnone
        cases hnone
      · rw [hrest] at hother hlater
        cases hfound.symm.trans hother
        exact ⟨before', d, more, hlater, hnone, hfault⟩

theorem scan_gap_append (before rest : List Char) :
    scan line (before.length + 1) (offset + Text.byteLength before) rest =
      scan line ((before ++ rest.takeWhile isGap).length + 1)
        (offset + Text.byteLength (before ++ rest.takeWhile isGap)) (rest.dropWhile isGap) := by
  cases rest with
  | nil => simp
  | cons c rest =>
    cases hc : isGap c with
    | true =>
      rw [scan_gaps hc, List.takeWhile_cons_of_pos hc, List.dropWhile_cons_of_pos hc,
        Text.byteLength_append, List.length_append, List.length_cons]
      congr 1 <;> omega
    | false =>
      rw [List.takeWhile_cons_of_neg (by simp [hc]), List.dropWhile_cons_of_neg (by simp [hc]),
        List.append_nil]

theorem fault_eq_stuck {before later : List Char} {c : Char}
    (hsize : offset + Text.byteLength (before ++ c :: later) < Span.limit) :
    fault line (before.length + 1) (offset + Text.byteLength before) c later =
      .fault (stuck offset line before c later) := by
  rw [Text.byteLength_append, Text.byteLength_cons] at hsize
  unfold fault stuck placeAfter
  simp only [isQuote, Bool.or_eq_true, beq_iff_eq, Text.byteLength_append, Text.byteLength_cons,
    Text.byteLength_nil, Nat.add_zero, ← Nat.add_assoc]
  by_cases hquote : c = '"' ∨ c = '\''
  · rw [if_pos hquote, Span.between_eq (by omega) (by omega), if_pos hquote, if_pos hquote]
    simp only [Nat.add_assoc]
  · rw [if_neg hquote, Span.between_eq (by omega) (by omega), if_neg hquote, if_neg hquote]

theorem tokens_stretch {rule : Rule} {piece : List Char} {column start stop : Nat}
    (hle : start ≤ stop) (hstop : stop < Span.limit) :
    (rule.stretch piece).tokens line column start stop =
      .ok (rule.tokens ⟨line, column, start, stop⟩ piece) := by
  unfold Rule.stretch Rule.tokens
  cases rule.reading piece with
  | none =>
    rw [Stretch.tokens, Span.between_eq hle hstop]
    rfl
  | some reading =>
    rw [Stretch.tokens, Span.between_eq hle hstop]
    rfl

theorem scan_longest {before later piece : List Char} {c : Char} {rule : Rule}
    (h : IsLongest (c :: later) rule piece)
    (hsize : offset + Text.byteLength (before ++ piece) < Span.limit) :
    scan line (before.length + 1) (offset + Text.byteLength before) (c :: later) =
      (scan line ((before ++ piece).length + 1) (offset + Text.byteLength (before ++ piece))
        ((c :: later).drop piece.length)).map
        (rule.tokens (placeAfter offset line before piece) piece ++ ·) := by
  have hmunch := munch_of_isLongest h
  have hpiece := List.prefix_iff_eq_take.mp h.starts
  obtain ⟨more, hmore⟩ : ∃ more, piece.length = more + 1 :=
    Nat.exists_eq_succ_of_ne_zero (mt List.length_eq_zero_iff.mp h.nonempty)
  rw [hmore, List.take_succ_cons] at hpiece
  rw [hmore, Nat.add_sub_cancel] at hmunch
  have hcolumn : before.length + 1 + more + 1 = (before ++ piece).length + 1 := by
    rw [List.length_append, hmore]
    omega
  have hstop : offset + Text.byteLength before + Text.byteLength (c :: later.take more) =
      offset + Text.byteLength (before ++ piece) := by
    rw [← hpiece, Text.byteLength_append, Nat.add_assoc]
  have hle : offset + Text.byteLength before ≤ offset + Text.byteLength (before ++ piece) := by
    rw [Text.byteLength_append]
    omega
  rw [scan, hmunch, hmore, List.drop_succ_cons]
  dsimp only
  rw [hcolumn, hstop, tokens_stretch hle hsize]
  cases scan line ((before ++ piece).length + 1) (offset + Text.byteLength (before ++ piece))
      (later.drop more) with
  | error halt => rfl
  | ok tokens => rfl

theorem byteLength_gap (before rest : List Char) :
    Text.byteLength (before ++ rest.takeWhile isGap ++ rest.dropWhile isGap) =
      Text.byteLength (before ++ rest) := by
  rw [List.append_assoc, List.takeWhile_append_dropWhile]

theorem scan_eq_lex {before rest : List Char}
    (hsize : offset + Text.byteLength (before ++ rest) < Span.limit) :
    scan line (before.length + 1) (offset + Text.byteLength before) rest =
      (lex offset line before rest).mapError .fault := by
  fun_induction lex offset line before rest with
  | case1 before rest hrest =>
    rw [scan_gap_append, hrest, scan]
    rfl
  | case2 before rest c later hrest hnone =>
    have hgap : isGap c = false := head?_dropWhile (by rw [hrest]; rfl)
    rw [← byteLength_gap, hrest] at hsize
    rw [scan_gap_append, hrest, scan, munch_of_no_match hgap (longest?_eq_none_iff.mp hnone)]
    exact congrArg _ (fault_eq_stuck hsize)
  | case3 before rest c later hrest rule piece hfound ih =>
    have hlongest := isLongest_of_longest? hfound
    obtain ⟨more, hmore⟩ := hlongest.starts
    rw [← byteLength_gap, hrest, ← hmore, ← List.append_assoc] at hsize
    have hpiece : offset + Text.byteLength (before ++ rest.takeWhile isGap ++ piece) <
        Span.limit := by
      rw [Text.byteLength_append] at hsize
      omega
    have hlater : offset + Text.byteLength (before ++ rest.takeWhile isGap ++ piece ++
        (c :: later).drop piece.length) < Span.limit := by
      rwa [← hmore, List.drop_left]
    rw [scan_gap_append, hrest, scan_longest hlongest hpiece, ih hlater]
    cases lex offset line (before ++ rest.takeWhile isGap ++ piece)
      ((c :: later).drop piece.length) <;> rfl

end Splice.Line
