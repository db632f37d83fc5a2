import Splice.Repl

/-! The input of a dialogue in pieces.  There is just one way to divide it such that every line up
to the one that ends the dialogue belongs to one piece, and a piece is answered as soon as its last
line has been read. -/
namespace Splice.Repl

/-- A line that speaks to the dialogue itself. -/
inductive Remark where
  | blank
  | help
  | environment
  deriving DecidableEq, Repr

def Remark.word : Remark → String
  | .blank => ""
  | .help => "help"
  | .environment => "env"

def Remark.entry : Remark → Entry
  | .blank => .blank
  | .help => .help
  | .environment => .environment

/-- A line that is run, at the prompt: neither a remark nor a line that leaves. -/
def IsCode (line : String) : Prop :=
  Text.trim line ∉ ["", "exit", "quit", "help", "env"]

instance (line : String) : Decidable (IsCode line) :=
  inferInstanceAs (Decidable (_ ∉ _))

/-- A line that starts a block, with lines that belong to it. -/
structure Block where
  head : String
  body : List String
  isCode : IsCode head := by decide +kernel
  opens : opensBlock (Text.trim head) = true := by decide +kernel
  body_continues : ∀ line ∈ body, isBlankInput line = false := by decide +kernel

inductive Piece where
  | remark (line : String) (what : Remark) (h : Text.trim line = what.word)
  | code (line : String) (hcode : IsCode line) (hplain : opensBlock (Text.trim line) = false)
  /-- A block and the blank line behind it. -/
  | closed (block : Block) (blank : String) (h : isBlankInput blank = true)
  /-- A block at the end of the input. -/
  | unclosed (block : Block)

/-- How a dialogue ends, with the input that is left. -/
inductive Ending where
  | finished
  | left (line : String) (later : List Input)
      (h : Text.trim line = "exit" ∨ Text.trim line = "quit")
  | unreadable (later : List Input)
  | brokenBlock (block : Block) (later : List Input)

def Block.rows (block : Block) : List Input :=
  some block.head :: block.body.map some

namespace Piece

def rows : Piece → List Input
  | .remark line _ _ | .code line _ _ => [some line]
  | .closed block blank _ => block.rows ++ [some blank]
  | .unclosed block => block.rows

def isUnclosed : Piece → Bool
  | .unclosed _ => true
  | _ => false

def entry : Piece → Entry
  | .remark _ what _ => what.entry
  | .code line _ _ => .source (Text.trim line) none
  | .closed block _ _ | .unclosed block => .source (Text.trim block.head) (some block.body)

end Piece

namespace Ending

def rows : Ending → List Input
  | .finished => []
  | .left line later _ => some line :: later
  | .unreadable later => none :: later
  | .brokenBlock block later => block.rows ++ none :: later

def entry : Ending → Entry
  | .finished => .finished
  | .left .. => .leave
  | .unreadable _ => .unreadable
  | .brokenBlock block _ => .brokenBlock block.body.length

end Ending

/-- The input is these pieces, in order, and then what ends it.  Only the end of the input leaves a
block unclosed. -/
structure Divides (pieces : List Piece) (ending : Ending) (rows : List Input) : Prop where
  rows_eq : rows = pieces.flatMap Piece.rows ++ ending.rows
  unclosed_last : ∀ front piece later, pieces = front ++ piece :: later →
    piece.isUnclosed = true → later = [] ∧ ending = .finished

section

variable {line : String} {rows : List Input}

theorem entries_remark {what : Remark} (h : Text.trim line = what.word) (rows : List Input) :
    entries (some line :: rows) = what.entry :: entries rows := by
  rewrite [entries]
  cases what <;> simp only [h, Remark.word, Remark.entry]

theorem entries_leave (h : Text.trim line = "exit" ∨ Text.trim line = "quit")
    (rows : List Input) : entries (some line :: rows) = [.leave] := by
  rewrite [entries]
  rcases h with h | h <;> simp only [h]

theorem entries_code (h : IsCode line) (rows : List Input) :
    entries (some line :: rows) = (sourceEntry (Text.trim line) rows).1 ::
      entries (rows.drop (sourceEntry (Text.trim line) rows).2) := by
  simp only [IsCode, List.mem_cons, List.not_mem_nil, or_false, not_or] at h
  obtain ⟨hblank, hexit, hquit, hhelp, henv⟩ := h
  rewrite [entries]
  split
  · exact absurd ‹_› hblank
  · exact absurd ‹_› hexit
  · exact absurd ‹_› hquit
  · exact absurd ‹_› hhelp
  · exact absurd ‹_› henv
  · cases sourceEntry (Text.trim line) rows
    rfl

end

/-- The lines after the head of a block belong to it up to one that does not continue it. -/
theorem sourceEntry_block (block : Block) {rest : List Input}
    (hrest : ∀ row ∈ rest.head?, continues row = false) :
    sourceEntry (Text.trim block.head) (block.body.map some ++ rest) =
      (if rest.head? = some none then .brokenBlock block.body.length
        else .source (Text.trim block.head) (some block.body), block.body.length + 1) := by
  have hbody : ∀ row ∈ block.body.map some, continues row = true := by
    rw [List.forall_mem_map]
    intro line hline
    rw [continues, block.body_continues line hline, Bool.not_false]
  have hstop : rest.takeWhile continues = [] := by
    cases rest with
    | nil => rfl
    | cons row rest =>
      rw [List.takeWhile_cons_of_neg]
      rw [hrest row rfl]
      exact Bool.false_ne_true
  have htake : (block.body.map some ++ rest).takeWhile continues = block.body.map some := by
    rw [List.takeWhile_append_of_pos hbody, hstop, List.append_nil]
  have hnext : (block.body.map some ++ rest)[(block.body.map some).length]? = rest.head? := by
    rw [List.getElem?_append_right (Nat.le_refl _), Nat.sub_self, List.head?_eq_getElem?]
  have hfilter : (block.body.map some).filterMap id = block.body := by
    rw [List.filterMap_map]
    exact List.filterMap_some
  unfold sourceEntry
  rw [if_pos block.opens]
  dsimp only
  rw [htake, hnext, hfilter, List.length_map]
  split
  · rename_i hbroken
    rw [if_pos hbroken]
  · rename_i hother
    rw [if_neg hother]

theorem entries_block (block : Block) {rest : List Input}
    (hrest : ∀ row ∈ rest.head?, continues row = false) :
    entries (block.rows ++ rest) =
      (if rest.head? = some none then .brokenBlock block.body.length
        else .source (Text.trim block.head) (some block.body)) :: entries (rest.drop 1) := by
  have hdrop := @List.drop_length_add_append _ (block.body.map some) rest 1
  rw [List.length_map] at hdrop
  rw [Block.rows, List.cons_append, entries_code block.isCode, sourceEntry_block block hrest, hdrop]

theorem entries_piece (piece : Piece) {rest : List Input}
    (hrest : piece.isUnclosed = true → rest = []) :
    entries (piece.rows ++ rest) = piece.entry :: entries rest := by
  cases piece with
  | remark line what h => exact entries_remark h rest
  | code line hcode hplain =>
    have hsource : sourceEntry (Text.trim line) rest = (.source (Text.trim line) none, 0) := by
      rw [sourceEntry, hplain, if_neg Bool.false_ne_true]
    rw [Piece.rows, List.singleton_append, entries_code hcode, hsource]
    rfl
  | closed block blank h =>
    have hstop : ∀ row ∈ (some blank :: rest).head?, continues row = false := by
      rintro row ⟨⟩
      rw [continues, h, Bool.not_true]
    rw [Piece.rows, List.append_assoc, List.singleton_append, entries_block block hstop]
    rfl
  | unclosed block =>
    rw [hrest rfl, Piece.rows, entries_block block (by rintro row ⟨⟩)]
    rfl

theorem entries_ending (ending : Ending) : ∃ ignored,
    entries ending.rows = ending.entry :: ignored ∧
    (ending.entry.isBroken = false → ignored = []) := by
  cases ending with
  | finished => exact ⟨[], by rw [Ending.rows, entries]; rfl, fun _ => rfl⟩
  | left line later h => exact ⟨[], entries_leave h later, fun _ => rfl⟩
  | unreadable later => exact ⟨[], by rw [Ending.rows, entries]; rfl, fun _ => rfl⟩
  | brokenBlock block later =>
    have hstop : ∀ row ∈ (none :: later).head?, continues row = false := by
      rintro row ⟨⟩
      rfl
    refine ⟨entries later, ?_, by rintro ⟨⟩⟩
    rw [Ending.rows, entries_block block hstop]
    rfl

theorem exists_body (rows : List Input) : ∃ (body : List String) (rest : List Input),
    rows = body.map some ++ rest ∧
    (∀ line ∈ body, isBlankInput line = false) ∧ ∀ row ∈ rest.head?, continues row = false := by
  induction rows with
  | nil => exact ⟨[], [], rfl, List.forall_mem_nil _, by rintro row ⟨⟩⟩
  | cons row rows ih =>
    by_cases hrow : continues row = true
    · cases row with
      | none => cases hrow
      | some line =>
        obtain ⟨body, rest, rfl, hbody, hrest⟩ := ih
        refine ⟨line :: body, rest, rfl, ?_, hrest⟩
        rw [List.forall_mem_cons]
        exact ⟨by simpa [continues] using hrow, hbody⟩
    · refine ⟨[], row :: rows, rfl, List.forall_mem_nil _, ?_⟩
      rintro other ⟨⟩
      simpa using hrow

theorem exists_piece_or_ending (rows : List Input) :
    (∃ ending : Ending, rows = ending.rows) ∨
    ∃ piece : Piece, ∃ rest, rows = piece.rows ++ rest ∧ (piece.isUnclosed = true → rest = []) := by
  match rows with
  | [] => exact .inl ⟨.finished, rfl⟩
  | none :: later => exact .inl ⟨.unreadable later, rfl⟩
  | some line :: later =>
    by_cases hcode : IsCode line
    · by_cases hopens : opensBlock (Text.trim line) = true
      · obtain ⟨body, rest, rfl, hbody, hrest⟩ := exists_body later
        let block : Block := ⟨line, body, hcode, hopens, hbody⟩
        match rest with
        | [] => exact .inr ⟨.unclosed block, [], rfl, fun _ => rfl⟩
        | none :: rest => exact .inl ⟨.brokenBlock block rest, rfl⟩
        | some blank :: rest =>
          have hblank : isBlankInput blank = true := by simpa [continues] using hrest _ rfl
          refine .inr ⟨.closed block blank hblank, rest, ?_, by rintro ⟨⟩⟩
          rw [Piece.rows, List.append_assoc]
          rfl
      · exact .inr ⟨.code line hcode (by simpa using hopens), later, rfl, by rintro ⟨⟩⟩
    · rw [IsCode, Decidable.not_not] at hcode
      have hword : Text.trim line = "" ∨ Text.trim line = "exit" ∨ Text.trim line = "quit" ∨
          Text.trim line = "help" ∨ Text.trim line = "env" := by
        simpa using hcode
      have hremark (what : Remark) (h : Text.trim line = what.word) :
          ∃ piece : Piece, ∃ rest, some line :: later = piece.rows ++ rest ∧
            (piece.isUnclosed = true → rest = []) :=
        ⟨.remark line what h, later, rfl, by rintro ⟨⟩⟩
      rcases hword with h | h | h | h | h
      · exact .inr (hremark .blank h)
      · exact .inl ⟨.left line later (.inl h), rfl⟩
      · exact .inl ⟨.left line later (.inr h), rfl⟩
      · exact .inr (hremark .help h)
      · exact .inr (hremark .environment h)

theorem Piece.rows_ne_nil (piece : Piece) : piece.rows ≠ [] := by
  cases piece <;> exact List.cons_ne_nil _ _

theorem Ending.eq_finished (ending : Ending) (h : ending.rows = []) : ending = .finished := by
  cases ending with
  | finished => rfl
  | left | unreadable | brokenBlock => cases h

namespace Divides

variable {piece : Piece} {pieces : List Piece} {ending : Ending} {rows rest : List Input}

theorem nil (ending : Ending) : Divides [] ending ending.rows where
  rows_eq := rfl
  unclosed_last front piece later h := by simp at h

theorem cons (h : Divides pieces ending rest) (hrest : piece.isUnclosed = true → rest = []) :
    Divides (piece :: pieces) ending (piece.rows ++ rest) where
  rows_eq := by rw [h.rows_eq, List.flatMap_cons, List.append_assoc]
  unclosed_last front other later heq hunclosed := by
    cases front with
    | nil =>
      cases heq
      have hempty := h.rows_eq
      rw [hrest hunclosed, eq_comm, List.append_eq_nil_iff, List.flatMap_eq_nil_iff] at hempty
      refine ⟨List.eq_nil_iff_forall_not_mem.mpr fun piece hpiece => ?_, ?_⟩
      · exact piece.rows_ne_nil (hempty.1 piece hpiece)
      · exact ending.eq_finished hempty.2
    | cons first front =>
      cases heq
      exact h.unclosed_last front other later rfl hunclosed

theorem head (h : Divides (piece :: pieces) ending rows) : ∃ rest, rows = piece.rows ++ rest ∧
    Divides pieces ending rest ∧ (piece.isUnclosed = true → rest = []) := by
  refine ⟨pieces.flatMap Piece.rows ++ ending.rows, ?_, ⟨rfl, ?_⟩, fun hunclosed => ?_⟩
  · rw [h.rows_eq, List.flatMap_cons, List.append_assoc]
  · intro front other later heq
    exact h.unclosed_last (piece :: front) other later (congrArg _ heq)
  · obtain ⟨rfl, rfl⟩ := h.unclosed_last [] piece pieces rfl hunclosed
    rfl

end Divides

theorem exists_divides (rows : List Input) : ∃ pieces ending, Divides pieces ending rows := by
  rcases exists_piece_or_ending rows with ⟨ending, heq⟩ | ⟨piece, rest, heq, hrest⟩
  · exact ⟨[], ending, heq ▸ .nil ending⟩
  · have hless : rest.length < rows.length := by
      have hpos := List.length_pos_iff.mpr piece.rows_ne_nil
      rw [heq, List.length_append]
      omega
    obtain ⟨pieces, ending, h⟩ := exists_divides rest
    exact ⟨piece :: pieces, ending, heq ▸ h.cons hrest⟩
termination_by rows.length

theorem Divides.entries {pieces : List Piece} {ending : Ending} {rows : List Input}
    (h : Divides pieces ending rows) : ∃ ignored,
      entries rows = pieces.map Piece.entry ++ ending.entry :: ignored ∧
        (ending.entry.isBroken = false → ignored = []) := by
  induction pieces generalizing rows with
  | nil =>
    rw [h.rows_eq]
    exact entries_ending ending
  | cons piece pieces ih =>
    obtain ⟨rest, rfl, hlater, hrest⟩ := h.head
    obtain ⟨ignored, hentries, hignored⟩ := ih hlater
    refine ⟨ignored, ?_, hignored⟩
    rw [entries_piece piece hrest, hentries]
    rfl

theorem Block.eq_of_head_of_body {block other : Block} (hhead : block.head = other.head)
    (hbody : block.body = other.body) : block = other := by
  cases block
  cases other
  cases hhead
  cases hbody
  rfl

theorem Remark.entry_injective {what other : Remark} (h : what.entry = other.entry) :
    what = other := by
  cases what <;> cases other <;> first | rfl | cases h

theorem Block.eq_of_rows {block other : Block} {rest rest' : List Input}
    (hrows : block.rows ++ rest = other.rows ++ rest') (hbody : block.body = other.body) :
    block = other ∧ rest = rest' := by
  obtain ⟨hhead, -⟩ := List.cons.inj hrows
  obtain rfl := Block.eq_of_head_of_body (Option.some.inj hhead) hbody
  exact ⟨rfl, List.append_cancel_left hrows⟩

theorem Block.closed_ne_unclosed {block other : Block} {blank : Input} {rest : List Input}
    (hrows : block.rows ++ [blank] ++ rest = other.rows ++ []) : block.body ≠ other.body := by
  intro hbody
  rw [List.append_assoc] at hrows
  exact List.cons_ne_nil _ _ (Block.eq_of_rows hrows hbody).2

/-- Pieces that the same input begins with are the same if they are answered alike. -/
theorem Piece.eq_of_entry {piece other : Piece} {rest rest' : List Input}
    (hrows : piece.rows ++ rest = other.rows ++ rest')
    (hrest : piece.isUnclosed = true → rest = []) (hrest' : other.isUnclosed = true → rest' = [])
    (hentry : piece.entry = other.entry) : piece = other := by
  match piece, other with
  | .remark _ what _, .remark _ other _ =>
    obtain rfl := Remark.entry_injective hentry
    cases hrows
    rfl
  | .code _ _ _, .code _ _ _ =>
    cases hrows
    rfl
  | .closed _ _ _, .closed _ _ _ =>
    simp only [rows, List.append_assoc] at hrows
    have hbody := Option.some.inj (Entry.source.inj hentry).2
    obtain ⟨rfl, hlater⟩ := Block.eq_of_rows hrows hbody
    cases hlater
    rfl
  | .unclosed _, .unclosed _ =>
    have hbody := Option.some.inj (Entry.source.inj hentry).2
    obtain ⟨rfl, -⟩ := Block.eq_of_rows hrows hbody
    rfl
  | .closed _ _ _, .unclosed _ =>
    have hbody := Option.some.inj (Entry.source.inj hentry).2
    rw [hrest' rfl] at hrows
    exact absurd hbody (Block.closed_ne_unclosed hrows)
  | .unclosed _, .closed _ _ _ =>
    have hbody := Option.some.inj (Entry.source.inj hentry).2
    rw [hrest rfl] at hrows
    exact absurd hbody.symm (Block.closed_ne_unclosed hrows.symm)
  | .remark _ what _, .code _ _ _ | .remark _ what _, .closed _ _ _
  | .remark _ what _, .unclosed _ | .code _ _ _, .remark _ what _
  | .closed _ _ _, .remark _ what _ | .unclosed _, .remark _ what _ =>
    cases what <;> simp [entry, Remark.entry] at hentry
  | .code _ _ _, .closed _ _ _ | .code _ _ _, .unclosed _
  | .closed _ _ _, .code _ _ _ | .unclosed _, .code _ _ _ => simp [entry] at hentry

theorem Ending.eq_of_entry {ending other : Ending} (hrows : ending.rows = other.rows)
    (hentry : ending.entry = other.entry) : ending = other := by
  match ending, other with
  | .finished, .finished => rfl
  | .left _ _ _, .left _ _ _ | .unreadable _, .unreadable _ =>
    cases hrows
    rfl
  | .brokenBlock block later, .brokenBlock other later' =>
    have hlength : block.rows.length = other.rows.length := by
      simpa [entry, Block.rows] using hentry
    obtain ⟨hblock, hlater⟩ := List.append_inj hrows hlength
    have hbody : block.body = other.body :=
      (List.map_inj_right fun _ _ => Option.some.inj).mp (List.cons.inj hblock).2
    obtain ⟨rfl, -⟩ := Block.eq_of_rows hrows hbody
    cases hlater
    rfl
  | .finished, .left _ _ _ | .finished, .unreadable _ | .finished, .brokenBlock _ _
  | .left _ _ _, .finished | .left _ _ _, .unreadable _ | .left _ _ _, .brokenBlock _ _
  | .unreadable _, .finished | .unreadable _, .left _ _ _ | .unreadable _, .brokenBlock _ _
  | .brokenBlock _ _, .finished | .brokenBlock _ _, .left _ _ _
  | .brokenBlock _ _, .unreadable _ => cases hentry

theorem Piece.entry_ne_ending (piece : Piece) (ending : Ending) : piece.entry ≠ ending.entry := by
  cases piece with
  | remark line what h => cases what <;> cases ending <;> rintro ⟨⟩
  | code | closed | unclosed => cases ending <;> rintro ⟨⟩

theorem Divides.unique {pieces others : List Piece} {ending other : Ending} {rows : List Input}
    (h : Divides pieces ending rows) (h' : Divides others other rows) :
    pieces = others ∧ ending = other := by
  induction pieces generalizing others rows with
  | nil =>
    obtain ⟨ignored, hending, -⟩ := entries_ending ending
    obtain rfl := h.rows_eq
    cases others with
    | nil =>
      obtain ⟨ignored', hother, -⟩ := entries_ending other
      have hrows : ending.rows = other.rows := h'.rows_eq
      rw [hrows, hother] at hending
      exact ⟨rfl, Ending.eq_of_entry hrows (List.cons.inj hending).1.symm⟩
    | cons piece others =>
      obtain ⟨rest, hrows, -, hrest⟩ := h'.head
      rw [List.flatMap_nil, List.nil_append] at hrows
      rw [hrows, entries_piece piece hrest] at hending
      exact absurd (List.cons.inj hending).1 (piece.entry_ne_ending ending)
  | cons piece pieces ih =>
    obtain ⟨rest, rfl, hlater, hrest⟩ := h.head
    have hentries := entries_piece piece hrest
    cases others with
    | nil =>
      obtain ⟨ignored, hother, -⟩ := entries_ending other
      have hrows : piece.rows ++ rest = other.rows := h'.rows_eq
      rw [hrows, hother] at hentries
      exact absurd (List.cons.inj hentries).1.symm (piece.entry_ne_ending other)
    | cons first others =>
      obtain ⟨rest', hrows, hlater', hrest'⟩ := h'.head
      rw [hrows, entries_piece first hrest'] at hentries
      obtain rfl := Piece.eq_of_entry hrows hrest hrest' (List.cons.inj hentries).1.symm
      obtain rfl := List.append_cancel_left hrows
      obtain ⟨rfl, rfl⟩ := ih hlater hlater'
      exact ⟨rfl, rfl⟩

theorem Block.awaitsMore (block : Block) (rows : List Input) :
    awaitsMore (some block.head :: rows) = rows.all continues := by
  rw [Repl.awaitsMore, block.opens, Bool.true_and]

theorem Block.all_take (block : Block) (n : Nat) :
    ((block.body.map some).take n).all continues = true := by
  rw [List.all_eq_true]
  intro row hrow
  obtain ⟨line, hline, rfl⟩ := List.mem_map.mp (List.mem_of_mem_take hrow)
  rw [continues, block.body_continues line hline, Bool.not_false]

/-- While a piece is read line by line, more is waited for just until it is complete. -/
theorem awaitsMore_take (piece : Piece) {n : Nat} (hn : n < piece.rows.length) :
    awaitsMore (piece.rows.take (n + 1)) =
      (decide (n + 1 < piece.rows.length) || piece.isUnclosed) := by
  cases piece with
  | remark line what h =>
    obtain rfl := Nat.lt_one_iff.mp hn
    change (opensBlock (Text.trim line) && true) = false
    rw [h]
    cases what <;> decide
  | code line hcode hplain =>
    obtain rfl := Nat.lt_one_iff.mp hn
    change (opensBlock (Text.trim line) && true) = false
    rw [hplain]
    rfl
  | unclosed block =>
    have hread : (Piece.unclosed block).rows.take (n + 1) =
        some block.head :: (block.body.map some).take n := rfl
    rw [hread, block.awaitsMore, block.all_take]
    exact (Bool.or_true _).symm
  | closed block blank h =>
    have hread : (Piece.closed block blank h).rows.take (n + 1) =
        some block.head :: (block.body.map some ++ [some blank]).take n := rfl
    have hlength : (Piece.closed block blank h).rows.length = block.body.length + 2 := by
      simp [Piece.rows, Block.rows]
    rw [hlength] at hn ⊢
    rw [hread, block.awaitsMore]
    by_cases hlast : n = block.body.length + 1
    · have hall : (block.body.map some ++ [some blank]).take n =
          block.body.map some ++ [some blank] := List.take_of_length_le (by simp [hlast])
      rw [hall, hlast]
      simp [continues, h, Piece.isUnclosed]
    · rw [List.take_append_of_le_length (by simp; omega), block.all_take]
      simp [Piece.isUnclosed]
      omega

end Splice.Repl
