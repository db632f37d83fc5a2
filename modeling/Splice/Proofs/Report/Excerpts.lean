import Splice.Proofs.Compile.Positions
import Splice.Proofs.Text.Rows
import Splice.Report

/-! What a report shows of its source.  The fault of a text that does not compile stands in one of
the rows of the text or on the line after the last one.  The excerpt holds the rows around it, each
as it is, and marks the stretch that the fault names. -/
namespace Splice

open Text (byteLength lineAround ShownAs)

/-- A fault stands at a stretch of the text; its column is not behind the start of it. -/
structure Place.Marks (place : Place) (before written after : List Char) (text : List Char) :
    Prop where
  text_eq : text = before ++ (written ++ after)
  line_eq : place.line = before.count '\n' + 1
  column_le : place.column ≤ (Text.lastLine before).length + 1
  span_eq : place.span = ⟨byteLength before, byteLength (before ++ written)⟩

theorem Place.marks_after (before written after : List Char) :
    (Place.after before written).Marks before written after (before ++ (written ++ after)) :=
  ⟨rfl, rfl, Nat.le_refl _, rfl⟩

theorem ScanFault.Shows.marks {fault : ScanFault} {text : List Char} (h : fault.Shows text) :
    ∃ before written after, fault.place.Marks before written after text := by
  unfold ScanFault.Shows at h
  split at h
  · obtain ⟨before, after, rfl, hplace⟩ := h
    exact ⟨before, _, after, hplace ▸ Place.marks_after before [_] after⟩
  · obtain ⟨before, q, rest, after, rfl, -, -, -, hplace⟩ := h
    exact ⟨before, q :: rest, after, hplace ▸ Place.marks_after before (q :: rest) after⟩
  · obtain ⟨before, after, rfl, hplace, -⟩ := h
    refine ⟨before, [], after, ?_⟩
    rw [hplace]
    exact ⟨rfl, rfl, Nat.le_add_left _ _, rfl⟩

theorem CompileFault.Shows.marks {fault : CompileFault} {text : List Char} (h : fault.Shows text) :
    ∃ before written after, fault.place.Marks before written after text := by
  cases fault with
  | scan fault => exact ScanFault.Shows.marks h
  | parse fault =>
    obtain ⟨before, written, after, rfl, hplace⟩ := h
    refine ⟨before, written, after, ?_⟩
    rw [CompileFault.place, hplace]
    exact Place.marks_after before written after

namespace Report

def Row.number : Row → Nat
  | .near number _ | .marked number .. | .beyond number => number

def Row.lines : Row → List String
  | .near number text => ["  |" ++ numberColumn number ++ " | " ++ text]
  | .marked number text column width subject =>
    ["  |" ++ numberColumn number ++ " | " ++ text,
      "  |      | " ++ Text.spaces (column - 1) ++ String.ofList (List.replicate width '^'),
      "  |      +-- Here: " ++
        if subject.isEmpty then "Error at this location" else "Error at '" ++ subject ++ "'"]
  | .beyond number => ["  |" ++ numberColumn number ++ " | "]

/-- A row that shows what stands in the source. -/
inductive Row.Fits (source : String) (place : Place) : Row → Prop where
  | near {number : Nat} {text : String} (hnumber : number ≠ place.line)
      (htext : (Text.rows source)[number - 1]? = some text) : Fits source place (.near number text)
  /-- The row of the place is the line around it.  The mark stands in that line or at its end, below
  the stretch that the place covers. -/
  | marked {text : String} {before written after : List Char}
      (htext : (Text.rows source)[place.line - 1]? = some text)
      (hmarks : place.Marks before written after source.toList)
      (hslice : Text.slice? place.span.start place.span.stop source.toList = some written)
      (hline : ShownAs (lineAround before (written ++ after)) text.toList)
      (hcolumn : place.column - 1 ≤ (lineAround before (written ++ after)).length) :
      Fits source place (.marked place.line text place.column (max 1 written.length)
        (Text.trim (String.ofList written)))
  | beyond (hline : place.line = (Text.rows source).length + 1) :
      Fits source place (.beyond place.line)

section

variable {source : String} {place : Place} {before written after : List Char}

theorem line_le (h : place.Marks before written after source.toList) :
    place.line ≤ (Text.rows source).length + 1 := by
  have hcount := (Text.length_rows source).2
  rw [h.text_eq, List.count_append] at hcount
  rw [h.line_eq]
  omega

theorem fits_markedRow (h : place.Marks before written after source.toList) {text : String}
    (htext : (Text.rows source)[place.line - 1]? = some text) :
    (markedRow place source place.line text).Fits source place := by
  have hslice : Text.slice? place.span.start place.span.stop source.toList = some written := by
    rw [h.span_eq, h.text_eq]
    exact Text.slice?_append before written after
  have hcovered : covered place.span source = written := by
    rw [covered, hslice, Option.getD_some]
  rw [markedRow, hcovered, Nat.max_comm]
  have hindex : place.line - 1 = before.count '\n' := by
    rw [h.line_eq, Nat.add_sub_cancel]
  refine .marked htext h hslice (Text.shownAs_rows h.text_eq (hindex ▸ htext)) ?_
  have hcolumn := h.column_le
  rw [lineAround, List.length_append]
  omega

theorem numbers_excerpt {place : Place} {context : Nat}
    (hcontext : place.line + context < addressLimit) (source : String) :
    (excerpt place source context).map Row.number =
      List.range' (max 1 (place.line - context))
        (min (place.line + context) (Text.rows source).length + 1 -
          max 1 (place.line - context)) ++
      if (Text.rows source).length < place.line then [place.line] else [] := by
  unfold excerpt
  rw [List.map_append, List.map_map, Nat.max_comm, Nat.mod_eq_of_lt hcontext]
  congr 1
  · refine List.map_id'' (fun number => ?_) _
    dsimp only [Function.comp]
    split <;> rfl
  · split <;> rfl

theorem fits_of_mem_excerpt (h : place.Marks before written after source.toList) {context : Nat}
    {row : Row} (hrow : row ∈ excerpt place source context) : row.Fits source place := by
  unfold excerpt at hrow
  rcases List.mem_append.mp hrow with hrow | hrow
  · obtain ⟨number, hnumber, rfl⟩ := List.mem_map.mp hrow
    rw [List.mem_range'_1] at hnumber
    have hindex : number - 1 < (Text.rows source).length := by omega
    have htext : (Text.rows source)[number - 1]? =
        some ((Text.rows source).getD (number - 1) "") := by
      rw [List.getD_eq_getElem?_getD, List.getElem?_eq_getElem hindex, Option.getD_some]
    split
    · rename_i hline
      subst hline
      exact fits_markedRow h htext
    · exact .near ‹_› htext
  · split at hrow
    · rename_i hbeyond
      obtain rfl := List.mem_singleton.mp hrow
      exact .beyond (Nat.le_antisymm (line_le h) hbeyond)
    · cases hrow

end

def heading (fault : CompileFault) (file : Option String) : List String :=
  ["Error: " ++ fault.label.text, "  |", "  | Message: " ++ fault.message, "  |",
    "  +--> Location: " ++ locationText file fault.place, "  |"]

theorem render_row (context : Nat) (row : Row) :
    row.render { colors := false, lines := context } = String.join (row.lines.map (· ++ "\n")) := by
  apply String.toList_inj.mp
  cases row <;>
    simp [Row.render, Row.lines, numbered, Style.paint]

theorem join_rows (context : Nat) (rows : List Row) :
    String.join (rows.map (Row.render { colors := false, lines := context })) =
      String.join ((rows.flatMap Row.lines).map (· ++ "\n")) := by
  induction rows with
  | nil => rfl
  | cons row rows ih =>
    rw [List.map_cons, String.join_cons, render_row, ih, List.flatMap_cons, List.map_append,
      String.join_append]

end Report

end Splice
