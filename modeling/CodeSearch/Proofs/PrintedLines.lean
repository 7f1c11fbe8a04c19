import CodeSearch.CommandLine.Report
import CodeSearch.Proofs.CodeFrames

/-!
# Printed lines and their numbers

For people, a match is shown as the lines of its frame, each behind its number. The frame is a part
of the source made of whole lines, so that its lines are lines of the source and the number of the
first of them tells those of all. It is printed by another notion of line than it is cut out by: the
empty text behind a last line feed is no line, and a carriage return belongs to the line feed.

`render_numbersLines`: the numbers are those of the lines in the source, and stand below one
another.
-/

set_option autoImplicit false

namespace CodeSearch

open Text

/-! ## Rows -/

/-- A row of the output: a line behind its number, with blanks before the number. -/
structure PrintedRow where
  blanks : Nat
  number : Nat
  text : List Char
  deriving DecidableEq, Repr

namespace PrintedRow

/-- The row as written. -/
def print (row : PrintedRow) : String :=
  String.ofList (List.replicate row.blanks ' ') ++ toString row.number ++ " | " ++
    String.ofList row.text ++ "\n"

/-- The width of the number with the blanks before it. -/
def width (row : PrintedRow) : Nat := row.blanks + (toString row.number).length

/-- A row **shows its line** of a source: the one of its number, counted from one, up to a carriage
return at the end. -/
def ShowsItsLine (row : PrintedRow) (source : List Char) : Prop :=
  ∃ i line, row.number = i + 1 ∧ (source.splitOn '\n')[i]? = some line ∧
    (line = row.text ∨ line = row.text ++ ['\r'])

end PrintedRow

/-- The rows of lines that are numbered from `number` on. -/
def printedRows (width number : Nat) (lines : List (List Char)) : List PrintedRow :=
  (lines.zipIdx number).map fun line =>
    { blanks := width - (toString line.2).length, number := line.2, text := line.1 }

theorem numberedLines_eq (width number : Nat) (lines : List (List Char)) :
    numberedLines width number lines =
      String.join ((printedRows width number lines).map PrintedRow.print) := by
  induction lines generalizing number with
  | nil => rfl
  | cons line lines ih =>
      rw [numberedLines, ih, printedRows, printedRows, List.zipIdx_cons, List.map_cons,
        List.map_cons, String.join_cons]
      rfl

theorem map_number_printedRows (width number : Nat) (lines : List (List Char)) :
    (printedRows width number lines).map PrintedRow.number =
      List.range' number lines.length := by
  rw [printedRows, List.map_map]
  exact List.zipIdx_map_snd number lines

theorem mem_printedRows {width number : Nat} {lines : List (List Char)} {row : PrintedRow}
    (h : row ∈ printedRows width number lines) :
    ∃ i, lines[i]? = some row.text ∧ row.number = number + i ∧
      row.blanks = width - (toString row.number).length := by
  obtain ⟨⟨text, n⟩, hmem, rfl⟩ := List.mem_map.1 h
  obtain ⟨hle, hline⟩ := List.mk_mem_zipIdx_iff_le_and_getElem?_sub.1 hmem
  exact ⟨n - number, hline, (Nat.add_sub_cancel' hle).symm, rfl⟩

/-- A number has no more digits than a greater one. -/
theorem length_toString_mono {m n : Nat} (h : m ≤ n) :
    (toString m).length ≤ (toString n).length := by
  rw [Nat.toString_eq_repr, Nat.toString_eq_repr, Nat.length_repr_le_iff Nat.length_repr_pos]
  exact Nat.lt_of_le_of_lt h ((Nat.length_repr_le_iff Nat.length_repr_pos).1 (Nat.le_refl _))

/-- With the digits of the last number for a width, all rows have this width. -/
theorem width_of_mem_printedRows {number : Nat} {lines : List (List Char)} {row : PrintedRow}
    (h : row ∈ printedRows (toString (number + lines.length - 1)).length number lines) :
    row.width = (toString (number + lines.length - 1)).length := by
  obtain ⟨i, hline, hnumber, hblanks⟩ := mem_printedRows h
  have hlt := (List.getElem?_eq_some_iff.1 hline).1
  -- so that no blanks are cut off: no row has a greater number than the last one
  have hdigits : (toString row.number).length ≤ (toString (number + lines.length - 1)).length :=
    length_toString_mono (by omega)
  rw [PrintedRow.width, hblanks]
  omega

/-- Where lines are numbered from where they stand in a source on, each row shows its line. -/
theorem showsItsLine_of_mem_printedRows {front code back : List Char} {width : Nat}
    {row : PrintedRow} (hfront : IsWhole front) (hback : IsBehindLine back)
    (h : row ∈ printedRows width (lineBreaks front + 1) (lines code)) :
    row.ShowsItsLine (front ++ code ++ back) := by
  obtain ⟨i, htext, hnumber, -⟩ := mem_printedRows h
  obtain ⟨line, hline, heq⟩ := exists_splitOn_of_lines htext
  exact ⟨lineBreaks front + i, line, by omega, getElem?_splitOn_append hfront hback hline, heq⟩

/-- A place with text behind it is on a numbered line. -/
theorem number_mem_printedRows (width : Nat) (front above : List Char) {rest : List Char}
    (h : rest ≠ []) :
    lineBreaks (front ++ above) + 1 ∈
      (printedRows width (lineBreaks front + 1) (lines (above ++ rest))).map
        PrintedRow.number := by
  have hlt := lineBreaks_lt_length_lines above h
  have hcount : lineBreaks (front ++ above) = lineBreaks front + lineBreaks above :=
    List.count_append
  rw [map_number_printedRows, List.mem_range'_1]
  omega

/-! ## Matches for people to read -/

/-- The number of digits of the last line that a match is shown with. -/
def Match.numberWidth (m : Match) : Nat :=
  (toString (m.frame.startLine + 1 + (lines m.frame.code.toList).length - 1)).length

/-- The rows that a match is shown with. -/
def Match.rows (m : Match) : List PrintedRow :=
  printedRows m.numberWidth (m.frame.startLine + 1) (lines m.frame.code.toList)

theorem Match.render_eq (m : Match) :
    m.render = m.path ++ ":" ++ toString (m.span.start.line + 1) ++ ":" ++
      toString (m.span.start.column + 1) ++ "\n" ++ String.join (m.rows.map PrintedRow.print) ++
        "\n" := by
  rw [Match.render, numberedLines_eq]
  rfl

theorem Match.rows_of_frame {m : Match} {code : List Char} {number : Nat}
    (h : m.frame = { code := String.ofList code, startLine := number }) :
    m.rows = printedRows m.numberWidth (number + 1) (lines code) := by
  rw [Match.rows, h, String.toList_ofList]

/-- **Printed line numbers are right.** Below the place of a match stand rows with consecutive
numbers, all of one width. Each shows the line of its number, and the line of the place is among
them. -/
theorem render_numbersLines {source : String} {span : Span} {matched : List Char}
    (h : span.Marks source.toList matched) (hne : matched ≠ []) (path : String) (queryIndex : Nat)
    (bindings : Bindings) :
    ∃ (rows : List PrintedRow) (first width : Nat),
      (Match.ofSpan path queryIndex span source bindings).render =
        path ++ ":" ++ toString (span.start.line + 1) ++ ":" ++ toString (span.start.column + 1) ++
          "\n" ++ String.join (rows.map PrintedRow.print) ++ "\n" ∧
      (∀ row ∈ rows, row.ShowsItsLine source.toList ∧ row.width = width) ∧
      rows.map PrintedRow.number = List.range' first rows.length ∧
      span.start.line + 1 ∈ rows.map PrintedRow.number := by
  obtain ⟨front, above, below, back, hsource, -, -, hline, habove, hbelow, hframe⟩ :=
    exists_codeFrame_eq h
  have hrows := Match.rows_of_frame
    ((Match.ofSpan_frame path queryIndex span source bindings).trans hframe)
  refine ⟨_, lineBreaks front + 1, Match.numberWidth _, Match.render_eq _,
    fun row hrow => ⟨?_, width_of_mem_printedRows hrow⟩, ?_, ?_⟩
  · rw [hrows] at hrow
    rw [hsource]
    exact showsItsLine_of_mem_printedRows habove.isWhole hbelow.isBehindLine hrow
  · rw [hrows, map_number_printedRows, printedRows, List.length_map, List.length_zipIdx]
  · -- the match is not empty, so that where it starts there is something to print
    rw [hrows, hline, List.append_assoc above]
    exact number_mem_printedRows _ front above (by simp [hne])

/-- A source of ten lines. -/
def tenLines : String := "1\n2\n3\n4\n5\n6\n7\n8\n9\nten\n"

/-- The last line of `tenLines`. -/
def spanOfTen : Span := ⟨18, 21, ⟨9, 0⟩, ⟨9, 3⟩⟩

/-- The tenth line of a source is printed with the ninth, and nothing for what is behind its line
feed. -/
theorem render_numbersLines_ten :
    spanOfTen.Marks tenLines.toList "ten".toList ∧
      (Match.ofSpan "a.js" 0 spanOfTen tenLines {}).render =
        "a.js:10:1\n 9 | 9\n10 | ten\n\n" ∧
      ∃ (rows : List PrintedRow) (width : Nat),
        (Match.ofSpan "a.js" 0 spanOfTen tenLines {}).render =
          "a.js:10:1\n" ++ String.join (rows.map PrintedRow.print) ++ "\n" ∧
        (∀ row ∈ rows, row.ShowsItsLine tenLines.toList ∧ row.width = width) ∧
        10 ∈ rows.map PrintedRow.number := by
  have hmarks : spanOfTen.Marks tenLines.toList "ten".toList := by decide +kernel
  obtain ⟨rows, _, width, hrows, hshow, -, hmem⟩ :=
    render_numbersLines hmarks (by decide) "a.js" 0 {}
  exact ⟨hmarks, by decide +kernel, rows, width, hrows, hshow, hmem⟩

end CodeSearch
