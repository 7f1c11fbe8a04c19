import CodeSearch.Proofs.Lines
import CodeSearch.Result.Excerpt

/-!
# Code frames

A match is shown with the whole lines that it stands on. Where it stands on one or two lines only, a
further line is shown above and one below, if there are such lines.

What is in front of a match is divided into what is left out and what is shown, and so is what is
behind it: `ShownAbove` and `ShownBelow` list how. `codeFrame_wholeLines` tells the same in bytes:
the frame starts at the nearest start of a line, or at the one before it, and ends likewise.
-/

set_option autoImplicit false

namespace CodeSearch

open Text

/-! ## Spans and frames in a source -/

/-- A span **marks** a text of a source: the text stands between its ends, and it has the number of
the line that it starts on. -/
structure Span.Marks (span : Span) (source matched : List Char) : Prop where
  text : slice? source span.startByte span.endByte = some matched
  line : span.start.line = lineBreaks (slice source 0 span.startByte)

instance (span : Span) (source matched : List Char) : Decidable (span.Marks source matched) :=
  decidable_of_iff (slice? source span.startByte span.endByte = some matched ∧
      span.start.line = lineBreaks (slice source 0 span.startByte))
    ⟨fun h => ⟨h.1, h.2⟩, fun h => ⟨h.text, h.line⟩⟩

/-- What is in front of the marked text and what is behind it. -/
theorem Span.Marks.exists_eq {span : Span} {source matched : List Char}
    (h : span.Marks source matched) :
    ∃ before after, source = before ++ matched ++ after ∧ span.startByte = byteLength before ∧
      span.endByte = byteLength (before ++ matched) ∧ span.start.line = lineBreaks before := by
  obtain ⟨before, after, rfl, hstart, hend⟩ := slice?_eq_some h.text
  have hbefore : slice (before ++ matched ++ after) 0 span.startByte = before := by
    have hslice := slice?_append [] before (matched ++ after)
    rw [byteLength_nil, Nat.zero_add, List.nil_append, ← List.append_assoc, hstart] at hslice
    rw [slice, hslice]
    rfl
  refine ⟨before, after, rfl, hstart.symm, ?_, ?_⟩
  · rw [byteLength_append, hstart, hend]
  · rw [h.line, hbefore]

/-- A frame **shows** the text between two bytes of a source: its code is that text, and it has the
number of the line that the text starts on. -/
structure CodeFrame.Shows (frame : CodeFrame) (source : List Char) (first last : Nat) : Prop where
  code : slice? source first last = some frame.code.toList
  startLine : frame.startLine = lineBreaks (slice source 0 first)

theorem CodeFrame.shows_append (front code back : List Char) :
    CodeFrame.Shows { code := String.ofList code, startLine := lineBreaks front }
      (front ++ code ++ back) (byteLength front) (byteLength (front ++ code)) where
  code := by
    rw [byteLength_append, slice?_append, String.toList_ofList]
  startLine := by
    have hslice := slice?_append [] front (code ++ back)
    rw [byteLength_nil, Nat.zero_add, List.nil_append, ← List.append_assoc] at hslice
    rw [slice, hslice]
    rfl

/-! ## Lines around a match -/

/-- How a text in front of a match is divided into what is left out and what is shown, without or
with a further line above that of the match. -/
inductive ShownAbove : Bool → List Char → List Char → Prop
  /-- The line of the match. -/
  | line {front line : List Char} (hfront : IsWhole front) (hline : '\n' ∉ line) :
      ShownAbove false front line
  /-- There is no line above that of the match. -/
  | none {line : List Char} (hline : '\n' ∉ line) : ShownAbove true [] line
  /-- The line above, and that of the match. -/
  | further {front upper line : List Char} (hfront : IsWhole front) (hupper : '\n' ∉ upper)
      (hline : '\n' ∉ line) : ShownAbove true front (upper ++ '\n' :: line)

/-- How a text behind a match is divided into what is shown and what is left out, without or with a
further line below that of the match. -/
inductive ShownBelow : Bool → List Char → List Char → Prop
  /-- The line of the match. -/
  | line {line back : List Char} (hline : '\n' ∉ line) (hback : IsBehindLine back) :
      ShownBelow false line back
  /-- There is no line below that of the match. -/
  | none {line : List Char} (hline : '\n' ∉ line) : ShownBelow true line []
  /-- The line of the match, and the one below, which may be the empty one behind the last line
  feed. -/
  | further {line lower back : List Char} (hline : '\n' ∉ line) (hlower : '\n' ∉ lower)
      (hback : IsBehindLine back) : ShownBelow true (line ++ '\n' :: lower) back

section Shown

variable {more : Bool} {before after front above below back : List Char}

/-- Where a frame starts, and on which line. -/
theorem exists_shownAbove (more : Bool) (before rest : List Char) :
    ∃ front above, before = front ++ above ∧ ShownAbove more front above ∧
      (if more && decide (0 < lineStart (before ++ rest) (byteLength before)) then
        lineStart (before ++ rest) (lineStart (before ++ rest) (byteLength before) - 1)
      else lineStart (before ++ rest) (byteLength before)) = byteLength front ∧
      (if more && decide (0 < lineStart (before ++ rest) (byteLength before)) then
        lineBreaks before - 1
      else lineBreaks before) = lineBreaks front := by
  obtain ⟨front, line, rfl, hfront, hline⟩ := exists_isWhole before
  rw [lineStart_eq hfront hline]
  cases more with
  | false => exact ⟨front, line, rfl, .line hfront hline, rfl, lineBreaks_append front hline⟩
  | true =>
      by_cases hempty : front = []
      · subst hempty
        exact ⟨[], line, rfl, .none hline, rfl, lineBreaks_append [] hline⟩
      · -- the whole lines end with the line feed in front of the match's line
        obtain ⟨lines, rfl⟩ := hfront.eq_append hempty
        obtain ⟨front, upper, rfl, hfront, hupper⟩ := exists_isWhole lines
        have hpos : 0 < byteLength (front ++ upper ++ ['\n']) := by
          rw [byteLength_concat_break]
          omega
        have hcat : front ++ upper ++ ['\n'] ++ line ++ rest =
            front ++ upper ++ ('\n' :: line ++ rest) := by simp
        refine ⟨front, upper ++ '\n' :: line, by simp, .further hfront hupper hline, ?_, ?_⟩
        · rw [if_pos (by simpa using hpos), byteLength_concat_break, Nat.add_sub_cancel, hcat,
            lineStart_eq hfront hupper]
        · rw [if_pos (by simpa using hpos), lineBreaks_append _ hline]
          have hbreaks := lineBreaks_append front hupper
          rw [lineBreaks, List.count_append, ← lineBreaks, hbreaks]
          rfl

/-- Where a frame ends. -/
theorem exists_shownBelow (more : Bool) (before after : List Char) :
    ∃ below back, after = below ++ back ∧ ShownBelow more below back ∧
      (if more && decide (lineEnd (before ++ after) (byteLength before) <
          byteLength (before ++ after)) then
        lineEnd (before ++ after) (lineEnd (before ++ after) (byteLength before) + 1)
      else lineEnd (before ++ after) (byteLength before)) = byteLength (before ++ below) := by
  obtain ⟨line, back, rfl, hline, hback⟩ := exists_isBehindLine after
  rw [lineEnd_eq before hline hback]
  cases more with
  | false => exact ⟨line, back, rfl, .line hline hback, rfl⟩
  | true =>
      by_cases hempty : back = []
      · subst hempty
        refine ⟨line, [], rfl, .none hline, if_neg ?_⟩
        simp
      · -- the line below starts behind the line feed that ends the match's line
        obtain ⟨rest, rfl⟩ := hback.eq_cons hempty
        obtain ⟨lower, back, rfl, hlower, hback⟩ := exists_isBehindLine rest
        refine ⟨line ++ '\n' :: lower, back, by simp, .further hline hlower hback, ?_⟩
        have hcat : before ++ (line ++ '\n' :: (lower ++ back)) =
            before ++ line ++ ['\n'] ++ (lower ++ back) := by simp
        have hcat' : before ++ line ++ ['\n'] ++ lower =
            before ++ (line ++ '\n' :: lower) := by simp
        have hlt : byteLength (before ++ line) <
            byteLength (before ++ (line ++ '\n' :: (lower ++ back))) := by
          rw [hcat, byteLength_append _ (lower ++ back), byteLength_concat_break]
          omega
        rw [if_pos (by simpa using hlt), ← byteLength_concat_break, hcat, lineEnd_eq _ hlower hback,
          hcat']

/-! ## Where a frame starts and ends -/

/-- A frame starts where a line starts. -/
theorem ShownAbove.isWhole (h : ShownAbove more front above) : IsWhole front := by
  cases h with
  | line hfront _ => exact hfront
  | none _ => exact Or.inl rfl
  | further hfront _ _ => exact hfront

/-- A frame ends where a line ends. -/
theorem ShownBelow.isBehindLine (h : ShownBelow more below back) : IsBehindLine back := by
  cases h with
  | line _ hback => exact hback
  | none _ => exact Or.inl rfl
  | further _ _ hback => exact hback

/-- Without a further line a frame starts at the nearest start of a line. -/
theorem ShownAbove.isNearestStart (h : ShownAbove false front above) (rest : List Char) :
    IsNearestStart (front ++ above ++ rest) (byteLength (front ++ above)) (byteLength front) := by
  cases h with
  | line hfront hline => exact isNearestStart_append hfront hline rest

/-- Without a further line a frame ends at the nearest end of a line. -/
theorem ShownBelow.isNearestEnd (h : ShownBelow false below back) (before : List Char) :
    IsNearestEnd (before ++ below ++ back) (byteLength before) (byteLength (before ++ below)) := by
  cases h with
  | line hline hback => exact isNearestEnd_append before hline hback

/-- With a further line a frame starts at the start of a line before the nearest one, if there is
any. -/
theorem ShownAbove.exists_isNearestStart (h : ShownAbove true front above) (rest : List Char) :
    ∃ start, IsNearestStart (front ++ above ++ rest) (byteLength (front ++ above)) start ∧
      (start = 0 → byteLength front = 0) ∧
      (0 < start → IsNearestStart (front ++ above ++ rest) (start - 1) (byteLength front)) := by
  cases h with
  | none hline =>
      refine ⟨0, isNearestStart_append (Or.inl rfl) hline rest, fun _ => rfl, fun hpos => ?_⟩
      exact absurd hpos (Nat.lt_irrefl 0)
  | @further _ upper line hfront hupper hline =>
      have hcat : front ++ (upper ++ '\n' :: line) ++ rest =
          front ++ upper ++ ['\n'] ++ line ++ rest := by simp
      have hcat' : front ++ (upper ++ '\n' :: line) ++ rest =
          front ++ upper ++ ('\n' :: line ++ rest) := by simp
      have hplace : front ++ (upper ++ '\n' :: line) = front ++ upper ++ ['\n'] ++ line := by simp
      -- one byte before the start of the match's line is the end of the line above
      refine ⟨byteLength (front ++ upper ++ ['\n']), ?_, fun hzero => ?_, fun _ => ?_⟩
      · rw [hcat, hplace]
        exact isNearestStart_append (Or.inr (by simp)) hline rest
      · rw [byteLength_concat_break] at hzero
        omega
      · rw [byteLength_concat_break, Nat.add_sub_cancel, hcat']
        exact isNearestStart_append hfront hupper _

/-- With a further line a frame ends at the end of a line behind the nearest one, if there is
any. -/
theorem ShownBelow.exists_isNearestEnd (h : ShownBelow true below back) (before : List Char) :
    ∃ stop, IsNearestEnd (before ++ below ++ back) (byteLength before) stop ∧
      (stop = byteLength (before ++ below ++ back) → byteLength (before ++ below) = stop) ∧
      (stop < byteLength (before ++ below ++ back) →
        IsNearestEnd (before ++ below ++ back) (stop + 1) (byteLength (before ++ below))) := by
  cases h with
  | none hline =>
      refine ⟨byteLength (before ++ below), isNearestEnd_append before hline (Or.inl rfl),
        fun _ => rfl, fun hlt => ?_⟩
      rw [List.append_nil] at hlt
      exact absurd hlt (Nat.lt_irrefl _)
  | @further line lower _ hline hlower hback =>
      have hcat : before ++ (line ++ '\n' :: lower) ++ back =
          before ++ line ++ ('\n' :: lower ++ back) := by simp
      have hcat' : before ++ (line ++ '\n' :: lower) ++ back =
          before ++ line ++ ['\n'] ++ lower ++ back := by simp
      have hplace : before ++ (line ++ '\n' :: lower) = before ++ line ++ ['\n'] ++ lower := by simp
      refine ⟨byteLength (before ++ line), ?_, fun hall => ?_, fun _ => ?_⟩
      · rw [hcat]
        exact isNearestEnd_append before hline (Or.inr rfl)
      · rw [hcat, byteLength_append _ ('\n' :: lower ++ back), List.cons_append, byteLength_cons]
          at hall
        have hsize := Char.utf8Size_pos '\n'
        omega
      · rw [hplace, ← byteLength_concat_break]
        exact isNearestEnd_append _ hlower hback

end Shown

/-- What a frame shows of a source: of what is in front of the marked text and of what is behind it,
the part up to the end of a line. -/
theorem exists_codeFrame_eq {source : String} {span : Span} {matched : List Char}
    (h : span.Marks source.toList matched) :
    ∃ front above below back, source.toList = front ++ (above ++ matched ++ below) ++ back ∧
      span.startByte = byteLength (front ++ above) ∧
      span.endByte = byteLength (front ++ above ++ matched) ∧
      span.start.line = lineBreaks (front ++ above) ∧
      ShownAbove (decide (lineBreaks matched < 2)) front above ∧
      ShownBelow (decide (lineBreaks matched < 2)) below back ∧
      codeFrame source span =
        { code := String.ofList (above ++ matched ++ below), startLine := lineBreaks front } := by
  obtain ⟨before, after, hsource, hstart, hend, hline⟩ := h.exists_eq
  have hmatched : slice source.toList span.startByte span.endByte = matched := by
    rw [slice, h.text]
    rfl
  have hfew : decide (lineBreaks matched + 1 < 3) = decide (lineBreaks matched < 2) :=
    decide_eq_decide.2 (by omega)
  obtain ⟨front, above, rfl, habove, hfirst, hfirstLine⟩ :=
    exists_shownAbove (decide (lineBreaks matched < 2)) before (matched ++ after)
  obtain ⟨below, back, rfl, hbelow, hlast⟩ :=
    exists_shownBelow (decide (lineBreaks matched < 2)) (front ++ above ++ matched) after
  refine ⟨front, above, below, back, ?_, hstart, hend, hline, habove, hbelow, ?_⟩
  · rw [hsource]
    simp only [List.append_assoc]
  rw [← List.append_assoc, ← hsource, ← hstart] at hfirst hfirstLine
  rw [← hsource, ← hend] at hlast
  have hcode : slice source.toList (byteLength front)
      (byteLength (front ++ above ++ matched ++ below)) = above ++ matched ++ below := by
    have hslice := slice?_append front (above ++ matched ++ below) back
    rw [← byteLength_append] at hslice
    simp only [List.append_assoc] at hslice hsource ⊢
    rw [slice, hsource, hslice]
    rfl
  unfold codeFrame
  dsimp only
  rw [hmatched, hline, hfew, hfirst, hfirstLine, hlast, hcode]

/-- **A frame is made of whole lines.** It shows a part of the source from the start of a line to
the end of one. For a text on three lines or more these are the nearest ones; otherwise there is
one further line above and one below, unless the source starts or ends there. -/
theorem codeFrame_wholeLines {source : String} {span : Span} {matched : List Char}
    (h : span.Marks source.toList matched) :
    ∃ first last, (codeFrame source span).Shows source.toList first last ∧
      StartsLine source.toList first ∧ EndsLine source.toList last ∧
      first ≤ span.startByte ∧ span.endByte ≤ last ∧
      (2 ≤ lineBreaks matched →
        IsNearestStart source.toList span.startByte first ∧
          IsNearestEnd source.toList span.endByte last) ∧
      (lineBreaks matched < 2 →
        ∃ start stop, IsNearestStart source.toList span.startByte start ∧
          IsNearestEnd source.toList span.endByte stop ∧
          (start = 0 → first = 0) ∧
          (0 < start → IsNearestStart source.toList (start - 1) first) ∧
          (stop = byteLength source.toList → last = stop) ∧
          (stop < byteLength source.toList → IsNearestEnd source.toList (stop + 1) last)) := by
  obtain ⟨front, above, below, back, hsource, hstart, hend, -, habove, hbelow, hframe⟩ :=
    exists_codeFrame_eq h
  -- the source as it is divided where the match starts, and where it ends
  have hfore : source.toList = front ++ above ++ (matched ++ below ++ back) := by
    rw [hsource]
    simp only [List.append_assoc]
  have hhind : source.toList = front ++ above ++ matched ++ below ++ back := by
    rw [hsource]
    simp only [List.append_assoc]
  have hlast : byteLength (front ++ (above ++ matched ++ below)) =
      byteLength (front ++ above ++ matched ++ below) := by
    simp only [List.append_assoc]
  refine ⟨byteLength front, byteLength (front ++ above ++ matched ++ below), ?_, ?_, ?_, ?_, ?_, ?_,
    ?_⟩
  · rw [hframe, ← hlast, hsource]
    exact CodeFrame.shows_append front (above ++ matched ++ below) back
  · exact ⟨front, above ++ (matched ++ below ++ back), hfore.trans (List.append_assoc _ _ _), rfl,
      habove.isWhole⟩
  · exact ⟨front ++ above ++ matched ++ below, back, hhind, rfl, hbelow.isBehindLine⟩
  · rw [hstart, byteLength_append]
    omega
  · rw [hend, byteLength_append _ below]
    omega
  · intro hmany
    rw [decide_eq_false (Nat.not_lt.2 hmany)] at habove hbelow
    rw [hstart, hend]
    refine ⟨?_, ?_⟩
    · rw [hfore]
      exact habove.isNearestStart _
    · rw [hhind]
      exact hbelow.isNearestEnd _
  · intro hfew
    rw [decide_eq_true hfew] at habove hbelow
    obtain ⟨start, hnearest, hnone, hfurther⟩ :=
      habove.exists_isNearestStart (matched ++ below ++ back)
    obtain ⟨stop, hnearest', hnone', hfurther'⟩ :=
      hbelow.exists_isNearestEnd (front ++ above ++ matched)
    rw [← hfore] at hnearest hfurther
    rw [← hhind] at hnearest' hnone' hfurther'
    rw [hstart, hend]
    exact ⟨start, stop, hnearest, hnearest', hnone, hfurther, hnone', hfurther'⟩

/-- The call of `g`, on the second line of a source. -/
def spanOfG : Span := ⟨4, 7, ⟨1, 0⟩, ⟨1, 3⟩⟩

/-- The call of `g` is shown with the call of `f` above it and the empty text behind the last line
feed. -/
theorem codeFrame_wholeLines_call :
    spanOfG.Marks "f()\ng()\n".toList "g()".toList ∧
      codeFrame "f()\ng()\n" spanOfG = { code := "f()\ng()\n", startLine := 0 } ∧
      ∃ first last, (codeFrame "f()\ng()\n" spanOfG).Shows "f()\ng()\n".toList first last ∧
        ∃ start stop, IsNearestStart "f()\ng()\n".toList 4 start ∧
          IsNearestEnd "f()\ng()\n".toList 7 stop ∧
          (0 < start → IsNearestStart "f()\ng()\n".toList (start - 1) first) ∧
          (stop < 8 → IsNearestEnd "f()\ng()\n".toList (stop + 1) last) := by
  have hmarks : spanOfG.Marks "f()\ng()\n".toList "g()".toList := by decide
  obtain ⟨first, last, hshows, -, -, -, -, -, hfew⟩ := codeFrame_wholeLines hmarks
  obtain ⟨start, stop, hstart, hstop, -, habove, -, hbelow⟩ := hfew (by decide)
  exact ⟨hmarks, by decide, first, last, hshows, start, stop, hstart, hstop, habove, hbelow⟩

end CodeSearch
