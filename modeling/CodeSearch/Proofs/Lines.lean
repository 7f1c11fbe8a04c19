import CodeSearch.Text.Lines
import Mathlib.Order.Bounds.Basic

/-!
# Lines of a text

A text is told line by line: the part up to its last line feed is made of whole lines, and what
follows is the last line. What is said of the start and the end of the line around a place is read
off such a division of the text at the place. Of a part made of whole lines, the lines are lines of
the whole text, counted on from those in front of the part.
-/

set_option autoImplicit false

namespace CodeSearch.Text

variable {before after cs front line rest back text last : List Char} {pieces : List (List Char)}
  {i : Nat}

/-! ## The last line -/

/-- A text without line feeds is kept as a whole, read from its end. -/
theorem keep_reverse (h : '\n' ∉ cs) : ∀ c ∈ cs.reverse, (c != '\n') = true := by
  intro c hc
  exact bne_iff_ne.2 fun heq => h (heq ▸ List.mem_reverse.1 hc)

theorem lastLine_of_noBreak (h : '\n' ∉ cs) : lastLine cs = cs := by
  have hall : (cs.reverse ++ []).takeWhile (· != '\n') = cs.reverse ++ [] :=
    List.takeWhile_append_of_pos (keep_reverse h)
  rw [List.append_nil] at hall
  rw [lastLine, hall, List.reverse_reverse]

theorem lastLine_append_break (before : List Char) (h : '\n' ∉ after) :
    lastLine (before ++ '\n' :: after) = after := by
  rw [lastLine, List.reverse_append, List.reverse_cons, List.append_assoc,
    List.takeWhile_append_of_pos (keep_reverse h), List.singleton_append, List.takeWhile_cons]
  simp

/-- A text has no line feed, or a last one. -/
theorem exists_lastBreak (cs : List Char) :
    '\n' ∉ cs ∨ ∃ before after, cs = before ++ '\n' :: after ∧ '\n' ∉ after := by
  induction cs with
  | nil => exact Or.inl List.not_mem_nil
  | cons c cs ih =>
      rcases ih with hnone | ⟨before, after, rfl, hafter⟩
      · by_cases hc : c = '\n'
        · exact Or.inr ⟨[], cs, by rw [hc, List.nil_append], hnone⟩
        · exact Or.inl fun hmem => (List.mem_cons.1 hmem).elim (fun heq => hc heq.symm) hnone
      · exact Or.inr ⟨c :: before, after, rfl, hafter⟩

/-- What is added to the last line. -/
theorem lastLine_append (cs : List Char) (h : '\n' ∉ after) :
    lastLine (cs ++ after) = lastLine cs ++ after := by
  rcases exists_lastBreak cs with hnone | ⟨before, line, rfl, hline⟩
  · have hboth : '\n' ∉ cs ++ after := fun hmem =>
      (List.mem_append.1 hmem).elim hnone h
    rw [lastLine_of_noBreak hboth, lastLine_of_noBreak hnone]
  · have hboth : '\n' ∉ line ++ after := fun hmem =>
      (List.mem_append.1 hmem).elim hline h
    rw [List.append_assoc, List.cons_append, lastLine_append_break before hboth,
      lastLine_append_break before hline]

theorem lineBreaks_append (before : List Char) (h : '\n' ∉ after) :
    lineBreaks (before ++ after) = lineBreaks before := by
  rw [lineBreaks, lineBreaks, List.count_append, List.count_eq_zero.2 h, Nat.add_zero]

/-! ## Whole lines -/

/-- A text is made of **whole lines** if it is empty or ends with a line feed. -/
def IsWhole (cs : List Char) : Prop := cs = [] ∨ cs.getLast? = some '\n'

/-- A text **begins behind a line** if it is empty or starts with a line feed. -/
def IsBehindLine (cs : List Char) : Prop := cs = [] ∨ cs.head? = some '\n'

/-- A text is whole lines and a last line. -/
theorem exists_isWhole (cs : List Char) :
    ∃ front line, cs = front ++ line ∧ IsWhole front ∧ '\n' ∉ line := by
  rcases exists_lastBreak cs with hnone | ⟨before, line, rfl, hline⟩
  · exact ⟨[], cs, rfl, Or.inl rfl, hnone⟩
  · exact ⟨before ++ ['\n'], line, by simp, Or.inr (by simp), hline⟩

/-- A text is a first line and what is behind it. -/
theorem exists_isBehindLine (cs : List Char) :
    ∃ line back, cs = line ++ back ∧ '\n' ∉ line ∧ IsBehindLine back := by
  induction cs with
  | nil => exact ⟨[], [], rfl, List.not_mem_nil, Or.inl rfl⟩
  | cons c cs ih =>
      by_cases hc : c = '\n'
      · exact ⟨[], c :: cs, rfl, List.not_mem_nil, Or.inr (by rw [hc]; rfl)⟩
      · obtain ⟨line, back, rfl, hline, hback⟩ := ih
        refine ⟨c :: line, back, rfl, fun hmem => ?_, hback⟩
        exact (List.mem_cons.1 hmem).elim (fun heq => hc heq.symm) hline

theorem IsWhole.eq_append (h : IsWhole front) (hne : front ≠ []) :
    ∃ lines, front = lines ++ ['\n'] :=
  List.getLast?_eq_some_iff.1 (h.resolve_left hne)

theorem IsBehindLine.eq_cons (h : IsBehindLine back) (hne : back ≠ []) :
    ∃ rest, back = '\n' :: rest :=
  List.head?_eq_some_iff.1 (h.resolve_left hne)

/-! ## Starts and ends of lines -/

theorem byteLength_concat_break (cs : List Char) :
    byteLength (cs ++ ['\n']) = byteLength cs + 1 := by
  rw [byteLength_append]
  rfl

/-- A line starts behind whole lines. -/
theorem lineStart_eq (hfront : IsWhole front) (hline : '\n' ∉ line) (rest : List Char) :
    lineStart (front ++ line ++ rest) (byteLength (front ++ line)) = byteLength front := by
  rw [lineStart, cutAt?_append]
  dsimp only
  by_cases hempty : front = []
  · subst hempty
    rw [List.nil_append, if_neg hline, byteLength_nil]
  · obtain ⟨lines, rfl⟩ := hfront.eq_append hempty
    have hlast : lastLine (lines ++ ['\n'] ++ line) = line := by
      rw [List.append_assoc]
      exact lastLine_append_break lines hline
    rw [if_pos (by simp), hlast, byteLength_append _ line, Nat.add_sub_cancel]

/-- A line ends where a line feed is next, or nothing. -/
theorem lineEnd_eq (before : List Char) (hline : '\n' ∉ line) (hback : IsBehindLine back) :
    lineEnd (before ++ (line ++ back)) (byteLength before) = byteLength (before ++ line) := by
  rw [lineEnd, cutAt?_append]
  dsimp only
  by_cases hempty : back = []
  · subst hempty
    rw [List.append_nil, if_neg hline]
  · obtain ⟨rest, rfl⟩ := hback.eq_cons hempty
    have htake : (line ++ '\n' :: rest).takeWhile (· != '\n') = line := by
      have hkeep : ∀ c ∈ line, (c != '\n') = true := fun c hc =>
        bne_iff_ne.2 fun heq => hline (heq ▸ hc)
      rw [List.takeWhile_append_of_pos hkeep, List.takeWhile_cons_of_neg (by simp),
        List.append_nil]
    rw [if_pos (by simp), htake, byteLength_append]

/-- A line of the text **starts at** a byte: it is the first one, or a line feed is right before
it. -/
def StartsLine (cs : List Char) (byte : Nat) : Prop :=
  ∃ front rest, cs = front ++ rest ∧ byteLength front = byte ∧ IsWhole front

/-- A line of the text **ends at** a byte: the text ends there, or a line feed is next. -/
def EndsLine (cs : List Char) (byte : Nat) : Prop :=
  ∃ front rest, cs = front ++ rest ∧ byteLength front = byte ∧ IsBehindLine rest

/-- The **nearest start** of a line that is not behind a byte. -/
def IsNearestStart (cs : List Char) (byte start : Nat) : Prop :=
  IsGreatest {other | StartsLine cs other ∧ other ≤ byte} start

/-- The **nearest end** of a line that is not before a byte. -/
def IsNearestEnd (cs : List Char) (byte stop : Nat) : Prop :=
  IsLeast {other | EndsLine cs other ∧ byte ≤ other} stop

/-- Of two starts of a text the shorter one is a start of the other. -/
theorem exists_append_of_byteLength_le {a b c d : List Char} (h : a ++ b = c ++ d)
    (hle : byteLength a ≤ byteLength c) : ∃ t, c = a ++ t ∧ b = t ++ d := by
  rcases List.append_eq_append_iff.1 h with ⟨t, rfl, rfl⟩ | ⟨t, rfl, rfl⟩
  · exact ⟨t, rfl, rfl⟩
  · rw [byteLength_append] at hle
    obtain rfl : t = [] := byteLength_eq_zero (by omega)
    exact ⟨[], by simp, rfl⟩

/-- The nearest start of a line before a place is behind the whole lines there. -/
theorem isNearestStart_append (hfront : IsWhole front) (hline : '\n' ∉ line) (rest : List Char) :
    IsNearestStart (front ++ line ++ rest) (byteLength (front ++ line)) (byteLength front) := by
  refine ⟨⟨⟨front, line ++ rest, List.append_assoc _ _ _, rfl, hfront⟩, ?_⟩, ?_⟩
  · rw [byteLength_append]
    omega
  · rintro byte ⟨⟨start, more, hcat, rfl, hstart⟩, hle⟩
    by_contra hlater
    obtain ⟨t, rfl, hline'⟩ := exists_append_of_byteLength_le
      ((List.append_assoc _ _ _).symm.trans hcat) (by omega : byteLength front ≤ byteLength start)
    -- the start reaches into the line, so that its line feed is one of the line
    have hinside : byteLength t ≤ byteLength line := by
      rw [byteLength_append, byteLength_append] at hle
      omega
    obtain ⟨u, rfl, -⟩ := exists_append_of_byteLength_le hline'.symm hinside
    have ht : t ≠ [] := by
      rintro rfl
      simp at hlater
    obtain ⟨lines, hlines⟩ := hstart.eq_append (by simp [ht])
    obtain ⟨inner, last, rfl⟩ := (List.eq_nil_or_concat t).resolve_left ht
    obtain ⟨-, rfl⟩ : front ++ inner = lines ∧ last = '\n' := by
      simpa [← List.append_assoc] using hlines
    exact hline (by simp)

/-- The nearest end of a line behind a place is where the first line there ends. -/
theorem isNearestEnd_append (before : List Char) (hline : '\n' ∉ line) (hback : IsBehindLine back) :
    IsNearestEnd (before ++ line ++ back) (byteLength before) (byteLength (before ++ line)) := by
  refine ⟨⟨⟨before ++ line, back, rfl, rfl, hback⟩, ?_⟩, ?_⟩
  · rw [byteLength_append]
    omega
  · rintro byte ⟨⟨start, more, hcat, rfl, hmore⟩, hle⟩
    obtain ⟨t, rfl, hline'⟩ :=
      exists_append_of_byteLength_le ((List.append_assoc _ _ _).symm.trans hcat) hle
    rw [byteLength_append, byteLength_append]
    by_contra hearlier
    -- the end lies within the line, so that the line feed next to it is one of the line
    obtain ⟨u, rfl, rfl⟩ := exists_append_of_byteLength_le hline'.symm
      (by omega : byteLength t ≤ byteLength line)
    have hu : u ≠ [] := by
      rintro rfl
      simp at hearlier
    obtain ⟨rest, hrest⟩ := hmore.eq_cons (by simp [hu])
    obtain ⟨first, inner, rfl⟩ := List.exists_cons_of_ne_nil hu
    obtain ⟨rfl, -⟩ := List.cons.inj hrest
    exact hline (by simp)

/-! ## Lines by number -/

theorem length_splitOn (cs : List Char) : (cs.splitOn '\n').length = lineBreaks cs + 1 := by
  induction cs with
  | nil => rfl
  | cons c cs ih =>
      rw [List.splitOn_cons_eq_if_modifyHead, lineBreaks, List.count_cons]
      split
      next => rw [List.length_cons, ih, lineBreaks]
      next => rw [List.length_modifyHead, ih, lineBreaks, Nat.add_zero]

/-- Behind whole lines the lines of a text go on. -/
theorem splitOn_append_of_isWhole (h : IsWhole front) (cs : List Char) :
    (front ++ cs).splitOn '\n' = (front.splitOn '\n').dropLast ++ cs.splitOn '\n' := by
  by_cases hempty : front = []
  · subst hempty
    rfl
  · obtain ⟨lines, rfl⟩ := h.eq_append hempty
    rw [List.append_assoc, List.singleton_append, List.splitOn_append_cons_self,
      List.splitOn_append_cons_self, List.splitOn_nil, List.dropLast_concat]

/-- What begins behind a line leaves the lines before it as they are. -/
theorem splitOn_prefix (cs : List Char) (h : IsBehindLine back) :
    cs.splitOn '\n' <+: (cs ++ back).splitOn '\n' := by
  by_cases hempty : back = []
  · subst hempty
    exact ⟨[], by rw [List.append_nil, List.append_nil]⟩
  · obtain ⟨rest, rfl⟩ := h.eq_cons hempty
    rw [List.splitOn_append_cons_self]
    exact List.prefix_append _ _

/-- A line of a part made of whole lines is a line of the whole, counted on from the lines in front
of the part. -/
theorem getElem?_splitOn_append (hfront : IsWhole front) (hback : IsBehindLine back)
    (h : (cs.splitOn '\n')[i]? = some line) :
    ((front ++ cs ++ back).splitOn '\n')[lineBreaks front + i]? = some line := by
  obtain ⟨more, hmore⟩ := splitOn_prefix cs hback
  have hlength : (front.splitOn '\n').dropLast.length = lineBreaks front := by
    rw [List.length_dropLast, length_splitOn, Nat.add_sub_cancel]
  rw [List.append_assoc, splitOn_append_of_isWhole hfront, ← hmore,
    List.getElem?_append_right (by omega), hlength, Nat.add_sub_cancel_left,
    List.getElem?_append_left (List.getElem?_eq_some_iff.1 h).1, h]

/-! ## Lines as printed -/

theorem lines_eq (h : cs.splitOn '\n' = pieces ++ [last]) :
    lines cs = pieces.map dropReturn ++ if last.isEmpty then [] else [last] := by
  rw [lines, h, List.getLast?_concat, List.dropLast_concat, Option.getD_some]

theorem eq_dropReturn (line : List Char) :
    line = dropReturn line ∨ line = dropReturn line ++ ['\r'] := by
  unfold dropReturn
  split
  next hreturn =>
    obtain ⟨text, rfl⟩ := List.getLast?_eq_some_iff.1 hreturn
    rw [List.dropLast_concat]
    exact Or.inr rfl
  next => exact Or.inl rfl

/-- A printed line is a line of the text up to a carriage return at its end. -/
theorem exists_splitOn_of_lines (h : (lines cs)[i]? = some text) :
    ∃ line, (cs.splitOn '\n')[i]? = some line ∧ (line = text ∨ line = text ++ ['\r']) := by
  obtain ⟨pieces, last, hpieces⟩ : ∃ pieces last, cs.splitOn '\n' = pieces ++ [last] :=
    ⟨_, _, (List.dropLast_concat_getLast (List.splitOn_ne_nil '\n' cs)).symm⟩
  rw [lines_eq hpieces] at h
  rw [hpieces]
  rcases Nat.lt_or_ge i pieces.length with hlt | hge
  · rw [List.getElem?_append_left (by simpa using hlt), List.getElem?_map] at h
    obtain ⟨line, hline, rfl⟩ := Option.map_eq_some_iff.1 h
    rw [List.getElem?_append_left hlt]
    exact ⟨line, hline, eq_dropReturn line⟩
  · rw [List.getElem?_append_right (by simpa using hge), List.length_map] at h
    rw [List.getElem?_append_right hge]
    split at h
    next => simp at h
    next => exact ⟨text, h, Or.inl rfl⟩

/-- The last character of a text stands on the last printed line, a line feed ends it. -/
theorem length_lines_concat (cs : List Char) (c : Char) :
    (lines (cs ++ [c])).length = lineBreaks cs + 1 := by
  by_cases hc : c = '\n'
  · -- the empty piece behind the line feed is not printed
    have hpieces : (cs ++ [c]).splitOn '\n' = cs.splitOn '\n' ++ [[]] := by
      rw [hc, List.splitOn_append_cons_self, List.splitOn_nil]
    rw [lines_eq hpieces, List.isEmpty_nil, if_pos rfl, List.append_nil, List.length_map,
      length_splitOn]
  · obtain ⟨front, line, rfl, hfront, hline⟩ := exists_isWhole cs
    have hlast : '\n' ∉ line ++ [c] := fun hmem =>
      (List.mem_append.1 hmem).elim hline fun hmem => hc (List.mem_singleton.1 hmem).symm
    have hpieces : (front ++ line ++ [c]).splitOn '\n' =
        (front.splitOn '\n').dropLast ++ [line ++ [c]] := by
      rw [List.append_assoc, splitOn_append_of_isWhole hfront, List.splitOn_eq_singleton hlast]
    rw [lines_eq hpieces, if_neg (by simp), List.length_append, List.length_map,
      List.length_dropLast, length_splitOn, lineBreaks_append front hline]
    rfl

/-- A place with text behind it is on a printed line. -/
theorem lineBreaks_lt_length_lines (front : List Char) {rest : List Char} (h : rest ≠ []) :
    lineBreaks front < (lines (front ++ rest)).length := by
  obtain ⟨inner, c, rfl⟩ : ∃ inner c, rest = inner ++ [c] :=
    ⟨_, _, (List.dropLast_concat_getLast h).symm⟩
  rw [← List.append_assoc, length_lines_concat, lineBreaks, lineBreaks, List.count_append]
  omega

end CodeSearch.Text
