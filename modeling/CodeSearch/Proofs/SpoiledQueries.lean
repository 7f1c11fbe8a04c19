import CodeSearch.Proofs.Lines
import CodeSearch.Proofs.MarkerRuns
import CodeSearch.Query.Basic

/-!
# Where a query is spoiled

A query may hold no run of five markers or more, and none of four without an opening brace behind
it. Such a run spoils the query in whatever grammar it is read. The first one is found as a number
of bytes in front of it, and reported as a line and a character of the line: these are the line and
the character of the first marker of that run.
-/

set_option autoImplicit false

namespace CodeSearch

/-! ## Places on lines -/

namespace Text

variable {cs front after : List Char}

/-- Taken apart at its line feeds, the text has a character on a line of it, both counted from one,
with the given characters in front of it. -/
def Designates (cs : List Char) (place : Position) (before : List Char) (c : Char) : Prop :=
  ∃ earlier left right later, cs.splitOn '\n' = earlier ++ (left ++ c :: right) :: later ∧
    place = ⟨earlier.length + 1, left.length + 1⟩ ∧
    before = earlier.flatMap (fun line => line ++ ['\n']) ++ left

/-- The lines of a text, each with a line feed behind it. -/
theorem flatMap_splitOn (cs : List Char) :
    (cs.splitOn '\n').flatMap (fun line => line ++ ['\n']) = cs ++ ['\n'] := by
  induction cs with
  | nil => rfl
  | cons c cs ih =>
      obtain ⟨line, lines, hlines⟩ := List.exists_cons_of_ne_nil (List.splitOn_ne_nil '\n' cs)
      rw [hlines, List.flatMap_cons] at ih
      rw [List.splitOn_cons_eq_if_modifyHead, hlines]
      split
      next hc =>
        rw [List.flatMap_cons, List.flatMap_cons, ih, beq_iff_eq.1 hc]
        rfl
      next =>
        rw [List.modifyHead_cons, List.flatMap_cons, List.cons_append, List.cons_append, ih,
          List.cons_append]

/-- Whole lines are made of their lines. -/
theorem IsWhole.flatMap_eq (h : IsWhole front) :
    (front.splitOn '\n').dropLast.flatMap (fun line => line ++ ['\n']) = front := by
  by_cases hempty : front = []
  · subst hempty
    rfl
  · obtain ⟨lines, rfl⟩ := h.eq_append hempty
    rw [List.splitOn_append_cons_self, List.splitOn_nil, List.dropLast_concat, flatMap_splitOn]

theorem IsWhole.lastLine_eq (h : IsWhole front) : lastLine front = [] := by
  by_cases hempty : front = []
  · subst hempty
    rfl
  · obtain ⟨lines, rfl⟩ := h.eq_append hempty
    exact lastLine_append_break lines List.not_mem_nil

/-- The first line of a text. -/
theorem splitOn_eq_cons (hline : '\n' ∉ cs) (hback : IsBehindLine after) :
    ∃ later, (cs ++ after).splitOn '\n' = cs :: later := by
  obtain ⟨later, hlater⟩ := splitOn_prefix cs hback
  rw [List.splitOn_eq_singleton hline] at hlater
  exact ⟨later, hlater.symm⟩

/-- **A character that is no line feed** stands on the line that the line feeds in front of it tell,
behind the characters that come after the last of them. -/
theorem designates_append (before : List Char) {c : Char} (hc : c ≠ '\n') (after : List Char) :
    Designates (before ++ c :: after) ⟨lineBreaks before + 1, (lastLine before).length + 1⟩
      before c := by
  obtain ⟨front, left, rfl, hfront, hleft⟩ := exists_isWhole before
  obtain ⟨right, back, rfl, hright, hback⟩ := exists_isBehindLine after
  have hline : '\n' ∉ left ++ c :: right := by
    simp [hleft, hc.symm, hright]
  obtain ⟨later, hlater⟩ := splitOn_eq_cons hline hback
  refine ⟨(front.splitOn '\n').dropLast, left, right, later, ?_, ?_, ?_⟩
  · rw [← hlater, ← splitOn_append_of_isWhole hfront]
    simp only [List.append_assoc, List.cons_append]
  · rw [lineBreaks_append front hleft, lastLine_append front hleft, hfront.lastLine_eq,
      List.nil_append, List.length_dropLast, length_splitOn, Nat.add_sub_cancel]
  · rw [hfront.flatMap_eq]

end Text

/-! ## The first run that spoils a text -/

namespace Markers

variable {m : Markers} {text : String} {before after : List Char} {width : Nat}

/-- A run that stands in a text **spoils** it if it has five markers or more, or four without an
opening brace behind them. -/
def Spoils (m : Markers) (before : List Char) (width : Nat) (after text : List Char) : Prop :=
  m.Stands before width after text ∧ (5 ≤ width ∨ width = 4 ∧ after.head? ≠ some '\x7b')

/-- Of the runs that spoil a text, the first. -/
def SpoilsFirst (m : Markers) (before : List Char) (width : Nat) (after text : List Char) : Prop :=
  m.Spoils before width after text ∧
    ∀ other k rest, m.Spoils other k rest text → before.length ≤ other.length

/-- Runs are found in the order in which they stand. -/
theorem runsFrom_pairwise (m : Markers) {place width : Nat} (text : List Char)
    (hwidth : width ≤ place) :
    (m.runsFrom place width text).Pairwise fun run later => run.start < later.start := by
  induction text generalizing place width with
  | nil =>
      rw [runsFrom]
      split
      next => exact List.Pairwise.nil
      next => exact List.pairwise_singleton _ _
  | cons c text ih =>
      rw [runsFrom]
      split
      next => exact ih (Nat.succ_le_succ hwidth)
      next =>
        split
        next => exact ih (Nat.zero_le _)
        next =>
          refine List.pairwise_cons.2 ⟨fun later hlater => ?_, ih (Nat.zero_le _)⟩
          obtain ⟨inner, -, -, hplace⟩ := (mem_runsFrom_iff (Nat.zero_le _)).1 hlater
          dsimp only
          omega

/-- Whether a run spoils the text it stands in is told by its width and the character behind it. -/
theorem Stands.spoils_iff {text : List Char} (run : MarkerRun)
    (h : m.Stands before run.width after text) (hstart : run.start = before.length) :
    (decide (5 ≤ run.width) ||
        run.width == 4 && (text.drop (run.start + run.width)).head? != some '\x7b') = true ↔
      m.Spoils before run.width after text := by
  rw [hstart, h.drop_eq, Spoils, and_iff_right h]
  simp only [Bool.or_eq_true, decide_eq_true_eq, Bool.and_eq_true, beq_iff_eq, bne_iff_ne]

theorem findInvalid?_eq_none_iff_not_spoils :
    m.findInvalid? text = none ↔
      ¬ ∃ before width after, m.Spoils before width after text.toList := by
  rw [findInvalid?_eq_none_iff]
  constructor
  · rintro hstands ⟨before, width, after, hrun, hspoils⟩
    rcases hspoils with hfive | ⟨hfour, hbrace⟩
    · -- five markers or more
      rcases hstands before width after hrun with hthree | ⟨hfour, -⟩
      · omega
      · omega
    · -- exactly four
      rcases hstands before width after hrun with hthree | ⟨-, hbehind⟩
      · omega
      · exact hbrace hbehind
  · intro hnone before width after hrun
    by_cases hfive : 5 ≤ width
    · exact absurd ⟨before, width, after, hrun, Or.inl hfive⟩ hnone
    · by_cases hfour : width = 4
      · refine Or.inr ⟨hfour, ?_⟩
        by_contra hbrace
        exact hnone ⟨before, width, after, hrun, Or.inr ⟨hfour, hbrace⟩⟩
      · exact Or.inl (by omega)

/-- **What is found is the first run** that spoils the text. -/
theorem exists_spoilsFirst (h : ∃ before width after, m.Spoils before width after text.toList) :
    ∃ before width after, m.SpoilsFirst before width after text.toList ∧
      m.findInvalid? text = some (Text.byteLength before) := by
  obtain ⟨offset, hoffset⟩ := Option.ne_none_iff_exists'.1
    fun hnone => findInvalid?_eq_none_iff_not_spoils.1 hnone h
  have hfound := hoffset
  rw [findInvalid?, Option.map_eq_some_iff] at hfound
  obtain ⟨run, hrun, rfl⟩ := hfound
  obtain ⟨hspoils, earlier, later, hruns, hearlier⟩ := List.find?_eq_some_iff_append.1 hrun
  obtain ⟨before, after, hstands, hstart⟩ := mem_runs_iff.1 (List.mem_of_find?_eq_some hrun)
  refine ⟨before, run.width, after, ⟨(hstands.spoils_iff run hstart).1 hspoils, ?_⟩, ?_⟩
  · intro other k rest hother
    have hmem : (⟨other.length, k⟩ : MarkerRun) ∈ m.runs text.toList :=
      mem_runs_iff.2 ⟨other, rest, hother.1, rfl⟩
    rw [hruns] at hmem
    rcases List.mem_append.1 hmem with hmem | hmem
    · -- the runs in front of the one that is found do not spoil the text
      have hplain := hearlier _ hmem
      rw [(Stands.spoils_iff ⟨other.length, k⟩ hother.1 rfl).2 hother] at hplain
      exact absurd hplain (by decide)
    · rcases List.mem_cons.1 hmem with rfl | hmem
      · exact Nat.le_of_eq hstart.symm
      · have hpairwise := m.runsFrom_pairwise text.toList (Nat.le_refl 0)
        rw [← runs, hruns, List.pairwise_append] at hpairwise
        have hlater := (List.pairwise_cons.1 hpairwise.2.1).1 _ hmem
        rw [hstart] at hlater
        exact Nat.le_of_lt hlater
  · rw [hoffset, hstart, hstands.text_eq, List.take_left]

end Markers

/-! ## Reading a spoiled query -/

/-- What stands in front of a byte of the text is what designates it. -/
theorem locationOf_byteLength {text : String} {before rest : List Char}
    (htext : text.toList = before ++ rest) :
    locationOf text (Text.byteLength before) =
      ⟨Text.lineBreaks before + 1, (Text.lastLine before).length + 1⟩ := by
  rw [locationOf, htext, Text.cutAt?_append]

/-- A query that no run spoils is not rejected for one. -/
theorem not_invalidWildcard_of_findInvalid? {grammar : Grammar} {config : MatchSettings}
    {text : String} (h : config.markers.findInvalid? text = none) (place : Position) :
    parseQuery grammar config text ≠ .error (.invalidWildcard place) := by
  intro hparse
  rw [parseQuery, h] at hparse
  dsimp only at hparse
  split at hparse
  next => simp at hparse
  next =>
    split at hparse
    next => simp at hparse
    next =>
      split at hparse
      next => simp at hparse
      next => simp at hparse

/-- **Where a query is spoiled**, whatever the grammar. If a run spoils the text, reading it fails
with the line and the character at which the first marker of the first such run stands. If none
does, reading it does not fail like this. -/
theorem parseQuery_invalidWildcard {config : MatchSettings}
    (hmarker : config.markers.marker ≠ '\n') (grammar : Grammar) (text : String) :
    ((∃ before width after, config.markers.Spoils before width after text.toList) →
      ∃ before width after place, config.markers.SpoilsFirst before width after text.toList ∧
        parseQuery grammar config text = .error (.invalidWildcard place) ∧
        Text.Designates text.toList place before config.markers.marker) ∧
      ((¬ ∃ before width after, config.markers.Spoils before width after text.toList) →
        ∀ place, parseQuery grammar config text ≠ .error (.invalidWildcard place)) := by
  constructor
  · intro h
    obtain ⟨before, width, after, hfirst, hoffset⟩ := Markers.exists_spoilsFirst h
    obtain ⟨hstands, -⟩ := hfirst.1
    obtain ⟨k, rfl⟩ : ∃ k, width = k + 1 := ⟨width - 1, (Nat.sub_add_cancel hstands.pos).symm⟩
    have htext : text.toList = before ++ config.markers.marker ::
        (List.replicate k config.markers.marker ++ after) := hstands.text_eq
    refine ⟨before, k + 1, after, _, hfirst, ?_, htext ▸ Text.designates_append before hmarker _⟩
    rw [parseQuery, hoffset, ← locationOf_byteLength htext]
  · exact fun h => not_invalidWildcard_of_findInvalid?
      (Markers.findInvalid?_eq_none_iff_not_spoils.2 h)

/-- A language in which nothing parses. -/
def unreadGrammar : Grammar where
  name := "nothing"
  parse _ := .error ⟨"nothing parses", none⟩

/-- Characters are counted, not bytes: on the second line, behind four markers that a brace follows,
the five markers begin with the seventh character. -/
theorem parseQuery_invalidWildcard_euro :
    let config : MatchSettings := { markers := { marker := '€' } }
    let text := "ä€€\n€€€€\x7bö€€€€€"
    parseQuery unreadGrammar config text = .error (.invalidWildcard ⟨2, 7⟩) ∧
      ∃ before, Text.Designates text.toList ⟨2, 7⟩ before '€' := by
  intro config text
  have hspoils : config.markers.Spoils "ä€€\n€€€€\x7bö".toList 5 [] text.toList :=
    ⟨⟨by decide, by decide, by decide, by decide⟩, Or.inl (Nat.le_refl 5)⟩
  have hmarker : config.markers.marker ≠ '\n' := by decide
  obtain ⟨before, -, -, place, -, hparse, hplace⟩ :=
    (parseQuery_invalidWildcard hmarker unreadGrammar text).1 ⟨_, _, _, hspoils⟩
  have hoffset : config.markers.findInvalid? text = some 24 := by decide +kernel
  have hlocation : locationOf text 24 = ⟨2, 7⟩ := by decide +kernel
  have hreported : parseQuery unreadGrammar config text = .error (.invalidWildcard ⟨2, 7⟩) := by
    rw [parseQuery, hoffset, ← hlocation]
  obtain rfl : place = ⟨2, 7⟩ := by simpa [hparse] using hreported
  exact ⟨hreported, before, hplace⟩

end CodeSearch
