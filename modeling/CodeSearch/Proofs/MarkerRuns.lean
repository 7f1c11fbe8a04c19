import CodeSearch.Wildcard.Basic
import Mathlib.Data.List.Infix

/-!
# Runs of markers

The runs of a text are those pieces of it that hold nothing but markers and are not part of a
longer such piece. So a run is told by what stands before and after it, and what a text has of
wildcards, or of runs that no query may hold, by the ways to take it apart at a run.
-/

set_option autoImplicit false

namespace CodeSearch.Markers

variable {m : Markers} {before after rest text : List Char} {width k : Nat}

/-- A run of markers **stands** in a text between two others, the first of which does not end,
and the second of which does not begin, with a marker. -/
structure Stands (m : Markers) (before : List Char) (width : Nat) (after text : List Char) :
    Prop where
  text_eq : text = before ++ (List.replicate width m.marker ++ after)
  pos : 0 < width
  last : before.getLast? ≠ some m.marker
  head : after.head? ≠ some m.marker

theorem Stands.head_eq (h : m.Stands [] width after text) : text.head? = some m.marker := by
  rw [h.text_eq, List.nil_append, List.head?_append, List.head?_replicate, if_neg h.pos.ne']
  rfl

/-- Behind a run comes what stands after it. -/
theorem Stands.drop_eq (h : m.Stands before width after text) :
    text.drop (before.length + width) = after := by
  rw [h.text_eq, List.drop_length_add_append, List.drop_left' List.length_replicate]

theorem not_stands_nil : ¬ m.Stands before width after [] := by
  intro h
  have hlength := congrArg List.length h.text_eq
  simp only [List.length_nil, List.length_append, List.length_replicate] at hlength
  have := h.pos
  omega

/-- Text of markers alone ends with one. -/
theorem eq_nil_of_part {part other : List Char} (h : List.replicate k m.marker = part ++ other)
    (hlast : part.getLast? ≠ some m.marker) : part = [] := by
  have hmarkers : ∀ c ∈ part, c = m.marker := fun c hc =>
    List.eq_of_mem_replicate (h ▸ List.mem_append_left _ hc)
  cases hpart : part.getLast? with
  | none => exact List.getLast?_eq_none_iff.1 hpart
  | some c =>
      have hmarker := hmarkers c (List.mem_of_getLast? hpart)
      exact absurd (hpart.trans (congrArg some hmarker)) hlast

/-- Behind a character that is no marker the same runs stand. -/
theorem stands_cons {c : Char} (hc : c ≠ m.marker) :
    m.Stands before width after (c :: rest) ↔
      ∃ inner, before = c :: inner ∧ m.Stands inner width after rest := by
  constructor
  · intro h
    cases before with
    | nil => exact absurd (Option.some.inj h.head_eq) hc
    | cons d inner =>
        obtain ⟨rfl, hrest⟩ := List.cons.inj h.text_eq
        refine ⟨inner, rfl, hrest, h.pos, fun hinner => h.last ?_, h.head⟩
        rw [List.getLast?_cons, hinner]
        rfl
  · rintro ⟨inner, rfl, h⟩
    refine ⟨by rw [h.text_eq, List.cons_append], h.pos, ?_, h.head⟩
    cases hinner : inner.getLast? with
    | none =>
        rw [List.getLast?_cons, hinner]
        exact fun heq => hc (Option.some.inj heq)
    | some d =>
        rw [List.getLast?_cons, hinner]
        exact fun heq => h.last (hinner.trans heq)

/-- Two runs at the start of one text, both as long as can be, are the same. -/
theorem replicate_append_inj (hrest : rest.head? ≠ some m.marker)
    (hafter : after.head? ≠ some m.marker)
    (h : List.replicate k m.marker ++ rest = List.replicate width m.marker ++ after) :
    width = k ∧ after = rest := by
  induction k generalizing width with
  | zero =>
      cases width with
      | zero => exact ⟨rfl, h.symm⟩
      | succ width => exact absurd (congrArg List.head? h) hrest
  | succ k ih =>
      cases width with
      | zero => exact absurd (congrArg List.head? h.symm) hafter
      | succ width =>
          obtain ⟨rfl, rfl⟩ := ih (List.cons.inj h).2
          exact ⟨rfl, rfl⟩

/-- Where a text begins with a run, this run stands in it and those that do in what follows. -/
theorem stands_replicate (hk : 0 < k) (hrest : rest.head? ≠ some m.marker) :
    m.Stands before width after (List.replicate k m.marker ++ rest) ↔
      (before = [] ∧ width = k ∧ after = rest) ∨
        ∃ inner, before = List.replicate k m.marker ++ inner ∧
          m.Stands inner width after rest := by
  constructor
  · intro h
    rcases List.append_eq_append_iff.1 h.text_eq with ⟨inner, hbefore, hinner⟩ | ⟨part, hk', hpart⟩
    · by_cases hnil : inner = []
      · subst hnil
        rw [List.append_nil] at hbefore
        have hlast := h.last
        rw [hbefore, List.getLast?_replicate, if_neg hk.ne'] at hlast
        exact absurd rfl hlast
      · refine Or.inr ⟨inner, hbefore, hinner, h.pos, fun hlast => h.last ?_, h.head⟩
        rw [hbefore, List.getLast?_append, hlast]
        rfl
    · obtain rfl := eq_nil_of_part hk' h.last
      obtain ⟨rfl, rfl⟩ := replicate_append_inj hrest h.head h.text_eq
      exact Or.inl ⟨rfl, rfl, rfl⟩
  · rintro (⟨rfl, rfl, rfl⟩ | ⟨inner, rfl, h⟩)
    · exact ⟨rfl, hk, by simp, hrest⟩
    · refine ⟨by rw [h.text_eq, List.append_assoc], h.pos, ?_, h.head⟩
      cases hinner : inner.getLast? with
      | none =>
          rw [List.getLast?_eq_none_iff.1 hinner] at h
          exact absurd h.head_eq hrest
      | some c =>
          rw [List.getLast?_append, hinner]
          exact fun heq => h.last (hinner.trans heq)

/-- A text begins with a run of all its markers up to the first other character. -/
theorem exists_run (m : Markers) (text : List Char) :
    ∃ k rest, text = List.replicate k m.marker ++ rest ∧ rest.head? ≠ some m.marker := by
  induction text with
  | nil => exact ⟨0, [], rfl, by simp⟩
  | cons c text ih =>
      by_cases hc : c = m.marker
      · obtain ⟨k, rest, rfl, hrest⟩ := ih
        exact ⟨k + 1, rest, by rw [hc, List.replicate_succ, List.cons_append], hrest⟩
      · exact ⟨0, c :: text, rfl, fun heq => hc (Option.some.inj heq)⟩

/-- Induction over a text, run by run. -/
theorem run_induction (m : Markers) {motive : List Char → Prop} (nil : motive [])
    (plain : ∀ c rest, c ≠ m.marker → motive rest → motive (c :: rest))
    (run : ∀ k rest, 0 < k → rest.head? ≠ some m.marker → motive rest →
      motive (List.replicate k m.marker ++ rest)) (text : List Char) : motive text := by
  have bounded : ∀ length, ∀ text : List Char, text.length < length → motive text := by
    intro length
    induction length with
    | zero => intro text htext; omega
    | succ length ih =>
        intro text htext
        obtain ⟨k, rest, rfl, hrest⟩ := m.exists_run text
        rw [List.length_append, List.length_replicate] at htext
        cases k with
        | succ k => exact run (k + 1) rest (Nat.succ_pos k) hrest (ih rest (by omega))
        | zero =>
            cases rest with
            | nil => exact nil
            | cons c rest =>
                rw [List.length_cons] at htext
                have hc : c ≠ m.marker := fun heq => hrest (congrArg some heq)
                exact plain c rest hc (ih rest (by omega))
  exact bounded (text.length + 1) text (Nat.lt_succ_self _)

/-! ## The runs that are found -/

/-- Among the runs of a text that comes after others, the last `width` of them markers, are those
that stand in it when these are added in front. -/
theorem mem_runsFrom_iff {place : Nat} {run : MarkerRun} (hwidth : width ≤ place) :
    run ∈ m.runsFrom place width text ↔
      ∃ before after, m.Stands before run.width after (List.replicate width m.marker ++ text) ∧
        run.start + width = before.length + place := by
  obtain ⟨start, runWidth⟩ := run
  induction text generalizing place width with
  | nil =>
      rw [runsFrom, List.append_nil]
      split
      next hzero =>
        subst hzero
        simp only [List.not_mem_nil, List.replicate_zero, not_stands_nil, false_and, exists_false]
      next hzero =>
        have hhead : ([] : List Char).head? ≠ some m.marker := by simp
        rw [← List.append_nil (List.replicate width m.marker)]
        simp only [stands_replicate (Nat.pos_of_ne_zero hzero) hhead, not_stands_nil,
          List.mem_singleton, MarkerRun.mk.injEq]
        constructor
        · rintro ⟨rfl, rfl⟩
          exact ⟨[], [], Or.inl ⟨rfl, rfl, rfl⟩, by simp only [List.length_nil]; omega⟩
        · rintro ⟨before, after, ⟨rfl, rfl, rfl⟩ | ⟨-, -, hfalse⟩, hplace⟩
          · rw [List.length_nil] at hplace
            omega
          · exact hfalse.elim
  | cons c text ih =>
      rw [runsFrom]
      split
      next hc =>
        rw [ih (Nat.succ_le_succ hwidth), List.replicate_succ', List.append_assoc, hc]
        refine exists_congr fun before => exists_congr fun after => and_congr_right fun _ => ?_
        omega
      next hc =>
        have hplain : (∃ before after, m.Stands before runWidth after (c :: text) ∧
            start = before.length + place) ↔
            (⟨start, runWidth⟩ : MarkerRun) ∈ m.runsFrom (place + 1) 0 text := by
          rw [ih (Nat.zero_le _), List.replicate_zero, List.nil_append]
          dsimp only
          constructor
          · rintro ⟨before, after, hstands, hplace⟩
            obtain ⟨inner, rfl, hinner⟩ := (stands_cons hc).1 hstands
            rw [List.length_cons] at hplace
            exact ⟨inner, after, hinner, by omega⟩
          · rintro ⟨inner, after, hinner, hplace⟩
            refine ⟨c :: inner, after, (stands_cons hc).2 ⟨inner, rfl, hinner⟩, ?_⟩
            rw [List.length_cons]
            omega
        split
        next hzero =>
          subst hzero
          exact hplain.symm
        next hzero =>
          have hhead : (c :: text).head? ≠ some m.marker := fun heq => hc (Option.some.inj heq)
          rw [List.mem_cons, ← hplain, MarkerRun.mk.injEq]
          simp only [stands_replicate (Nat.pos_of_ne_zero hzero) hhead]
          constructor
          · rintro (⟨rfl, rfl⟩ | ⟨inner, after, hinner, rfl⟩)
            · exact ⟨[], c :: text, Or.inl ⟨rfl, rfl, rfl⟩, by rw [List.length_nil]; omega⟩
            · refine ⟨_, after, Or.inr ⟨inner, rfl, hinner⟩, ?_⟩
              rw [List.length_append, List.length_replicate]
              omega
          · rintro ⟨before, after, ⟨rfl, rfl, rfl⟩ | ⟨inner, rfl, hinner⟩, hplace⟩
            · rw [List.length_nil] at hplace
              exact Or.inl ⟨by omega, rfl⟩
            · rw [List.length_append, List.length_replicate] at hplace
              exact Or.inr ⟨inner, after, hinner, by omega⟩

/-- **The runs of a text** are those that stand in it. -/
theorem mem_runs_iff {run : MarkerRun} :
    run ∈ m.runs text ↔
      ∃ before after, m.Stands before run.width after text ∧ run.start = before.length := by
  rw [runs, mem_runsFrom_iff (Nat.le_refl 0), List.replicate_zero, List.nil_append]
  simp only [Nat.add_zero]

/-- What stands in a part of a text stands in the text, if the part is not cut out of a run. -/
theorem Stands.of_part {first last : List Char} (h : m.Stands before width after text)
    (hfirst : first.getLast? ≠ some m.marker) (hlast : last.head? ≠ some m.marker) :
    m.Stands (first ++ before) width (after ++ last) (first ++ text ++ last) := by
  refine ⟨by simp only [h.text_eq, List.append_assoc], h.pos, ?_, ?_⟩
  · rw [List.getLast?_append]
    cases hbefore : before.getLast? with
    | none => exact hfirst
    | some c => exact fun heq => h.last (hbefore.trans heq)
  · rw [List.head?_append]
    cases hafter : after.head? with
    | none => exact hlast
    | some c => exact fun heq => h.head (hafter.trans heq)

/-- A text has wildcards if two or three markers stand in it as a run. -/
theorem scan_ne_nil_iff :
    m.scan text ≠ [] ↔
      ∃ before width after, m.Stands before width after text ∧ (width = 2 ∨ width = 3) := by
  constructor
  · intro h
    obtain ⟨_, ho⟩ := List.exists_mem_of_ne_nil _ h
    obtain ⟨run, hrun, -⟩ := List.mem_map.1 ho
    obtain ⟨hmem, hwidth⟩ := List.mem_filter.1 hrun
    obtain ⟨before, after, hstands, -⟩ := mem_runs_iff.1 hmem
    rw [Bool.or_eq_true, beq_iff_eq, beq_iff_eq] at hwidth
    exact ⟨before, run.width, after, hstands, hwidth⟩
  · rintro ⟨before, width, after, hstands, hwidth⟩
    have hrun : ⟨before.length, width⟩ ∈ m.runs text :=
      mem_runs_iff.2 ⟨before, after, hstands, rfl⟩
    refine List.ne_nil_of_mem (List.mem_map.2 ⟨_, List.mem_filter.2 ⟨hrun, ?_⟩, rfl⟩)
    rwa [Bool.or_eq_true, beq_iff_eq, beq_iff_eq]

theorem hasWildcard_iff {text : String} :
    m.hasWildcard text = true ↔
      ∃ before width after, m.Stands before width after text.toList ∧ (width = 2 ∨ width = 3) := by
  rw [← scan_ne_nil_iff, hasWildcard, Bool.not_eq_true', List.isEmpty_eq_false_iff]

/-- A text without wildcards has none in a part that is not cut out of a run. -/
theorem hasWildcard_of_part {text part : String} (first last : List Char)
    (htext : text.toList = first ++ part.toList ++ last)
    (hfirst : first.getLast? ≠ some m.marker) (hlast : last.head? ≠ some m.marker)
    (h : m.hasWildcard text = false) : m.hasWildcard part = false := by
  rw [Bool.eq_false_iff] at h ⊢
  intro hpart
  obtain ⟨before, width, after, hstands, hwidth⟩ := hasWildcard_iff.1 hpart
  refine h (hasWildcard_iff.2 ⟨first ++ before, width, after ++ last, ?_, hwidth⟩)
  rw [htext]
  exact hstands.of_part hfirst hlast

/-- A text holds no run that a query may not hold if at most three markers stand together, or four
with an opening brace behind them. -/
theorem findInvalid?_eq_none_iff {text : String} :
    m.findInvalid? text = none ↔
      ∀ before width after, m.Stands before width after text.toList →
        width ≤ 3 ∨ width = 4 ∧ after.head? = some '\x7b' := by
  rw [findInvalid?, Option.map_eq_none_iff, List.find?_eq_none]
  constructor
  · intro hruns before width after hstands
    have hrun := hruns ⟨before.length, width⟩ (mem_runs_iff.2 ⟨before, after, hstands, rfl⟩)
    rw [hstands.drop_eq] at hrun
    simp only [Bool.or_eq_true, decide_eq_true_eq, Bool.and_eq_true, beq_iff_eq, bne_iff_ne,
      not_or, not_and, not_not] at hrun
    by_cases hfour : width = 4
    · exact Or.inr ⟨hfour, hrun.2 hfour⟩
    · exact Or.inl (by omega)
  · intro hstands run hrun
    obtain ⟨before, after, hrun, hstart⟩ := mem_runs_iff.1 hrun
    rw [hstart, hrun.drop_eq]
    simp only [Bool.or_eq_true, decide_eq_true_eq, Bool.and_eq_true, beq_iff_eq, bne_iff_ne,
      not_or, not_and, not_not]
    rcases hstands before run.width after hrun with hthree | ⟨hfour, hbrace⟩
    · exact ⟨by omega, fun hfour => absurd hfour (by omega)⟩
    · exact ⟨by omega, fun _ => hbrace⟩

end CodeSearch.Markers
