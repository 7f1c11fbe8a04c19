import CodeSearch.Bindings
import CodeSearch.Proofs.MarkerRuns
import CodeSearch.Query.Tokens
import Mathlib.Data.List.Forall2
import Mathlib.Data.List.Infix

/-!
# Literal text of patterns

A text that matches a pattern has a part that spells every piece of literal text of the pattern: the
piece itself when letter case counts, else a part that is the same but for letter case. The pieces
that the token filter looks for are such pieces, or words of them.
-/

set_option autoImplicit false

namespace CodeSearch

/-! ## Text without blanks -/

namespace Text

/-- The text has no blanks. -/
def Unbroken (cs : List Char) : Prop := ∀ c ∈ cs, isBlank c = false

instance (cs : List Char) : Decidable (Unbroken cs) :=
  List.decidableBAll (fun c => isBlank c = false) cs

theorem Unbroken.part {piece cs : List Char} (h : Unbroken cs) (hpiece : piece <:+: cs) :
    Unbroken piece :=
  fun c hc => h c (hpiece.subset hc)

/-- The pieces of a text between blanks are parts of it without blanks, the first at its start. -/
theorem splitOnP_isBlank {cs piece : List Char} {pieces : List (List Char)}
    (h : cs.splitOnP isBlank = piece :: pieces) :
    piece <+: cs ∧ Unbroken piece ∧ ∀ later ∈ pieces, later <:+: cs ∧ Unbroken later := by
  induction cs generalizing piece pieces with
  | nil =>
      obtain ⟨rfl, rfl⟩ : [] = piece ∧ [] = pieces := by simpa [List.splitOnP_nil] using h
      exact ⟨List.nil_prefix, by simp [Unbroken], by simp⟩
  | cons c cs ih =>
      obtain ⟨first, rest, hrest⟩ :=
        List.exists_cons_of_ne_nil (List.splitOnP_ne_nil isBlank cs)
      obtain ⟨hfirst, hunbroken, hlater⟩ := ih hrest
      -- a blank starts a new piece, any other character goes to the front of the first one
      rw [List.splitOnP_cons_eq_if_modifyHead] at h
      split at h
      next hblank =>
        obtain ⟨rfl, rfl⟩ := List.cons.inj h
        refine ⟨List.nil_prefix, by simp [Unbroken], ?_⟩
        rw [hrest]
        refine List.forall_mem_cons.2 ⟨⟨?_, hunbroken⟩, fun later hmem => ?_⟩
        · exact hfirst.isInfix.trans (List.infix_cons_iff.2 (Or.inr List.infix_rfl))
        · exact ⟨(hlater later hmem).1.trans (List.infix_cons_iff.2 (Or.inr List.infix_rfl)),
            (hlater later hmem).2⟩
      next hblank =>
        rw [hrest, List.modifyHead_cons] at h
        obtain ⟨rfl, rfl⟩ := List.cons.inj h
        refine ⟨List.cons_prefix_cons.2 ⟨rfl, hfirst⟩, ?_, fun later hmem => ?_⟩
        · exact List.forall_mem_cons.2 ⟨by simpa using hblank, hunbroken⟩
        · exact ⟨(hlater later hmem).1.trans (List.infix_cons_iff.2 (Or.inr List.infix_rfl)),
            (hlater later hmem).2⟩

/-- A word of a text is a part of it without blanks. -/
theorem infix_of_mem_words {cs word : List Char} (h : word ∈ words cs) :
    word <:+: cs ∧ Unbroken word := by
  have hmem : word ∈ cs.splitOnP isBlank := (List.mem_filter.1 h).1
  obtain ⟨piece, pieces, hpieces⟩ :=
    List.exists_cons_of_ne_nil (List.splitOnP_ne_nil isBlank cs)
  obtain ⟨hfirst, hunbroken, hlater⟩ := splitOnP_isBlank hpieces
  rw [hpieces] at hmem
  rcases List.mem_cons.1 hmem with rfl | hmem
  · exact ⟨hfirst.isInfix, hunbroken⟩
  · exact hlater word hmem

/-- A part without blanks of two texts with a blank in between is a part of one of them. -/
theorem infix_of_unbroken {piece left right : List Char} {blank : Char}
    (hpiece : Unbroken piece) (hblank : isBlank blank = true)
    (h : piece <:+: left ++ blank :: right) : piece <:+: left ∨ piece <:+: right := by
  have houtside : blank ∉ piece := by
    intro hmem
    rw [hpiece blank hmem] at hblank
    exact absurd hblank (by simp)
  have hright : ∀ start, start <+: blank :: right → blank ∉ start → start = [] := by
    intro start hstart hnot
    cases start with
    | nil => rfl
    | cons c rest =>
        obtain ⟨rfl, -⟩ := List.cons_prefix_cons.1 hstart
        exact absurd List.mem_cons_self hnot
  -- the part lies to the left, to the right or across the blank, which it does not contain
  rcases List.infix_append_iff.1 h with hleft | hcons | ⟨before, after, rfl, hbefore, hafter⟩
  · exact Or.inl hleft
  · rcases List.infix_cons_iff.1 hcons with hstart | hpart
    · rw [hright piece hstart houtside]
      exact Or.inl List.nil_infix
    · exact Or.inr hpart
  · have hnil := hright after hafter fun hmem => houtside (List.mem_append_right _ hmem)
    rw [hnil, List.append_nil]
    exact Or.inl hbefore.isInfix

/-- A part without blanks of a text with its blanks collapsed is a part of the text. -/
theorem infix_of_collapse {piece cs : List Char} (hpiece : Unbroken piece)
    (h : piece <:+: collapse cs) : piece <:+: cs := by
  have hwords : ∀ ws : List (List Char), piece <:+: [' '].intercalate ws →
      piece = [] ∨ ∃ w ∈ ws, piece <:+: w := by
    -- words are put together with single blanks, none of which the part can hold
    intro ws
    induction ws with
    | nil => exact fun hnil => Or.inl (List.infix_nil.1 hnil)
    | cons w ws ih =>
        intro hcons
        cases ws with
        | nil =>
            rw [List.intercalate_singleton] at hcons
            exact Or.inr ⟨w, List.mem_cons_self, hcons⟩
        | cons v ws =>
            rw [List.intercalate_cons_cons, List.append_assoc, List.singleton_append] at hcons
            rcases infix_of_unbroken hpiece (by decide) hcons with hw | hrest
            · exact Or.inr ⟨w, List.mem_cons_self, hw⟩
            · rcases ih hrest with hnil | ⟨u, hu, hpart⟩
              · exact Or.inl hnil
              · exact Or.inr ⟨u, List.mem_cons_of_mem _ hu, hpart⟩
  rcases hwords (words cs) h with rfl | ⟨w, hw, hpart⟩
  · exact List.nil_infix
  · exact hpart.trans (infix_of_mem_words hw).1

end Text

/-! ## Fragments of a text with wildcards -/

/-- The wildcard in a text with `k` more characters in front. -/
def Occurrence.shift (k : Nat) (o : Occurrence) : Occurrence := { o with start := o.start + k }

theorem Occurrence.shift_start (k : Nat) (o : Occurrence) : (o.shift k).start = o.start + k := rfl

theorem Occurrence.shift_stop (k : Nat) (o : Occurrence) : (o.shift k).stop = o.stop + k := by
  rw [stop, stop, shift, Nat.add_right_comm]

theorem segment_infix (text : List Char) (start stop : Nat) : segment text start stop <:+: text :=
  (List.take_prefix _ _).isInfix.trans (List.drop_suffix _ _).isInfix

namespace Markers

theorem fragmentsFrom_ne_nil (text : List Char) (cursor : Nat) (wildcards : List Occurrence) :
    fragmentsFrom text cursor wildcards ≠ [] := by
  cases wildcards <;> simp [fragmentsFrom]

theorem fragmentsFrom_length (text : List Char) (cursor : Nat) (wildcards : List Occurrence) :
    (fragmentsFrom text cursor wildcards).length = wildcards.length + 1 := by
  induction wildcards generalizing cursor with
  | nil => rfl
  | cons o rest ih => rw [fragmentsFrom, List.length_cons, ih, List.length_cons]

theorem infix_of_mem_fragmentsFrom {text fragment : List Char} {cursor : Nat}
    {wildcards : List Occurrence} (h : fragment ∈ fragmentsFrom text cursor wildcards) :
    fragment <:+: text := by
  induction wildcards generalizing cursor with
  | nil =>
      obtain rfl := List.mem_singleton.1 h
      exact (List.drop_suffix _ _).isInfix
  | cons o rest ih =>
      rcases List.mem_cons.1 h with rfl | h
      · exact segment_infix text cursor o.start
      · exact ih h

theorem mem_fragments {m : Markers} {text fragment : String} (h : fragment ∈ m.fragments text) :
    fragment.toList ∈ fragmentsFrom text.toList 0 (m.scan text.toList) := by
  obtain ⟨cs, hcs, rfl⟩ := List.mem_map.1 h
  rw [String.toList_ofList]
  exact hcs

/-- A fragment is a part of the text. -/
theorem infix_of_mem_fragments {m : Markers} {text fragment : String}
    (h : fragment ∈ m.fragments text) : fragment.toList <:+: text.toList :=
  infix_of_mem_fragmentsFrom (mem_fragments h)

/-- A text without wildcards is one fragment. -/
theorem fragments_of_not_hasWildcard {m : Markers} {text : String}
    (h : m.hasWildcard text = false) : m.fragments text = [text] := by
  have hscan : m.scan text.toList = [] := by simpa [hasWildcard] using h
  rw [fragments, hscan]
  simp [fragmentsFrom]

/-- A run of markers stands within the text. -/
theorem runsFrom_bound {m : Markers} {before width : Nat} {cs : List Char} {run : MarkerRun}
    (hwidth : width ≤ before) (h : run ∈ m.runsFrom before width cs) :
    run.start + run.width ≤ before + cs.length := by
  induction cs generalizing before width with
  | nil =>
      rw [runsFrom] at h
      split at h
      next => simp at h
      next =>
        obtain rfl := List.mem_singleton.1 h
        show before - width + width ≤ before + 0
        omega
  | cons c cs ih =>
      rw [List.length_cons]
      rw [runsFrom] at h
      split at h
      next =>
        have := ih (by omega) h
        omega
      next =>
        split at h
        next =>
          have := ih (by omega) h
          omega
        next =>
          rcases List.mem_cons.1 h with rfl | h
          · show before - width + width ≤ before + (cs.length + 1)
            omega
          · have := ih (by omega) h
            omega

/-- A wildcard has at least two markers, all within the text. -/
theorem scan_bound {m : Markers} {text : List Char} {o : Occurrence} (h : o ∈ m.scan text) :
    2 ≤ o.width ∧ o.runStop ≤ text.length := by
  obtain ⟨run, hrun, rfl⟩ := List.mem_map.1 h
  obtain ⟨hmem, hwidth⟩ := List.mem_filter.1 hrun
  have hbound := runsFrom_bound (Nat.le_refl 0) hmem
  have hplace : (m.occurrence text run).start = run.start ∧
      (m.occurrence text run).width = run.width := by
    unfold occurrence
    dsimp only
    split <;> exact ⟨rfl, rfl⟩
  have htwo : 2 ≤ run.width := by
    simp only [Bool.or_eq_true, beq_iff_eq] at hwidth
    omega
  refine ⟨by rw [hplace.2]; exact htwo, ?_⟩
  rw [Occurrence.runStop, hplace.1, hplace.2]
  omega

theorem segment_length_le (text : List Char) (cursor start stop : Nat) (h : start ≤ stop) :
    (segment text cursor start).length ≤ (segment text cursor stop).length := by
  simp only [segment, List.length_take, List.length_drop]
  omega

/-- Leaving out aliases leaves at least the fragments. -/
theorem flatten_fragmentsFrom_length_le (text : List Char) (cursor : Nat)
    (wildcards : List Occurrence) :
    (fragmentsFrom text cursor wildcards).flatten.length ≤
      (stripFrom text cursor wildcards).length := by
  induction wildcards generalizing cursor with
  | nil => simp [fragmentsFrom, stripFrom]
  | cons o rest ih =>
      have hrest := ih o.stop
      have hhead := segment_length_le text cursor o.start o.runStop (Nat.le_add_right _ _)
      rw [fragmentsFrom, stripFrom, List.flatten_cons, List.length_append, List.length_append]
      omega

/-- Of a wildcard that stands for a subtree hardly anything is literal text. -/
theorem length_of_isNodeTree {m : Markers} {text fragment : String}
    (hwildcard : m.hasWildcard text = true) (htree : m.isNodeTree text = true)
    (h : fragment ∈ m.fragments text) : fragment.length < minTokenLength := by
  have hstripped : (stripFrom text.toList 0 (m.scan text.toList)).length = 3 := by
    have heq : m.stripAliases text = m.required := by simpa [isNodeTree] using htree
    -- without its alias such a wildcard is the three markers and nothing else
    have hlists := congrArg String.toList heq
    rw [stripAliases, required, String.toList_ofList, String.toList_ofList] at hlists
    rw [hlists, List.length_replicate]
  cases hscan : m.scan text.toList with
  | nil => simp [hasWildcard, hscan] at hwildcard
  | cons o rest =>
      have hfragment := mem_fragments h
      rw [hscan] at hstripped hfragment
      obtain ⟨hwidth, hbound⟩ := scan_bound
        (hscan ▸ List.mem_cons_self : o ∈ m.scan text.toList)
      have hlength : fragment.toList.length ≤
          (fragmentsFrom text.toList 0 (o :: rest)).flatten.length := by
        exact (List.sublist_flatten_of_mem hfragment).length_le
      have hrest := flatten_fragmentsFrom_length_le text.toList o.stop rest
      rw [fragmentsFrom, List.flatten_cons, List.length_append] at hlength
      rw [stripFrom, List.length_append] at hstripped
      -- the first run adds its markers to what is left, and they are no literal text
      have hrun : (segment text.toList 0 o.runStop).length =
          (segment text.toList 0 o.start).length + o.width := by
        simp only [segment, List.drop_zero, List.length_take, Nat.sub_zero]
        rw [Occurrence.runStop] at hbound ⊢
        omega
      rw [String.length_toList] at hlength
      show fragment.length < 2
      omega

/-- The runs of a text do not depend on what comes before it but for their places. -/
theorem runsFrom_add {m : Markers} (k : Nat) {before width : Nat} (h : width ≤ before)
    (cs : List Char) :
    m.runsFrom (before + k) width cs =
      (m.runsFrom before width cs).map fun run => ⟨run.start + k, run.width⟩ := by
  have hstart : before + k - width = before - width + k := by omega
  induction cs generalizing before width with
  | nil =>
      rw [runsFrom, runsFrom]
      split
      next => rfl
      next => rw [hstart]; rfl
  | cons c cs ih =>
      have hnext : before + k + 1 = before + 1 + k := by omega
      rw [runsFrom, runsFrom, hnext]
      split
      next => exact ih (by omega) (by omega)
      next =>
        split
        next => exact ih (by omega) (by omega)
        next => rw [List.map_cons, ih (by omega) (by omega), hstart]

/-- The runs of two texts, one after the other, are found one after the other unless the cut goes
through a run. -/
theorem runsFrom_append {m : Markers} {before width : Nat} {front cs : List Char}
    (hcut : (List.replicate width m.marker ++ front).getLast? ≠ some m.marker ∨
      cs.head? ≠ some m.marker) :
    m.runsFrom before width (front ++ cs) =
      m.runsFrom before width front ++ m.runsFrom (before + front.length) 0 cs := by
  induction front generalizing before width with
  | nil =>
      cases width with
      | zero => rfl
      | succ width =>
          rcases hcut with hlast | hhead
          · rw [List.append_nil, List.getLast?_replicate] at hlast
            exact absurd rfl hlast
          · cases cs with
            | nil => rfl
            | cons c cs =>
                have hc : c ≠ m.marker := fun heq => hhead (congrArg some heq)
                simp [runsFrom, hc]
  | cons c front ih =>
      have hplace : before + (c :: front).length = before + 1 + front.length := by
        rw [List.length_cons]
        omega
      rw [List.cons_append, runsFrom, runsFrom, hplace]
      split
      next hc =>
        refine ih (hcut.imp_left fun hlast => ?_)
        rw [hc] at hlast
        rwa [List.replicate_succ', List.append_assoc]
      next hc =>
        have hrest : m.runsFrom (before + 1) 0 (front ++ cs) =
            m.runsFrom (before + 1) 0 front ++ m.runsFrom (before + 1 + front.length) 0 cs := by
          refine ih (hcut.imp_left fun hlast hfront => hlast ?_)
          rw [List.replicate_zero, List.nil_append] at hfront
          rw [List.getLast?_append, List.getLast?_cons, hfront]
          rfl
        split
        next => exact hrest
        next => rw [hrest, List.cons_append]

theorem runs_append {m : Markers} {front cs : List Char}
    (hcut : front.getLast? ≠ some m.marker ∨ cs.head? ≠ some m.marker) :
    m.runs (front ++ cs) = m.runs front ++
      (m.runs cs).map fun run => ⟨run.start + front.length, run.width⟩ := by
  rw [runs, runs, runs, runsFrom_append (by rwa [List.replicate_zero, List.nil_append]),
    runsFrom_add front.length (Nat.le_refl 0)]

/-- What stands before a text does not change its wildcards but for their places, unless it ends
with an underscore right in front of a run. -/
theorem occurrence_append {m : Markers} {front cs : List Char} {run : MarkerRun}
    (h : front.getLast? ≠ some '_' ∨ cs.take run.start ≠ []) :
    m.occurrence (front ++ cs) ⟨run.start + front.length, run.width⟩ =
      (m.occurrence cs run).shift front.length := by
  have htake : (front ++ cs).take (run.start + front.length) = front ++ cs.take run.start := by
    rw [Nat.add_comm, List.take_length_add_append]
  have hdrop : (front ++ cs).drop (run.start + front.length + run.width) =
      cs.drop (run.start + run.width) := by
    rw [show run.start + front.length + run.width = front.length + (run.start + run.width) by omega,
      List.drop_length_add_append]
  have hlast : (front ++ cs.take run.start).getLast? = some '_' ↔
      (cs.take run.start).getLast? = some '_' := by
    rw [List.getLast?_append]
    cases htaken : (cs.take run.start).getLast? with
    | none => simpa using h.resolve_right (not_not_intro (List.getLast?_eq_none_iff.1 htaken))
    | some c => simp
  unfold occurrence
  simp only [htake, hdrop, hlast]
  split <;> rfl

/-- The runs of a text that are wildcards. -/
def wildcardRuns (m : Markers) (text : List Char) : List MarkerRun :=
  (m.runs text).filter fun run => run.width == 2 || run.width == 3

theorem scan_eq_map (m : Markers) (text : List Char) :
    m.scan text = (m.wildcardRuns text).map (m.occurrence text) := rfl

/-- **The wildcards of two texts, one after the other,** are those of the first and then, but for
their places, those of the second, if the cut goes neither through a run nor between a run and an
underscore in front of it. Only the aliases of the first may reach into the second. -/
theorem scan_append {m : Markers} {front cs : List Char}
    (hcut : front.getLast? ≠ some m.marker ∧ front.getLast? ≠ some '_' ∨
      cs.head? ≠ some m.marker) :
    m.scan (front ++ cs) = (m.wildcardRuns front).map (m.occurrence (front ++ cs)) ++
      (m.scan cs).map (Occurrence.shift front.length) := by
  rw [scan_eq_map, scan_eq_map, wildcardRuns, runs_append (hcut.imp_left And.left),
    List.filter_append, List.filter_map, List.map_append, List.map_map, List.map_map]
  refine congrArg (_ ++ ·) (List.map_congr_left fun run hrun => ?_)
  refine occurrence_append (hcut.imp And.right fun hhead => ?_)
  -- a run does not stand at the start of a text that begins with something else
  obtain ⟨before, after, hstands, hstart⟩ := mem_runs_iff.1 (List.mem_filter.1 hrun).1
  rw [hstart, hstands.text_eq, List.take_left]
  rintro rfl
  exact hhead hstands.head_eq

/-- Behind a text without wildcards those of a text stay as they are. -/
theorem scan_append_of_scan_eq_nil {m : Markers} {front cs : List Char} (hfront : m.scan front = [])
    (hcut : front.getLast? ≠ some m.marker ∧ front.getLast? ≠ some '_' ∨
      cs.head? ≠ some m.marker) :
    m.scan (front ++ cs) = (m.scan cs).map (Occurrence.shift front.length) := by
  rw [scan_eq_map, List.map_eq_nil_iff] at hfront
  rw [scan_append hcut, hfront, List.map_nil, List.nil_append]

theorem scan_eq_nil_of_not_mem {m : Markers} {plain : List Char} (h : m.marker ∉ plain) :
    m.scan plain = [] := by
  have hruns : m.runs plain = [] := List.eq_nil_iff_forall_not_mem.2 fun run hrun => by
    obtain ⟨before, after, hstands, -⟩ := mem_runs_iff.1 hrun
    refine h ?_
    rw [hstands.text_eq, List.mem_append, List.mem_append, List.mem_replicate]
    exact Or.inr (Or.inl ⟨hstands.pos.ne', rfl⟩)
  rw [scan, hruns]
  rfl

theorem fragmentsFrom_append (plain cs : List Char) (cursor : Nat) (wildcards : List Occurrence) :
    fragmentsFrom (plain ++ cs) (cursor + plain.length)
        (wildcards.map (Occurrence.shift plain.length)) =
      fragmentsFrom cs cursor wildcards := by
  have hdrop : ∀ place, (plain ++ cs).drop (place + plain.length) = cs.drop place := by
    intro place
    rw [Nat.add_comm, List.drop_length_add_append]
  induction wildcards generalizing cursor with
  | nil => rw [List.map_nil, fragmentsFrom, fragmentsFrom, hdrop]
  | cons o rest ih =>
      rw [List.map_cons, fragmentsFrom, fragmentsFrom, segment, segment, hdrop,
        Occurrence.shift_start, Occurrence.shift_stop, Nat.add_sub_add_right, ih o.stop]

/-- Text without markers before another text, with an end that leaves an alias alone, becomes part
of the first fragment. -/
theorem fragments_append {m : Markers} {plain cs first : List Char} {later : List (List Char)}
    (hmarker : m.marker ∉ plain) (hlast : plain.getLast? ≠ some '_')
    (h : fragmentsFrom cs 0 (m.scan cs) = first :: later) :
    fragmentsFrom (plain ++ cs) 0 (m.scan (plain ++ cs)) = (plain ++ first) :: later := by
  have hend : plain.getLast? ≠ some m.marker := fun heq =>
    hmarker (List.mem_of_getLast? heq)
  rw [scan_append_of_scan_eq_nil (scan_eq_nil_of_not_mem hmarker) (Or.inl ⟨hend, hlast⟩)]
  cases hscan : m.scan cs with
  | nil =>
      rw [hscan, fragmentsFrom] at h
      obtain ⟨rfl, rfl⟩ := List.cons.inj h
      rfl
  | cons o rest =>
      rw [hscan, fragmentsFrom] at h
      obtain ⟨rfl, rfl⟩ := List.cons.inj h
      rw [List.map_cons, fragmentsFrom, Occurrence.shift_start, Occurrence.shift_stop,
        fragmentsFrom_append]
      simp only [segment, List.drop_zero, Nat.sub_zero]
      rw [Nat.add_comm, List.take_length_add_append]

end Markers

/-! ## Spelling literals -/

/-- A text **spells** a literal if the two agree character by character, up to letter case if that
is ignored. -/
def Text.Spells (ignoreCase : Bool) (literal start : List Char) : Prop :=
  List.Forall₂ (fun l c => Text.sameChar ignoreCase l c = true) literal start

theorem Text.Spells.length_eq {ignoreCase : Bool} {literal start : List Char}
    (h : Text.Spells ignoreCase literal start) : literal.length = start.length :=
  List.Forall₂.length_eq h

/-- When letter case counts, a literal is spelled only by itself. -/
theorem Text.spells_false_iff {literal start : List Char} :
    Text.Spells false literal start ↔ literal = start := by
  have hsame : (fun l c => Text.sameChar false l c = true) = (Eq : Char → Char → Prop) := by
    funext l c
    simp
  rw [Text.Spells, hsame, List.forall₂_eq_eq_eq]

variable {ignoreCase : Bool} {literal text rest start : List Char}

/-- Whatever spells a literal has a part that spells a part of it. -/
theorem Text.Spells.part {piece : List Char} (h : Text.Spells ignoreCase literal start)
    (hpiece : piece <:+: literal) :
    ∃ part, part <:+: start ∧ Text.Spells ignoreCase piece part := by
  obtain ⟨before, after, rfl⟩ := hpiece
  rw [List.append_assoc] at h
  have hlater := List.forall₂_drop_append _ _ _ h.flip
  have hpart := List.forall₂_take_append _ _ _ hlater
  exact ⟨_, (List.take_prefix _ _).isInfix.trans (List.drop_suffix _ _).isInfix, hpart.flip⟩

/-- A literal is dropped from just those texts that start with a text that spells it. -/
theorem dropLiteral?_eq_some_iff : dropLiteral? ignoreCase literal text = some rest ↔
    ∃ start, Text.Spells ignoreCase literal start ∧ text = start ++ rest := by
  induction literal generalizing text with
  | nil =>
      rw [dropLiteral?]
      constructor
      · rintro ⟨⟩
        exact ⟨[], List.Forall₂.nil, rfl⟩
      · rintro ⟨start, hspells, rfl⟩
        cases hspells
        rfl
  | cons l literal ih =>
      constructor
      · intro h
        cases text with
        | nil => simp [dropLiteral?] at h
        | cons c text =>
            rw [dropLiteral?] at h
            split at h
            next hsame =>
              obtain ⟨start, hspells, rfl⟩ := ih.1 h
              exact ⟨c :: start, List.Forall₂.cons hsame hspells, rfl⟩
            next => simp at h
      · rintro ⟨start, hspells, rfl⟩
        cases hspells with
        | cons hsame hspells =>
            rw [List.cons_append, dropLiteral?, if_pos hsame]
            exact ih.2 ⟨_, hspells, rfl⟩

/-- The shortest filler is long enough, and the literal and the rest follow it. -/
theorem shortestFiller?_sound {least : Nat} {filler : List Char}
    (h : shortestFiller? ignoreCase literal least text = some (filler, rest)) :
    least ≤ filler.length ∧
      ∃ start, Text.Spells ignoreCase literal start ∧ text = filler ++ (start ++ rest) := by
  induction text generalizing least filler with
  | nil =>
      cases least with
      | zero =>
          obtain ⟨left, hleft, heq⟩ := Option.map_eq_some_iff.1 h
          obtain ⟨rfl, rfl⟩ := Prod.mk.inj heq
          exact ⟨Nat.le_refl _, dropLiteral?_eq_some_iff.1 hleft⟩
      | succ least => simp [shortestFiller?] at h
  | cons c text ih =>
      -- unless the literal follows at once, the first character goes to the filler
      have hlonger : ∀ least', (shortestFiller? ignoreCase literal least' text).map
          (fun found => (c :: found.1, found.2)) = some (filler, rest) → least ≤ least' + 1 →
          least ≤ filler.length ∧ ∃ start, Text.Spells ignoreCase literal start ∧
            c :: text = filler ++ (start ++ rest) := by
        intro least' hlater hle
        obtain ⟨⟨later, left⟩, hfound, heq⟩ := Option.map_eq_some_iff.1 hlater
        obtain ⟨rfl, rfl⟩ := Prod.mk.inj heq
        obtain ⟨hlength, start, hspells, htext⟩ := ih hfound
        refine ⟨?_, start, hspells, by rw [htext, List.cons_append]⟩
        calc least ≤ least' + 1 := hle
          _ ≤ later.length + 1 := Nat.succ_le_succ hlength
      cases least with
      | zero =>
          rw [shortestFiller?] at h
          split at h
          next left hleft =>
            obtain ⟨rfl, rfl⟩ : [] = filler ∧ left = rest := by simpa using h
            exact ⟨Nat.le_refl _, dropLiteral?_eq_some_iff.1 hleft⟩
          next => exact hlonger 0 h (by omega)
      | succ least =>
          rw [shortestFiller?] at h
          exact hlonger least h (by omega)

/-- When letter case counts, a literal is dropped where it stands. -/
theorem dropLiteral?_false :
    dropLiteral? false literal text = some rest ↔ text = literal ++ rest := by
  rw [dropLiteral?_eq_some_iff]
  constructor
  · rintro ⟨start, hspells, htext⟩
    rw [htext, Text.spells_false_iff.1 hspells]
  · exact fun htext => ⟨literal, Text.spells_false_iff.2 rfl, htext⟩

/-- The last filler is long enough, and nothing follows the literal after it. -/
theorem lastFiller?_eq_some_iff {least : Nat} {filler : List Char} :
    lastFiller? ignoreCase literal least text = some filler ↔ least ≤ filler.length ∧
      ∃ start, Text.Spells ignoreCase literal start ∧ text = filler ++ start := by
  rw [lastFiller?]
  constructor
  · intro h
    split at h
    next hguard =>
      obtain rfl := Option.some.inj h
      obtain ⟨start, hspells, hdrop⟩ := dropLiteral?_eq_some_iff.1 hguard.2
      refine ⟨hguard.1, start, hspells, ?_⟩
      rw [List.append_nil] at hdrop
      rw [← hdrop, List.take_append_drop]
    next => simp at h
  · rintro ⟨hleast, start, hspells, rfl⟩
    have hlength : (filler ++ start).length - literal.length = filler.length := by
      rw [List.length_append, hspells.length_eq]
      omega
    rw [hlength, List.take_left, List.drop_left, if_pos]
    exact ⟨hleast, dropLiteral?_eq_some_iff.2 ⟨start, hspells, by rw [List.append_nil]⟩⟩

namespace Pattern

/-- A text that is filled has a part that spells the literal after each gap. -/
theorem spelled_of_fill? {gaps : List Gap} {fillers : List (List Char)}
    (h : fill? ignoreCase gaps text = some fillers) :
    ∀ gap ∈ gaps, ∃ part, part <:+: text ∧ Text.Spells ignoreCase gap.literal part := by
  induction gaps generalizing text fillers with
  | nil => simp
  | cons gap gaps ih =>
      cases gaps with
      | nil =>
          obtain ⟨filler, hfiller, -⟩ := Option.map_eq_some_iff.1 h
          obtain ⟨-, start, hspells, rfl⟩ := lastFiller?_eq_some_iff.1 hfiller
          exact List.forall_mem_singleton.2 ⟨start, List.infix_append_right, hspells⟩
      | cons next gaps =>
          obtain ⟨⟨filler, rest⟩, hfiller, h⟩ := Option.bind_eq_some_iff.1 h
          obtain ⟨later, hlater, -⟩ := Option.bind_eq_some_iff.1 h
          obtain ⟨-, start, hspells, rfl⟩ := shortestFiller?_sound hfiller
          refine List.forall_mem_cons.2 ⟨⟨start, List.infix_append' _ _ _, hspells⟩, ?_⟩
          intro other hother
          obtain ⟨part, hpart, hspells⟩ := ih hlater other hother
          refine ⟨part, hpart.trans ?_, hspells⟩
          exact List.infix_append_of_infix_right List.infix_append_right

/-- A value that matches starts with a text that spells the literal before the first gap, and has a
part that spells the one after each. -/
theorem spelled_of_captures? {p : Pattern} {value : String} {captures : List Capture}
    (h : p.captures? ignoreCase value = some captures) :
    (∃ start, start <+: value.toList ∧ Text.Spells ignoreCase p.head start) ∧
      ∀ gap ∈ p.gaps, ∃ part, part <:+: value.toList ∧
        Text.Spells ignoreCase gap.literal part := by
  obtain ⟨fillers, hfillers, -⟩ := Option.map_eq_some_iff.1 h
  obtain ⟨rest, hrest, hfill⟩ := Option.bind_eq_some_iff.1 hfillers
  obtain ⟨start, hspells, hvalue⟩ := dropLiteral?_eq_some_iff.1 hrest
  refine ⟨⟨start, ⟨rest, hvalue.symm⟩, hspells⟩, fun gap hgap => ?_⟩
  obtain ⟨part, hpart, hspells⟩ := spelled_of_fill? hfill gap hgap
  rw [hvalue]
  exact ⟨part, List.infix_append_of_infix_right hpart, hspells⟩

theorem gapsOf_literals {wildcards : List Occurrence} {literals : List (List Char)}
    (h : literals.length = wildcards.length) :
    (gapsOf wildcards literals).map Gap.literal = literals := by
  induction wildcards generalizing literals with
  | nil =>
      rw [List.eq_nil_of_length_eq_zero h]
      rfl
  | cons o rest ih =>
      cases literals with
      | nil => simp at h
      | cons literal literals =>
          rw [gapsOf, List.map_cons, ih (by simpa using h)]

/-- A text denotes its first fragment and its wildcards, each with the fragment after it. -/
theorem ofText_eq (m : Markers) (text : String) : ∃ head literals,
    Markers.fragmentsFrom text.toList 0 (m.scan text.toList) = head :: literals ∧
      literals.length = (m.scan text.toList).length ∧
      ofText m text = ⟨head, gapsOf (m.scan text.toList) literals⟩ := by
  obtain ⟨head, literals, hfragments⟩ := List.exists_cons_of_ne_nil
    (Markers.fragmentsFrom_ne_nil text.toList 0 (m.scan text.toList))
  have hlength := Markers.fragmentsFrom_length text.toList 0 (m.scan text.toList)
  rw [hfragments, List.length_cons] at hlength
  refine ⟨head, literals, hfragments, Nat.succ.inj hlength, ?_⟩
  unfold ofText
  dsimp only
  rw [hfragments]

/-- The literal text of the pattern that a text denotes is its fragments. -/
theorem ofText_literals (m : Markers) (text : String) :
    (ofText m text).head :: (ofText m text).gaps.map Gap.literal =
      Markers.fragmentsFrom text.toList 0 (m.scan text.toList) := by
  obtain ⟨head, literals, hfragments, hlength, hof⟩ := ofText_eq m text
  rw [hof, hfragments, gapsOf_literals hlength]

end Pattern

namespace Bindings

variable {b c : Bindings} {m : Markers} {pattern value : String} {kind : WildcardKind}

/-- A value that a text with wildcards matches starts with what spells the first fragment of the
text and has a part that spells each later one. -/
theorem spelled_of_matchText? (h : b.matchText? ignoreCase (.ofText m pattern) value kind = some c)
    {first : List Char} {later : List (List Char)}
    (hfragments : Markers.fragmentsFrom pattern.toList 0 (m.scan pattern.toList) = first :: later) :
    (∃ start, start <+: value.toList ∧ Text.Spells ignoreCase first start) ∧
      ∀ fragment ∈ later, ∃ part, part <:+: value.toList ∧
        Text.Spells ignoreCase fragment part := by
  obtain ⟨captures, hcaptures, -⟩ := Option.bind_eq_some_iff.1 h
  obtain ⟨hhead, hgaps⟩ := Pattern.spelled_of_captures? hcaptures
  rw [← Pattern.ofText_literals] at hfragments
  obtain ⟨rfl, rfl⟩ := List.cons.inj hfragments
  refine ⟨hhead, fun fragment hmem => ?_⟩
  obtain ⟨gap, hgap, rfl⟩ := List.mem_map.1 hmem
  exact hgaps gap hgap

/-- A value that a text with wildcards matches has a part that spells each fragment of the text. -/
theorem exists_part_of_matchText?
    (h : b.matchText? ignoreCase (.ofText m pattern) value kind = some c) {fragment : String}
    (hfragment : fragment ∈ m.fragments pattern) :
    ∃ part, part <:+: value.toList ∧ Text.Spells ignoreCase fragment.toList part := by
  obtain ⟨first, later, hfragments⟩ := List.exists_cons_of_ne_nil
    (Markers.fragmentsFrom_ne_nil pattern.toList 0 (m.scan pattern.toList))
  obtain ⟨⟨start, hstart, hspells⟩, hlater⟩ := spelled_of_matchText? h hfragments
  have hmem := Markers.mem_fragments hfragment
  rw [hfragments] at hmem
  rcases List.mem_cons.1 hmem with heq | hmem
  · exact ⟨start, hstart.isInfix, heq ▸ hspells⟩
  · exact hlater _ hmem

/-- When letter case counts, a value that a text with wildcards matches starts with the first
fragment of the text. -/
theorem prefix_of_matchText? (h : b.matchText? false (.ofText m pattern) value kind = some c)
    {first : List Char} {later : List (List Char)}
    (hfragments : Markers.fragmentsFrom pattern.toList 0 (m.scan pattern.toList) = first :: later) :
    first <+: value.toList ∧ ∀ fragment ∈ later, fragment <:+: value.toList := by
  obtain ⟨⟨start, hstart, hspells⟩, hlater⟩ := spelled_of_matchText? h hfragments
  refine ⟨Text.spells_false_iff.1 hspells ▸ hstart, fun fragment hmem => ?_⟩
  obtain ⟨part, hpart, hspells⟩ := hlater fragment hmem
  exact Text.spells_false_iff.1 hspells ▸ hpart

/-- When letter case counts, a value that a text with wildcards matches contains every fragment of
the text. -/
theorem infix_of_matchText? (h : b.matchText? false (.ofText m pattern) value kind = some c)
    {fragment : String} (hfragment : fragment ∈ m.fragments pattern) :
    fragment.toList <:+: value.toList := by
  obtain ⟨part, hpart, hspells⟩ := exists_part_of_matchText? h hfragment
  exact Text.spells_false_iff.1 hspells ▸ hpart

end Bindings

/-! ## Tokens -/

theorem Text.eq_append_of_isPrefixOf? {start text rest : List Char}
    (h : start.isPrefixOf? text = some rest) : text = start ++ rest := by
  induction start generalizing text with
  | nil =>
      rw [List.isPrefixOf?] at h
      exact Option.some.inj h
  | cons c start ih =>
      cases text with
      | nil => simp [List.isPrefixOf?] at h
      | cons d text =>
          rw [List.isPrefixOf?] at h
          split at h
          next hsame =>
            rw [ih h, eq_of_beq hsame, List.cons_append]
          next => simp at h

theorem Text.isPrefixOf?_append (start rest : List Char) :
    start.isPrefixOf? (start ++ rest) = some rest := by
  induction start with
  | nil => rw [List.isPrefixOf?, List.nil_append]
  | cons c start ih => simp [List.isPrefixOf?, ih]

theorem Text.isPrefixOf?_eq_none {start text : List Char} (h : ¬ start <+: text) :
    start.isPrefixOf? text = none := by
  cases hprefix : start.isPrefixOf? text with
  | none => rfl
  | some rest => exact absurd ⟨rest, (eq_append_of_isPrefixOf? hprefix).symm⟩ h

theorem mem_foldl_insertSorted {text : String} {texts sorted : List String} :
    text ∈ texts.foldl (fun sorted piece => insertSorted piece sorted) sorted ↔
      text ∈ texts ∨ text ∈ sorted := by
  induction texts generalizing sorted with
  | nil => simp
  | cons head rest ih =>
      rw [List.foldl_cons, ih, mem_insertSorted, List.mem_cons]
      constructor
      · rintro (h | h | h)
        · exact Or.inl (Or.inr h)
        · exact Or.inl (Or.inl h)
        · exact Or.inr h
      · rintro ((h | h) | h)
        · exact Or.inr (Or.inl h)
        · exact Or.inl h
        · exact Or.inr (Or.inr h)

/-- When letter case counts, the tokens of a query are the pieces of literal text of its nodes
that are long enough. -/
theorem mem_uniqueTokens {grammar : Grammar} {config : MatchSettings} {query : Node}
    {token : String} (hcase : config.ignoreCase = false) :
    token ∈ uniqueTokens grammar config query ↔ ∃ m ∈ query.walk,
      token ∈ literalPieces grammar config.markers m ∧ minTokenLength ≤ token.length := by
  simp only [uniqueTokens, mem_foldl_insertSorted, List.not_mem_nil, or_false, hcase,
    Bool.false_eq_true, if_false, List.map_id', List.mem_filter, List.mem_flatMap,
    decide_eq_true_eq]
  constructor
  · rintro ⟨⟨m, hm, hpiece⟩, hlength⟩
    exact ⟨m, hm, hpiece, hlength⟩
  · rintro ⟨m, hm, hpiece, hlength⟩
    exact ⟨⟨m, hm, hpiece⟩, hlength⟩

/-- A file passes the filter for one query, letter case counting, if it contains all tokens. -/
theorem passesTokenFilter_iff {content : String} {tokens : List String} :
    passesTokenFilter content [tokens] false = true ↔
      ∀ token ∈ tokens, token.toList <:+: content.toList := by
  simp [passesTokenFilter, Text.occursIn_iff]

end CodeSearch
