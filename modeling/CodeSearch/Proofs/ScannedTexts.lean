import CodeSearch.Proofs.WildcardSpellings

/-!
# Nothing is lost when a text is scanned

The wildcards of a text and the fragments between them are cut out of it by two functions, and a
third one leaves out the aliases. All three cut at the same places: fragments and wildcards put
together by turns are the text, or what is left of it without aliases. A text is thus one required
wildcard, and stands for a subtree, just if it is three markers with at most an alias behind them.
-/

set_option autoImplicit false

namespace CodeSearch

/-- Fragments and pieces by turns, a fragment first. What is left of either comes last. -/
def interleave : List String → List String → String
  | [], pieces => String.join pieces
  | fragment :: fragments, [] => fragment ++ interleave fragments []
  | fragment :: fragments, piece :: pieces => fragment ++ (piece ++ interleave fragments pieces)

/-- The wildcard taken out of its text. -/
def Slot.wildcard (m : Markers) (kind : WildcardKind) (s : Slot) : Wildcard where
  kind := kind
  withAlias := String.ofList (List.replicate s.width m.marker ++ s.aliasText)
  withoutAlias := String.ofList (List.replicate s.width m.marker)
  aliasName := s.aliasName.map String.ofList

namespace Markers

variable {m : Markers} {literal : List Char} {slots : List Slot} {text : String}

/-! ## Pieces of a written text -/

theorem segment_wildcard (front literal : List Char) (s : Slot) (rest : List Slot) :
    segment (front ++ (literal ++ m.write (s :: rest)))
        (s.occurrence (front.length + literal.length)).start
        (s.occurrence (front.length + literal.length)).stop =
      List.replicate s.width m.marker ++ s.aliasText := by
  have hwhole : front ++ (literal ++ m.write (s :: rest)) =
      (front ++ literal) ++ ((List.replicate s.width m.marker ++ s.aliasText) ++
        (s.literal ++ m.write rest)) := by
    simp only [write, List.append_assoc]
  have hstart : (s.occurrence (front.length + literal.length)).start =
      (front ++ literal).length := by
    rw [List.length_append]
    rfl
  have hstop : (s.occurrence (front.length + literal.length)).stop =
      (front ++ literal).length + (List.replicate s.width m.marker ++ s.aliasText).length := by
    rw [List.length_append, List.length_append, List.length_replicate]
    rfl
  rw [hwhole, hstart, hstop, segment_middle]

theorem segment_wildcardRun (front literal : List Char) (s : Slot) (rest : List Slot) :
    segment (front ++ (literal ++ m.write (s :: rest)))
        (s.occurrence (front.length + literal.length)).start
        (s.occurrence (front.length + literal.length)).runStop =
      List.replicate s.width m.marker := by
  have hstart : (s.occurrence (front.length + literal.length)).start =
      (front ++ literal).length := by
    rw [List.length_append]
    rfl
  have hstop : (s.occurrence (front.length + literal.length)).runStop =
      (front ++ literal).length + (List.replicate s.width m.marker).length := by
    rw [List.length_append, List.length_replicate]
    rfl
  rw [← List.append_assoc, hstart, hstop, write, segment_middle]

/-- Wherever they stand, wildcards are taken out as they are written. -/
theorem wildcards_write (kind : WildcardKind) (front literal : List Char) (slots : List Slot) :
    ((Slot.occurrencesFrom (front.length + literal.length) slots).map fun o =>
      { kind
        withAlias := String.ofList (segment (front ++ (literal ++ m.write slots)) o.start o.stop)
        withoutAlias :=
          String.ofList (segment (front ++ (literal ++ m.write slots)) o.start o.runStop)
        aliasName := o.aliasName.map String.ofList : Wildcard }) =
      slots.map (Slot.wildcard m kind) := by
  induction slots generalizing front literal with
  | nil => rfl
  | cons s rest ih =>
      rw [Slot.occurrencesFrom, List.map_cons, List.map_cons, segment_wildcard,
        segment_wildcardRun, append_write_cons, stop_occurrence, ih]
      rfl

/-- Literals and wildcards by turns are what is written with them. -/
theorem interleave_withAlias (kind : WildcardKind) (literal : List Char) (slots : List Slot) :
    interleave ((literal :: slots.map Slot.literal).map String.ofList)
        ((slots.map (Slot.wildcard m kind)).map Wildcard.withAlias) =
      String.ofList (literal ++ m.write slots) := by
  induction slots generalizing literal with
  | nil => simp [interleave, write, String.join]
  | cons s rest ih =>
      calc _ = String.ofList literal ++ ((s.wildcard m kind).withAlias ++
            String.ofList (s.literal ++ m.write rest)) := by rw [← ih]; rfl
        _ = _ := by simp only [Slot.wildcard, write, String.ofList_append, String.append_assoc]

/-- Literals and bare wildcards by turns are what is written without aliases. -/
theorem interleave_withoutAlias (kind : WildcardKind) (literal : List Char) (slots : List Slot) :
    interleave ((literal :: slots.map Slot.literal).map String.ofList)
        ((slots.map (Slot.wildcard m kind)).map Wildcard.withoutAlias) =
      String.ofList (literal ++ m.write (slots.map Slot.bare)) := by
  have hbare : (slots.map (Slot.wildcard m kind)).map Wildcard.withoutAlias =
      ((slots.map Slot.bare).map (Slot.wildcard m kind)).map Wildcard.withAlias := by
    rw [List.map_map, List.map_map, List.map_map]
    refine List.map_congr_left fun s _ => congrArg String.ofList ?_
    exact (List.append_nil _).symm
  have hliterals : slots.map Slot.literal = (slots.map Slot.bare).map Slot.literal := by
    rw [List.map_map]
    rfl
  rw [hbare, hliterals, interleave_withAlias]

namespace Spells

/-- The wildcards of a text are those that it is spelled with. -/
theorem classify_eq (hm : m.StandsApart) (h : m.Spells literal slots)
    (htext : text.toList = literal ++ m.write slots) (context : WildcardContext) :
    ∃ kind, m.classify text context = slots.map (Slot.wildcard m kind) := by
  have hwildcards := fun kind => wildcards_write (m := m) kind [] literal slots
  simp only [List.nil_append, List.length_nil, Nat.zero_add] at hwildcards
  unfold classify
  dsimp only
  rw [htext, h.scan_eq hm]
  exact ⟨_, hwildcards _⟩

/-- No literal that a text is spelled with has a wildcard. -/
theorem scan_literal (h : m.Spells literal slots) :
    ∀ part ∈ literal :: slots.map Slot.literal, m.scan part = [] := by
  induction h with
  | literal hplain => exact List.forall_mem_singleton.2 hplain
  | wildcard hplain _ _ _ _ _ _ ih => exact List.forall_mem_cons.2 ⟨hplain, ih⟩

end Spells

/-! ## Wildcards that stand for a subtree -/

/-- A text that is spelled is one required wildcard without its aliases just if it is spelled with
one required wildcard and nothing else. -/
theorem Spells.bare_eq_required_iff (h : m.Spells literal slots) :
    literal ++ m.write (slots.map Slot.bare) = List.replicate 3 m.marker ↔
      literal = [] ∧ ∃ written?, slots = [⟨3, written?, []⟩] := by
  constructor
  · intro hbare
    cases h with
    | literal hplain =>
        -- three markers would be a wildcard in the literal
        rw [List.map_nil, write, List.append_nil] at hbare
        rw [hbare, scan, runs_replicate (by decide)] at hplain
        simp at hplain
    | @wildcard _ s rest hplain hlast hwidth hhead _ _ hlater =>
        obtain rfl : literal = [] := eq_nil_of_part hbare.symm hlast
        have hrest : s.literal = [] → rest = [] := by
          intro hs
          cases rest with
          | nil => rfl
          | cons t rest =>
              obtain ⟨later, hwrite⟩ := hlater.write_eq_cons
              rw [hs, hwrite] at hhead
              exact absurd rfl hhead
        -- what follows the first run begins with no marker, so that the run is all three of them
        have hnext : (s.literal ++ m.write (rest.map Slot.bare)).head? ≠ some m.marker := by
          cases hs : s.literal with
          | nil => simp [hrest hs, write]
          | cons c literal =>
              rw [hs] at hhead
              exact hhead
        have hthree : List.replicate 3 m.marker ++ [] =
            List.replicate s.width m.marker ++ (s.literal ++ m.write (rest.map Slot.bare)) := by
          rw [List.append_nil, ← hbare]
          rfl
        obtain ⟨hwidth, hafter⟩ := replicate_append_inj (by simp) hnext hthree
        have hs : s.literal = [] := (List.append_eq_nil_iff.1 hafter).1
        obtain rfl := hrest hs
        obtain ⟨width, written?, literal⟩ := s
        obtain rfl : width = 3 := hwidth
        obtain rfl : literal = [] := hs
        exact ⟨rfl, written?, rfl⟩
  · rintro ⟨rfl, written?, rfl⟩
    simp [write, Slot.bare, Slot.aliasText]

/-- A wildcard with nothing around it is read as it is written. -/
theorem spells_alone {width : Nat} (hwidth : width = 2 ∨ width = 3) {written? : Option WrittenAlias}
    (hname : ∀ a, written? = some a → IsAliasName a.name) :
    m.Spells [] [⟨width, written?, []⟩] := by
  refine .wildcard rfl (by simp) hwidth (by simp [write]) (fun a ha => ⟨by simp, ?_⟩)
    (fun _ => rfl) (.literal rfl)
  exact ⟨hname a ha, by simp [write], by simp [write], by simp [write]⟩

/-- **A text stands for a subtree** just if it is three markers, with an alias behind them or
without. -/
theorem isNodeTree_iff (hm : m.StandsApart) :
    m.isNodeTree text = true ↔ ∃ written? : Option WrittenAlias,
      (∀ a, written? = some a → IsAliasName a.name) ∧
        text.toList = List.replicate 3 m.marker ++ (written?.map WrittenAlias.text).getD [] := by
  constructor
  · intro h
    obtain ⟨literal, slots, hspells, htext⟩ := m.exists_spells text.toList
    rw [isNodeTree, beq_iff_eq, hspells.stripAliases_eq hm htext, required,
      String.ofList_inj] at h
    obtain ⟨rfl, written?, rfl⟩ := hspells.bare_eq_required_iff.1 h
    refine ⟨written?, fun a ha => ?_, ?_⟩
    · exact hspells.isAliasName _ (List.mem_singleton.2 rfl) a.name (by simp [Slot.aliasName, ha])
    · rw [htext]
      simp [write, Slot.aliasText]
  · rintro ⟨written?, hname, htext⟩
    have hspells : m.Spells [] [⟨3, written?, []⟩] := spells_alone (Or.inr rfl) hname
    have hwritten : text.toList = [] ++ m.write [⟨3, written?, []⟩] := by
      rw [htext]
      simp [write, Slot.aliasText]
    rw [isNodeTree, beq_iff_eq, hspells.stripAliases_eq hm hwritten, required, String.ofList_inj]
    exact hspells.bare_eq_required_iff.2 ⟨rfl, written?, rfl⟩

/-- An alias behind three markers, in a text: an underscore and a name, which another underscore may
close. -/
theorem exists_alias_iff :
    (∃ written? : Option WrittenAlias, (∀ a, written? = some a → IsAliasName a.name) ∧
        text.toList = List.replicate 3 m.marker ++ (written?.map WrittenAlias.text).getD []) ↔
      text = m.required ∨ ∃ name : String, IsAliasName name.toList ∧
        (text = m.required ++ "_" ++ name ∨ text = m.required ++ "_" ++ name ++ "_") := by
  simp only [← String.toList_inj, required, String.toList_append, String.toList_ofList]
  constructor
  · rintro ⟨written?, hname, htext⟩
    cases written? with
    | none => exact .inl (htext.trans (List.append_nil _))
    | some a =>
        obtain ⟨name, closed⟩ := a
        refine .inr ⟨String.ofList name, ?_, ?_⟩
        · rw [String.toList_ofList]
          exact hname _ rfl
        · rw [String.toList_ofList, htext]
          cases closed with
          | true => exact .inr (by simp [WrittenAlias.text, WrittenAlias.closing])
          | false => exact .inl (by simp [WrittenAlias.text, WrittenAlias.closing])
  · rintro (htext | ⟨name, hname, htext | htext⟩)
    · exact ⟨none, fun a ha => absurd ha (Option.some_ne_none a).symm, by rw [htext]; rfl⟩
    · refine ⟨some ⟨name.toList, false⟩, ?_, ?_⟩
      · intro a ha
        rw [← Option.some.inj ha]
        exact hname
      · simp [htext, WrittenAlias.text, WrittenAlias.closing]
    · refine ⟨some ⟨name.toList, true⟩, ?_, ?_⟩
      · intro a ha
        rw [← Option.some.inj ha]
        exact hname
      · simp [htext, WrittenAlias.text, WrittenAlias.closing]

/-- **Scanning takes a text apart without loss**, whatever it is, if the marker stands apart. There
is one fragment more than there are wildcards. Fragments and wildcards by turns are the text, with
bare wildcards they are the text without aliases, and no fragment has a wildcard. The text stands
for a subtree just if it is three markers, then nothing or an alias. -/
theorem scan_takes_apart (hm : m.StandsApart) (text : String) (context : WildcardContext) :
    (m.fragments text).length = (m.classify text context).length + 1 ∧
      interleave (m.fragments text) ((m.classify text context).map Wildcard.withAlias) = text ∧
      interleave (m.fragments text) ((m.classify text context).map Wildcard.withoutAlias) =
        m.stripAliases text ∧
      (∀ fragment ∈ m.fragments text, m.hasWildcard fragment = false) ∧
      (m.isNodeTree text = true ↔ text = m.required ∨ ∃ name : String, IsAliasName name.toList ∧
        (text = m.required ++ "_" ++ name ∨ text = m.required ++ "_" ++ name ++ "_")) := by
  obtain ⟨literal, slots, hspells, htext⟩ := m.exists_spells text.toList
  obtain ⟨kind, hclassify⟩ := hspells.classify_eq hm htext context
  have hfragments : m.fragments text = (literal :: slots.map Slot.literal).map String.ofList := by
    rw [fragments, hspells.fragments_eq hm htext]
  rw [hfragments, hclassify]
  refine ⟨by simp, ?_, ?_, fun fragment hfragment => ?_, (isNodeTree_iff hm).trans exists_alias_iff⟩
  · rw [interleave_withAlias, ← htext, String.ofList_toList]
  · rw [interleave_withoutAlias, hspells.stripAliases_eq hm htext]
  · obtain ⟨part, hpart, rfl⟩ := List.mem_map.1 hfragment
    rw [hasWildcard, String.toList_ofList, hspells.scan_literal part hpart]
    rfl

/-- A text with two wildcards whose marker takes three bytes, the second of which has no alias since
an underscore stands in front of it. -/
theorem scan_takes_apart_euro :
    let m : Markers := { marker := '€' }
    m.StandsApart ∧
      m.fragments "a€€_x_b_€€€_y" = ["a", "b_", "_y"] ∧
      interleave ["a", "b_", "_y"] ((m.classify "a€€_x_b_€€€_y" .string).map Wildcard.withAlias) =
        "a€€_x_b_€€€_y" ∧
      m.isNodeTree "€€€_x_" = true := by
  intro m
  have hm : m.StandsApart := ⟨by decide, by decide⟩
  have hfragments : m.fragments "a€€_x_b_€€€_y" = ["a", "b_", "_y"] := by decide +kernel
  obtain ⟨-, hwhole, -⟩ := scan_takes_apart hm "a€€_x_b_€€€_y" .string
  rw [hfragments] at hwhole
  obtain ⟨-, -, -, -, htree⟩ := scan_takes_apart hm "€€€_x_" .identifier
  have hname : IsAliasName "x".toList := by decide
  have halias : "€€€_x_" = m.required ++ "_" ++ "x" ++ "_" := by decide +kernel
  exact ⟨hm, hfragments, hwhole, htree.2 (.inr ⟨"x", hname, .inr halias⟩)⟩

end Markers

end CodeSearch
