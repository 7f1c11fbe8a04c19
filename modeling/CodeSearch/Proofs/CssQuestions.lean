import CodeSearch.Proofs.Rules
import CodeSearch.Proofs.TokenFilter

/-!
# What is read of a query in CSS

Numbers are compared in two parts, the number and its unit, and a value with a wildcard may be
matched with the digits of a colour. Either way the whole text is read, unless the marker of
wildcards can stand in a number, and the fields are not.
-/

set_option autoImplicit false

namespace CodeSearch.Css

/-- Whether a character can stand in a number. -/
def isNumeral (c : Char) : Bool := c.isDigit || c == '.' || c == '+' || c == '-'

/-- What is read of a query node. -/
def questions (cx : MatchContext) : Inquiry := fun query =>
  if kinds.isNumber query.kind then
    { texts := if isNumeral cx.markers.marker then [] else [[]] }
  else if query.kind = "plain_value" && query.text.any cx.markers.hasWildcard then
    { texts := [[]] }
  else generalQuestions cx query

/-- The search is in style sheets. -/
structure Speaks (cx : MatchContext) (IsVerbatim : String → Prop) : Prop where
  kinds : cx.kinds = Css.kinds
  before : cx.grammar.rulesBefore = [dimensions, hashWildcard]
  after : cx.grammar.rulesAfter = []
  legible : cx.grammar.Legible IsVerbatim
  verbatim : ∀ kind, IsVerbatim kind
  caseCounts : cx.config.ignoreCase = false

/-! ## Dimensions -/

theorem isNumeral_of_mem_take {seenPoint : Bool} {cs : List Char} {c : Char}
    (h : c ∈ cs.take (numberLength seenPoint cs)) : isNumeral c = true := by
  induction cs generalizing seenPoint with
  | nil => simp at h
  | cons head rest ih =>
      rw [numberLength] at h
      split at h
      next hdigit =>
        rw [List.take_succ_cons] at h
        rcases List.mem_cons.1 h with rfl | h
        · simp [isNumeral, hdigit]
        · exact ih h
      next =>
        split at h
        next hpoint =>
          rw [List.take_succ_cons] at h
          rcases List.mem_cons.1 h with rfl | h
          · rw [Bool.and_eq_true, beq_iff_eq] at hpoint
            simp [isNumeral, hpoint.1]
          · exact ih h
        next => simp at h

/-- A dimension is its number and its unit, and the number has nothing but numerals. -/
theorem splitDimension_eq {text number unit : List Char}
    (h : splitDimension text = (number, unit)) :
    text = number ++ unit ∧ ∀ c ∈ number, isNumeral c = true := by
  unfold splitDimension at h
  dsimp only at h
  rw [List.splitAt_eq] at h
  obtain ⟨rfl, rfl⟩ := Prod.mk.inj h
  refine ⟨(List.take_append_drop _ _).symm, fun c hc => ?_⟩
  split at hc
  next hsign =>
    -- a sign, where there is one, comes before the digits
    rw [List.take_add] at hc
    rcases List.mem_append.1 hc with hc | hc
    · cases text with
      | nil => simp at hc
      | cons head rest =>
          obtain rfl : c = head := by simpa using hc
          have hsign : c = '+' ∨ c = '-' := by simpa using hsign
          rcases hsign with rfl | rfl <;> decide
    · exact isNumeral_of_mem_take hc
  next =>
    rw [Nat.zero_add, List.drop_zero] at hc
    exact isNumeral_of_mem_take hc

/-- Where units match, the file's unit starts with the first fragment of the query's and contains
the others. -/
theorem fragments_of_unitsMatch {config : MatchSettings} (hcase : config.ignoreCase = false)
    {queryUnit fileUnit first : List Char} {later : List (List Char)} {b c : Bindings}
    (h : UnitsMatch config (String.ofList queryUnit) (String.ofList fileUnit) b c)
    (hfragments : Markers.fragmentsFrom queryUnit 0 (config.markers.scan queryUnit) =
      first :: later) :
    first <+: fileUnit ∧ ∀ fragment ∈ later, fragment <:+: fileUnit := by
  rcases h with ⟨-, hmatch⟩ | ⟨hplain, -, hequal⟩
  · rw [hcase] at hmatch
    rw [← String.toList_ofList (l := queryUnit)] at hfragments
    have hvalue := Bindings.prefix_of_matchText? hmatch hfragments
    rwa [String.toList_ofList] at hvalue
  · have hscan : config.markers.scan queryUnit = [] := by
      simpa [Markers.hasWildcard] using hplain
    have hunits : queryUnit = fileUnit := by
      have hlists := congrArg String.toList (hequal hcase)
      rwa [String.toList_ofList, String.toList_ofList] at hlists
    rw [hscan, Markers.fragmentsFrom, List.drop_zero] at hfragments
    obtain ⟨rfl, rfl⟩ := List.cons.inj hfragments
    rw [hunits]
    exact ⟨List.prefix_rfl, by simp⟩

section

variable {cx : MatchContext} {IsVerbatim : String → Prop} {file query : Node} {b c : Bindings}

theorem Speaks.shows_of_text (hs : Speaks cx IsVerbatim) {text : String} {piece : List Char}
    (htext : file.text = some text) (hpiece : piece <:+: text.toList) :
    file.Shows IsVerbatim piece :=
  Or.inr ⟨file, Node.mem_walk_self file, text, htext, hpiece, Or.inl (hs.verbatim _)⟩

/-- The literal text of a number, which may start with the number that stands for any. -/
theorem mem_fragments_of_number (hs : Speaks cx IsVerbatim) {n : Node} {text piece : String}
    (hnumber : kinds.isNumber n.kind = true) (htext : n.text = some text)
    (h : piece ∈ literalPieces cx.grammar cx.markers n) :
    piece.toList ∈ Markers.fragmentsFrom
      ((cx.markers.numeric.toList.isPrefixOf? text.toList).getD text.toList) 0
        (cx.markers.scan
          ((cx.markers.numeric.toList.isPrefixOf? text.toList).getD text.toList)) := by
  have hkind : cx.grammar.kinds.isNumber n.kind = true := by
    rw [← hs.kinds] at hnumber
    exact hnumber
  rw [literalPieces_number hs.legible hkind htext] at h
  have hmem := Markers.mem_fragments h
  rwa [String.toList_ofList] at hmem

/-- Of a number the whole text is shown: the digits are the same, or may be any, and the unit
matches. -/
theorem Accepts.showsPieces (hs : Speaks cx IsVerbatim)
    (hmarker : kinds.isNumber query.kind = true → isNumeral cx.markers.marker = false)
    {verdict : Verdict} (h : Accepts cx.config file query b verdict c) :
    ShowsPieces cx IsVerbatim file query := by
  intro piece hpiece _
  cases h with
  | @anyNumber queryText fileText unit fileNumber fileUnit c hquery hfile hqueryText hfileText
      hnumeric hsplit hunits =>
      obtain ⟨htext, -⟩ := splitDimension_eq hsplit
      obtain ⟨first, later, hfragments⟩ := List.exists_cons_of_ne_nil
        (Markers.fragmentsFrom_ne_nil unit 0 (cx.config.markers.scan unit))
      obtain ⟨hfirst, hlater⟩ := fragments_of_unitsMatch hs.caseCounts hunits hfragments
      have hmem := mem_fragments_of_number hs hquery hqueryText hpiece
      rw [MatchContext.markers, hnumeric, Option.getD_some, hfragments] at hmem
      refine hs.shows_of_text hfileText ?_
      rw [htext]
      refine List.infix_append_of_infix_right ?_
      rcases List.mem_cons.1 hmem with heq | hmem
      · rw [heq]
        exact hfirst.isInfix
      · exact hlater _ hmem
  | @sameNumber queryText fileText number unit fileUnit c hquery hfile hqueryText hfileText
      hnumeric hquerySplit hsplit hunits =>
      obtain ⟨htext, hnumerals⟩ := splitDimension_eq hquerySplit
      obtain ⟨htext', -⟩ := splitDimension_eq hsplit
      obtain ⟨first, later, hfragments⟩ := List.exists_cons_of_ne_nil
        (Markers.fragmentsFrom_ne_nil unit 0 (cx.config.markers.scan unit))
      obtain ⟨hfirst, hlater⟩ := fragments_of_unitsMatch hs.caseCounts hunits hfragments
      -- the number has no marker in it, so that it only adds to the first fragment
      have hplain : cx.config.markers.marker ∉ number := by
        intro hmem
        have hno := hmarker hquery
        rw [MatchContext.markers, hnumerals _ hmem] at hno
        exact absurd hno (by simp)
      have hlast : number.getLast? ≠ some '_' := by
        intro hlast
        have hyes := hnumerals _ (List.mem_of_getLast? hlast)
        revert hyes
        decide
      have hwhole := Markers.fragments_append hplain hlast hfragments
      have hmem := mem_fragments_of_number hs hquery hqueryText hpiece
      rw [MatchContext.markers, hnumeric, Option.getD_none, htext, hwhole] at hmem
      refine hs.shows_of_text hfileText ?_
      rw [htext']
      rcases List.mem_cons.1 hmem with heq | hmem
      · rw [heq]
        exact ((List.prefix_append_right_inj number).2 hfirst).isInfix
      · exact List.infix_append_of_infix_right (hlater _ hmem)
  | @colour pattern colour digits c hquery hfile hpattern hcolour hwildcard hdigits hmatch =>
      have hidentifier : cx.grammar.kinds.isIdentifier query.kind = true := by
        show cx.kinds.isIdentifier query.kind = true
        rw [hs.kinds, hquery]
        decide
      rw [literalPieces_identifier hidentifier hpattern] at hpiece
      rw [hs.caseCounts] at hmatch
      have hpart := Bindings.infix_of_matchText? hmatch hpiece
      rw [String.toList_ofList] at hpart
      refine hs.shows_of_text hcolour ?_
      rw [hdigits]
      exact hpart.trans (List.infix_cons_iff.2 (Or.inr List.infix_rfl))

/-- A comparison that shows the text of a number or a value with a wildcard keeps to the
questions about it. -/
theorem keepsTo_of_text {keys : List FieldPath}
    (hkind : kinds.isNumber query.kind = true ∨
      query.kind = "plain_value" ∧ query.text.any cx.markers.hasWildcard = true)
    (hshows : (kinds.isNumber query.kind = true → isNumeral cx.markers.marker = false) →
      ShowsPieces cx IsVerbatim file query) :
    KeepsTo cx IsVerbatim (questions cx) file query keys := by
  have hown : ShowsPieces cx IsVerbatim file query → ∀ m, query.at? [] = some m →
      ShowsPieces cx IsVerbatim file m ∨
        LeftToChild query keys (fun child => (questions cx child).texts) [] := by
    intro hshows m hm
    obtain rfl : query = m := Option.some.inj hm
    exact Or.inl hshows
  by_cases hnumber : kinds.isNumber query.kind = true
  · by_cases hmarker : isNumeral cx.markers.marker = true
    · -- digits that may be markers are not asked for
      have hquestions : questions cx query = { fields := [] } := by
        rw [questions, if_pos hnumber, if_pos hmarker]
      exact KeepsTo.of_fields hquestions (by simp)
    · have hquestions : questions cx query = { texts := [[]] } := by
        rw [questions, if_pos hnumber, if_neg hmarker]
      exact KeepsTo.of_text hquestions (hown (hshows fun _ => by simpa using hmarker))
  · obtain ⟨hvalue, hwildcard⟩ := hkind.resolve_left hnumber
    have hquestions : questions cx query = { texts := [[]] } := by
      rw [questions, if_neg hnumber, if_pos (by simp [hvalue, hwildcard])]
    exact KeepsTo.of_text hquestions (hown (hshows fun hyes => absurd hyes hnumber))

theorem Accepts.keepsTo (hs : Speaks cx IsVerbatim) {verdict : Verdict}
    (h : Accepts cx.config file query b verdict c) :
    KeepsTo cx IsVerbatim (questions cx) file query verdict.queryKeys := by
  refine keepsTo_of_text ?_ fun hmarker => h.showsPieces hs hmarker
  cases h with
  | anyNumber hquery => exact Or.inl hquery
  | sameNumber hquery => exact Or.inl hquery
  | colour hquery hfile hpattern hcolour hwildcard =>
      refine Or.inr ⟨hquery, ?_⟩
      rw [hpattern]
      exact hwildcard

theorem Speaks.keepsTo_of_readsAll (hs : Speaks cx IsVerbatim) {keys : List FieldPath}
    (hreads : ReadsAll cx IsVerbatim file query keys) :
    KeepsTo cx IsVerbatim (questions cx) file query keys := by
  by_cases hkind : Css.kinds.isNumber query.kind = true ∨
      query.kind = "plain_value" ∧ query.text.any cx.markers.hasWildcard = true
  · refine keepsTo_of_text hkind fun _ => hreads.text ?_
    rw [hs.kinds]
    rintro heq
    rw [heq] at hkind
    revert hkind
    have hno : Css.kinds.isNumber Css.kinds.block = false ∧ Css.kinds.block ≠ "plain_value" := by
      decide
    simp [hno.1, hno.2]
  · refine hreads.keepsTo ?_
    rw [not_or] at hkind
    rw [questions, if_neg hkind.1, if_neg (by simpa using hkind.2)]

/-- **All comparisons in CSS keep to the questions.** -/
theorem Speaks.honest (hs : Speaks cx IsVerbatim) : (questions cx).Honest cx IsVerbatim := by
  intro file query b found c h
  induction h with
  | @rule file query b c verdict hrule hagrees =>
      rw [hs.before] at hrule
      exact (rulesBefore_accepts hrule hagrees).keepsTo hs
  | value hrule hfield hinner h ih =>
      exact ih.of_mem_walk (Node.mem_walk_of_mem_offspring
        (Node.mem_offspring_of_child? hinner) (Node.mem_walk_self _))
  | plain hrule hfield h =>
      rcases h.readsAll hs.legible hs.caseCounts with ⟨verdict, -, -, hfirst⟩ | hreads
      · simp [hs.after, Rule.first?] at hfirst
      · exact hs.keepsTo_of_readsAll hreads

end

end CodeSearch.Css
