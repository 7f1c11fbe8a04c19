import CodeSearch.Proofs.LetterCase
import CodeSearch.Proofs.TokenFilter

/-!
# The token filter when letter case is ignored

When letter case is ignored, the filter looks for each token, in lower case, in the text of the
file, in lower case. The comparison takes texts for the same if they are so in lower case, each by
itself, and matches wildcards by folding. A query can therefore be found in a file that the filter
rejects.

`passesTokenFilter_ignoreCase_iff`: without rules, a file in which a query is found passes the
filter just if it happens to contain the literal text that is not asked for, or not steady.
`tokenFilter_drops_sigma` shows a file that is lost: the token `οδος` ends in a final sigma, while
in `οδοσ.x` the letter after the dot keeps the sigma from being one.
-/

set_option autoImplicit false

namespace CodeSearch

/-! ## Tokens in lower case -/

/-- When letter case is ignored, the tokens of a query are the pieces of literal text of its nodes
that are long enough, in lower case. -/
theorem mem_uniqueTokens_ignoreCase {grammar : Grammar} {config : MatchSettings} {query : Node}
    {token : String} (hcase : config.ignoreCase = true) :
    token ∈ uniqueTokens grammar config query ↔ ∃ m ∈ query.walk,
      ∃ piece ∈ literalPieces grammar config.markers m, minTokenLength ≤ piece.length ∧
        Text.lowercaseString piece = token := by
  simp only [uniqueTokens, mem_foldl_insertSorted, List.not_mem_nil, or_false, hcase, if_true,
    List.mem_map, List.mem_filter, List.mem_flatMap, decide_eq_true_eq]
  constructor
  · rintro ⟨piece, ⟨⟨m, hm, hpiece⟩, hlength⟩, heq⟩
    exact ⟨m, hm, piece, hpiece, hlength, heq⟩
  · rintro ⟨m, hm, piece, hpiece, hlength, heq⟩
    exact ⟨piece, ⟨⟨m, hm, hpiece⟩, hlength⟩, heq⟩

/-- A file passes the filter for one query, letter case ignored, if it contains all literal text of
the query in lower case. -/
theorem passesTokenFilter_ignoreCase {grammar : Grammar} {config : MatchSettings} {query : Node}
    {content : String} (hcase : config.ignoreCase = true) :
    passesTokenFilter content [uniqueTokens grammar config query] true = true ↔
      ∀ m ∈ query.walk, ∀ piece ∈ literalPieces grammar config.markers m,
        minTokenLength ≤ piece.length →
          Text.lowercase piece.toList <:+: Text.lowercase content.toList := by
  have hpasses : passesTokenFilter content [uniqueTokens grammar config query] true = true ↔
      ∀ token ∈ uniqueTokens grammar config query,
        token.toList <:+: Text.lowercase content.toList := by
    simp [passesTokenFilter, Text.occursIn_iff]
  rw [hpasses]
  constructor
  · intro h m hm piece hpiece hlength
    have htoken := (mem_uniqueTokens_ignoreCase hcase).2 ⟨m, hm, piece, hpiece, hlength, rfl⟩
    simpa [Text.lowercaseString] using h _ htoken
  · intro h token htoken
    obtain ⟨m, hm, piece, hpiece, hlength, rfl⟩ := (mem_uniqueTokens_ignoreCase hcase).1 htoken
    simpa [Text.lowercaseString] using h m hm piece hpiece hlength

section

variable {cx : MatchContext}

/-! ## What is asked for agrees with something -/

/-- Without rules, a query node that agrees with a file node agrees plainly with it or with the name
in it that it is compared with. -/
theorem Agree.exists_plainly (hbefore : cx.grammar.rulesBefore = []) {file query : Node}
    {b c : Bindings} {found : Comparison} (h : Agree cx file query b found c) :
    ∃ inner ∈ file.walk, ∃ d plain, AgreePlainly cx inner query d plain c ∧
      plain.queryKeys = found.queryKeys := by
  induction h with
  | rule hrule => simp [hbefore, Rule.first?] at hrule
  | value hrule hfield hchild h ih =>
      obtain ⟨inner, hinner, d, plain, hplain, hkeys⟩ := ih
      have hwalk := Node.mem_walk_of_mem_offspring (Node.mem_offspring_of_child? hchild)
        (Node.mem_walk_self _)
      exact ⟨inner, Node.mem_walk_trans hinner hwalk, d, plain, hplain, hkeys⟩
  | plain hrule hfield h => exact ⟨_, Node.mem_walk_self _, _, _, h, rfl⟩

/-- **A match agrees with all that its query asks for**, without rules: each node that is asked for
agrees plainly with some node of the file. -/
theorem agreePlainly_of_asks (hbefore : cx.grammar.rulesBefore = [])
    (hafter : cx.grammar.rulesAfter = []) {a : Attempt} (ha : (a.outcome cx).agrees = true)
    {m : Node} (h : Asks cx (generalQuestions cx) a.query m) : m.kind ≠ cx.kinds.block ∧
      ∃ file ∈ a.file.walk, ∃ b found c, AgreePlainly cx file m b found c := by
  obtain ⟨file, query, b⟩ := a
  induction query using Node.height_induction generalizing file b m with
  | step query ih =>
      obtain ⟨hagrees, -, -⟩ := Attempt.outcome_eq ha
      obtain ⟨inner, hinner, d, plain, hplain, hkeys⟩ :=
        (compare_agrees hagrees).exists_plainly hbefore
      cases h with
      | text hpath hm =>
          obtain ⟨hblock, rfl⟩ := mem_generalQuestions_texts hpath
          obtain rfl : query = m := Option.some.inj hm
          exact ⟨hblock, inner, hinner, d, plain, _, hplain⟩
      | @field _ c _ path f hpath hf hc hasks =>
          obtain ⟨hread, name, rfl, hname, hcases⟩ := mem_generalQuestions_fields hpath
          have hblock : query.kind = cx.kinds.block → name = childrenField := fun hblock =>
            (hcases.resolve_right fun hother => hother.1 hblock).2
          have hnodes := MatchContext.holdsNodes_of_mem_compared hc
          -- the field is left to agree, so that there is an attempt on each node in it
          rcases hplain.mem_queryKeys hread hf hnodes hname hblock with
            ⟨verdict, -, -, hrule⟩ | hkey
          · simp [hafter, Rule.first?] at hrule
          · rw [hkeys] at hkey
            obtain ⟨g, e, hleads⟩ := Attempt.fieldsAgree_of_mem_queryKeys
              (Grammar.bindsTexts_of_noRules hbefore hafter) ha hkey hf hc
            obtain ⟨hsucceeds, -, -⟩ :=
              hleads.between (Grammar.bindsTexts_of_noRules hbefore hafter) ha
            obtain ⟨hother, deep, hdeep, hagree⟩ := ih c hleads.mem.2.2 g e hsucceeds hasks
            exact ⟨hother, deep, Node.mem_walk_trans hdeep hleads.mem.1, hagree⟩

/-! ## Steady pieces are there -/

/-- A piece of the literal text of a query node is **steady** in a content: it is so as a text, and,
where it is matched along with wildcards, folding takes no more characters of the content for the
same as those of the piece than lower case does. -/
structure SteadyPiece (cx : MatchContext) (content : String) (m : Node) (piece : String) :
    Prop where
  steady : Text.Steady piece.toList
  folds : (cx.sanitized m).any cx.markers.hasWildcard = true →
    Text.FoldsAsLowercase content.toList piece.toList

/-- What a string is compared by is a part of its text. -/
theorem MatchContext.sanitized_part {IsVerbatim : String → Prop}
    (hlegible : cx.grammar.Legible IsVerbatim) (file : Node) :
    ((cx.sanitized file).getD "").toList <:+: (file.text.getD "").toList := by
  rw [MatchContext.sanitized]
  cases file.text with
  | none => exact List.infix_rfl
  | some text => exact hlegible.sanitize_infix file.kind text

/-- **A steady piece is not lost**: where a query node agrees plainly with a file node, a content
with the texts of the file contains the steady pieces of the query node in lower case. -/
theorem AgreePlainly.infix_lowercase {IsVerbatim : String → Prop}
    (hafter : cx.grammar.rulesAfter = []) (hlegible : cx.grammar.Legible IsVerbatim)
    (hcase : cx.config.ignoreCase = true) {root file m : Node} {content : String}
    (hcontent : HoldsTexts content root) (hfile : file ∈ root.walk) {b c : Bindings}
    {found : Comparison} (h : AgreePlainly cx file m b found c) (hblock : m.kind ≠ cx.kinds.block)
    {piece : String} (hpiece : piece ∈ literalPieces cx.grammar cx.markers m)
    (hlength : minTokenLength ≤ piece.length) (hsteady : SteadyPiece cx content m piece) :
    Text.lowercase piece.toList <:+: Text.lowercase content.toList := by
  -- the text of the file node, and so what it is compared by, is found in the content
  have htexts : ∀ part, part <:+: (file.text.getD "").toList → Text.Unbroken part →
      part <:+: content.toList := by
    intro part hpart hunbroken
    cases htext : file.text with
    | none =>
        rw [htext] at hpart
        rw [List.infix_nil.1 hpart]
        exact List.nil_infix
    | some text =>
        rw [htext] at hpart
        exact hcontent file hfile text htext part hpart hunbroken
  cases h with
  | anyTree hname htree =>
      have := length_of_mem_literalPieces_tree hname htree hpiece
      omega
  | tree hname htree =>
      have := length_of_mem_literalPieces_tree hname htree hpiece
      omega
  | @name name value c hname htree hkind hvalue hmatch htyping =>
      obtain ⟨hquery, htext, hwildcard⟩ := MatchContext.nameWildcard?_eq_some hname
      have hfolds := hsteady.folds (by
        rw [MatchContext.sanitized, htext, Option.map_some, Option.any_some,
          hlegible.sanitize_name m.kind name (Or.inl hquery), hwildcard])
      rw [literalPieces_identifier hquery htext] at hpiece
      rw [MatchContext.matchText?, hcase] at hmatch
      obtain ⟨start, hstart, hspells⟩ := Bindings.exists_part_of_matchText? hmatch hpiece
      refine hsteady.steady.infix_of_spells hspells hfolds (htexts start ?_)
      rw [hvalue]
      exact hstart
  | @string pattern c hname hstring hmatch =>
      obtain ⟨hkind, -, hpattern, hwildcard⟩ := MatchContext.stringWildcard?_eq_some hstring
      have hfolds := hsteady.folds (by rw [hpattern, Option.any_some, hwildcard])
      obtain ⟨text, htext, rfl⟩ := Option.map_eq_some_iff.1 hpattern
      obtain ⟨-, fragment, hfragment, hword⟩ :=
        word_of_mem_literalPieces hlegible hkind htext hpiece
      rw [MatchContext.matchText?, hcase] at hmatch
      obtain ⟨start, hstart, hspells⟩ := Bindings.exists_part_of_matchText? hmatch hfragment
      obtain ⟨part, hpart, hspells⟩ := hspells.part hword
      refine hsteady.steady.infix_of_spells hspells hfolds (htexts part ?_)
      exact (hpart.trans hstart).trans (MatchContext.sanitized_part hlegible file)
  | number hname hstring hany hkind =>
      rw [eq_nil_of_mem_literalPieces_anyNumber hlegible hany hpiece]
      exact List.nil_infix
  | block hname hstring hany hwhole =>
      rw [MatchContext.isWholeFile, Bool.and_eq_true, beq_iff_eq] at hwhole
      exact absurd hwhole.1 hblock
  | rule hname hstring hany hrule => simp [hafter, Rule.first?] at hrule
  | fields hname hstring hany hrule hagrees =>
      obtain ⟨hkeys, -⟩ := compareFields_agrees hagrees
      obtain ⟨text, htext, -⟩ := exists_text_of_mem_literalPieces hpiece
      have hkey : textKey ∈ m.keys := by
        rw [Node.keys, htext]
        exact List.mem_append_right _ (by simp)
      have hsame := hkeys.text hkey
      rw [hcase, Text.sameText_iff, htext, Option.getD_some] at hsame
      have hpart := infix_sanitize_of_mem_literalPieces hlegible htext hpiece
      refine hsteady.steady.infix_of_lowercase hpart hsame fun part hin => htexts part ?_
      exact hin.trans (hlegible.sanitize_infix file.kind _)

/-- **What a query asks for is not lost if it is steady**: where a query is found in a tree, a
content with the texts of the tree contains in lower case the steady pieces of all nodes that are
asked for. -/
theorem infix_lowercase_of_asks {IsVerbatim : String → Prop} (hbefore : cx.grammar.rulesBefore = [])
    (hafter : cx.grammar.rulesAfter = []) (hlegible : cx.grammar.Legible IsVerbatim)
    (hcase : cx.config.ignoreCase = true) {root query m : Node} {content : String}
    (hcontent : HoldsTexts content root) (hfound : (traverse cx root query).found ≠ [])
    (hasks : Asks cx (generalQuestions cx) query m) {piece : String}
    (hpiece : piece ∈ literalPieces cx.grammar cx.markers m)
    (hlength : minTokenLength ≤ piece.length) (hsteady : SteadyPiece cx content m piece) :
    Text.lowercase piece.toList <:+: Text.lowercase content.toList := by
  obtain ⟨found, hmem⟩ := List.exists_mem_of_ne_nil _ hfound
  obtain ⟨hnode, hagrees, -⟩ := isMatch_of_traverse hmem
  obtain ⟨hblock, file, hfile, b, compared, c, hagree⟩ :=
    agreePlainly_of_asks (a := ⟨found.node, query, .empty⟩) hbefore hafter hagrees hasks
  exact hagree.infix_lowercase hafter hlegible hcase hcontent (Node.mem_walk_trans hfile hnode)
    hblock hpiece hlength hsteady

/-- **What the token filter is up to when letter case is ignored.** Let a grammar have no rules, and
a content the texts of a file tree in which a query is found. Then the content passes the filter
just if it contains, in lower case, the literal text that the query does not ask for or that is not
steady. A regular query in a regular grammar asks for all its literal text, so that only the text
that is not steady matters. -/
theorem passesTokenFilter_ignoreCase_iff {cx : MatchContext}
    (hbefore : cx.grammar.rulesBefore = []) (hafter : cx.grammar.rulesAfter = [])
    (hlegible : cx.grammar.Legible fun _ => True) (hcase : cx.config.ignoreCase = true)
    {root query : Node} {content : String} (hcontent : HoldsTexts content root)
    (hfound : (traverse cx root query).found ≠ []) :
    (passesTokenFilter content [uniqueTokens cx.grammar cx.config query] true = true ↔
      ∀ m ∈ query.walk, ∀ piece ∈ literalPieces cx.grammar cx.markers m,
        minTokenLength ≤ piece.length →
          ¬ (Asks cx (generalQuestions cx) query m ∧ SteadyPiece cx content m piece) →
            Text.lowercase piece.toList <:+: Text.lowercase content.toList) ∧
      (cx.grammar.Regular → cx.grammar.RegularQuery query →
        (passesTokenFilter content [uniqueTokens cx.grammar cx.config query] true = true ↔
          ∀ m ∈ query.walk, ∀ piece ∈ literalPieces cx.grammar cx.markers m,
            minTokenLength ≤ piece.length → ¬ SteadyPiece cx content m piece →
              Text.lowercase piece.toList <:+: Text.lowercase content.toList)) := by
  rw [passesTokenFilter_ignoreCase hcase]
  constructor
  · refine ⟨fun h m hm piece hpiece hlength _ => h m hm piece hpiece hlength, ?_⟩
    intro hothers m hm piece hpiece hlength
    by_cases hasked : Asks cx (generalQuestions cx) query m ∧ SteadyPiece cx content m piece
    · exact infix_lowercase_of_asks hbefore hafter hlegible hcase hcontent hfound hasked.1 hpiece
        hlength hasked.2
    · exact hothers m hm piece hpiece hlength hasked
  · intro hgrammar hquery
    refine ⟨fun h m hm piece hpiece hlength _ => h m hm piece hpiece hlength, ?_⟩
    intro hothers m hm piece hpiece hlength
    by_cases hsteady : SteadyPiece cx content m piece
    · exact infix_lowercase_of_asks hbefore hafter hlegible hcase hcontent hfound
        (asks_of_regular hgrammar hquery hm hpiece) hpiece hlength hsteady
    · exact hothers m hm piece hpiece hlength hsteady

end

/-- A call on two names is found by a query for one of them in other letters, with a wildcard. All
of its literal text is steady, and so the source passes. -/
theorem passesTokenFilter_ignoreCase_iff_call :
    callGrammar.RegularQuery (callOn ["Foo$$bar", "$$$_a"]) ∧
      HoldsTexts "f(fooBazBAR, y)" (callOn ["fooBazBAR", "y"]) ∧
      (traverse ⟨callGrammar, { ignoreCase := true }, "f(fooBazBAR, y)"⟩
        (callOn ["fooBazBAR", "y"]) (callOn ["Foo$$bar", "$$$_a"])).found ≠ [] ∧
      passesTokenFilter "f(fooBazBAR, y)"
        [uniqueTokens callGrammar { ignoreCase := true } (callOn ["Foo$$bar", "$$$_a"])] true =
          true := by
  have hquery : callGrammar.RegularQuery (callOn ["Foo$$bar", "$$$_a"]) :=
    ⟨⟨by decide, by decide +kernel, by decide,
      fun m hm _ => unbroken_of_all (by decide +kernel) m hm⟩, by decide⟩
  have hcontent : HoldsTexts "f(fooBazBAR, y)" (callOn ["fooBazBAR", "y"]) :=
    holdsTexts_of_occursIn (by decide +kernel)
  have hfound : (traverse ⟨callGrammar, { ignoreCase := true }, "f(fooBazBAR, y)"⟩
      (callOn ["fooBazBAR", "y"]) (callOn ["Foo$$bar", "$$$_a"])).found ≠ [] := by
    refine List.ne_nil_of_length_pos ?_
    decide +kernel
  have hsteady : ∀ m ∈ (callOn ["Foo$$bar", "$$$_a"]).walk,
      ∀ piece ∈ literalPieces callGrammar {} m, SteadyPiece
        ⟨callGrammar, { ignoreCase := true }, "f(fooBazBAR, y)"⟩ "f(fooBazBAR, y)" m piece := by
    have hascii : ∀ m ∈ (callOn ["Foo$$bar", "$$$_a"]).walk,
        ∀ piece ∈ literalPieces callGrammar {} m,
          Text.IsAscii piece.toList ∧ Text.Unbroken piece.toList := by
      decide +kernel
    intro m hm piece hpiece
    obtain ⟨hpiece, hunbroken⟩ := hascii m hm piece hpiece
    obtain ⟨hsteady, hfolds⟩ := hpiece.steady hunbroken
      (by decide +kernel : Text.IsAscii "f(fooBazBAR, y)".toList)
    exact ⟨hsteady, fun _ => hfolds⟩
  have hiff := (passesTokenFilter_ignoreCase_iff rfl rfl callGrammar_regular.legible rfl hcontent
    hfound).2 callGrammar_regular hquery
  refine ⟨hquery, hcontent, hfound, hiff.2 fun m hm piece hpiece _ hnot => ?_⟩
  exact absurd (hsteady m hm piece hpiece) hnot

/-- An access to a property. -/
def propertyAccess : Node :=
  ((Node.branch "access" .zero).setField "object" (.node (.leaf "name" "ΟΔΟΣ" .zero))).setField
    "property" (.node (.leaf "name" "x" .zero))

/-- **A file is lost**: the query `ΟΔΟΣ` is found in `ΟΔΟΣ.x`, and its token is `οδος`, but in lower
case the source is `οδοσ.x`. -/
theorem tokenFilter_drops_sigma :
    ¬ ∀ (cx : MatchContext) (root query : Node) (content : String), cx.grammar.Regular →
      cx.config.ignoreCase = true → cx.grammar.RegularQuery query → HoldsTexts content root →
      (traverse cx root query).found ≠ [] →
      passesTokenFilter content [uniqueTokens cx.grammar cx.config query] true = true := by
  intro h
  have hpasses := h ⟨callGrammar, { ignoreCase := true }, "ΟΔΟΣ.x"⟩ propertyAccess
    (.leaf "name" "ΟΔΟΣ" .zero) "ΟΔΟΣ.x" callGrammar_regular rfl
    ⟨⟨by decide, by decide +kernel, by decide,
      fun m hm _ => unbroken_of_all (by decide +kernel) m hm⟩, by decide⟩
    (holdsTexts_of_occursIn (by decide +kernel))
    (List.ne_nil_of_length_pos (by decide +kernel))
  exact absurd hpasses (by decide +kernel)

/-- The micro sign of the query is matched by the letter mu of the file, and not found in it. -/
example : (traverse ⟨callGrammar, { ignoreCase := true }, "μsTotal"⟩
      (.leaf "name" "μsTotal" .zero) (.leaf "name" "µs$$" .zero)).found.length = 1 ∧
    passesTokenFilter "μsTotal"
      [uniqueTokens callGrammar { ignoreCase := true } (.leaf "name" "µs$$" .zero)] true =
        false := by
  decide +kernel

end CodeSearch
