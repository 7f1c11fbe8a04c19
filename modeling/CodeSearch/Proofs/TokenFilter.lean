import CodeSearch.Proofs.Questions
import CodeSearch.Proofs.Soundness

/-!
# The token filter without rules

The steps of a comparison other than the rules of a grammar read all text of a query node and
all its fields, except for nodes that may stand for something unread: node-tree wildcards,
strings with wildcards, the number that stands for any, and blocks.

`passesTokenFilter_of_traverse`: a grammar without rules whose kinds do not overlap loses no file
by the token filter when letter case counts, unless a field of the query is named like the key of
texts. `tokenFilter_drops_textKey` shows why the exception is needed: a field of that name is
never compared, while the filter asks for the names in it.
-/

set_option autoImplicit false

namespace CodeSearch

/-! ## What the general steps read -/

/-- Whether a query node may stand for something that is not read: a subtree, a string or a
number. -/
def MatchContext.mayStandUnread (cx : MatchContext) (query : Node) : Bool :=
  (cx.nameWildcard? query).any cx.markers.isNodeTree ||
    cx.kinds.isString query.kind && (cx.sanitized query).any cx.markers.hasWildcard ||
      cx.isAnyNumber query

/-- What is read of a query node where no rule of the grammar decides. -/
def generalQuestions (cx : MatchContext) : Inquiry := fun query =>
  { texts := if query.kind = cx.kinds.block then [] else [[]]
    fields :=
      if cx.mayStandUnread query then []
      else if query.kind = cx.kinds.block then [[childrenField]]
      else (query.childFields.filter (· != textKey)).map ([·]) }

/-- A grammar whose kinds of literals do not overlap, whose texts are compared without additions,
names and numbers as they stand, and in which kinds that compare as a name or number hold their
text verbatim. -/
structure Grammar.Legible (grammar : Grammar) (IsVerbatim : String → Prop) : Prop where
  not_string : ∀ kind, grammar.kinds.isIdentifier kind = true → grammar.kinds.isString kind = false
  not_number : ∀ kind, grammar.kinds.isIdentifier kind = true ∨ grammar.kinds.isString kind = true →
    grammar.kinds.isNumber kind = false
  sanitize_infix : ∀ kind text, (grammar.sanitize kind text).toList <:+: text.toList
  sanitize_name : ∀ kind text,
    grammar.kinds.isIdentifier kind = true ∨ grammar.kinds.isNumber kind = true →
      grammar.sanitize kind text = text
  verbatim : ∀ kind other,
    grammar.kinds.isIdentifier kind = true ∨ grammar.kinds.isNumber kind = true →
      grammar.kinds.sameKind kind other = true → IsVerbatim other

theorem NodeKinds.sameKind_self (kinds : NodeKinds) (kind : String) :
    kinds.sameKind kind kind = true := by
  simp [NodeKinds.sameKind]

/-! ## Pieces of literal text -/

section Pieces

variable {grammar : Grammar} {IsVerbatim : String → Prop} {m : Markers}

theorem literalPieces_identifier {n : Node} {text : String}
    (hkind : grammar.kinds.isIdentifier n.kind = true) (htext : n.text = some text) :
    literalPieces grammar m n = m.fragments text := by
  rw [literalPieces, htext]
  simp [hkind]

theorem literalPieces_string (hlegible : grammar.Legible IsVerbatim) {n : Node} {text : String}
    (hkind : grammar.kinds.isString n.kind = true) (htext : n.text = some text) :
    literalPieces grammar m n = (m.fragments (grammar.sanitize n.kind text)).flatMap fun fragment =>
      (Text.words fragment.toList).map String.ofList := by
  have hidentifier : grammar.kinds.isIdentifier n.kind = false := by
    by_contra hidentifier
    have := hlegible.not_string n.kind (by simpa using hidentifier)
    rw [hkind] at this
    exact absurd this (by simp)
  rw [literalPieces, htext]
  simp [hidentifier, hkind]

theorem literalPieces_number (hlegible : grammar.Legible IsVerbatim) {n : Node} {text : String}
    (hkind : grammar.kinds.isNumber n.kind = true) (htext : n.text = some text) :
    literalPieces grammar m n = m.fragments (String.ofList
      ((m.numeric.toList.isPrefixOf? text.toList).getD text.toList)) := by
  have hneither : grammar.kinds.isIdentifier n.kind = false ∧
      grammar.kinds.isString n.kind = false := by
    constructor
    · by_contra h
      have := hlegible.not_number n.kind (Or.inl (by simpa using h))
      rw [hkind] at this
      exact absurd this (by simp)
    · by_contra h
      have := hlegible.not_number n.kind (Or.inr (by simpa using h))
      rw [hkind] at this
      exact absurd this (by simp)
  rw [literalPieces, htext]
  simp [hneither.1, hneither.2, hkind]

/-- Only nodes of literal kinds, and only those with a text, have literal text. -/
theorem exists_text_of_mem_literalPieces {n : Node} {piece : String}
    (h : piece ∈ literalPieces grammar m n) :
    ∃ text, n.text = some text ∧ (grammar.kinds.isIdentifier n.kind = true ∨
      grammar.kinds.isString n.kind = true ∨ grammar.kinds.isNumber n.kind = true) := by
  unfold literalPieces at h
  cases htext : n.text with
  | none => simp [htext] at h
  | some text =>
      refine ⟨text, rfl, ?_⟩
      by_contra hkinds
      simp only [not_or, Bool.not_eq_true] at hkinds
      simp [htext, hkinds.1, hkinds.2.1, hkinds.2.2] at h

/-- The literal text of a string of a query is words of what it holds, without blanks. -/
theorem word_of_mem_literalPieces (hlegible : grammar.Legible IsVerbatim) {n : Node}
    {text piece : String} (hkind : grammar.kinds.isString n.kind = true)
    (htext : n.text = some text) (h : piece ∈ literalPieces grammar m n) :
    Text.Unbroken piece.toList ∧ ∃ fragment ∈ m.fragments (grammar.sanitize n.kind text),
      piece.toList <:+: fragment.toList := by
  rw [literalPieces_string hlegible hkind htext] at h
  obtain ⟨fragment, hfragment, hword⟩ := List.mem_flatMap.1 h
  obtain ⟨word, hmem, rfl⟩ := List.mem_map.1 hword
  rw [String.toList_ofList]
  obtain ⟨hpart, hunbroken⟩ := Text.infix_of_mem_words hmem
  exact ⟨hunbroken, fragment, hfragment, hpart⟩

/-- What follows a text at the start of another is a part of the latter. -/
theorem digits_part (m : Markers) (text : String) :
    (m.numeric.toList.isPrefixOf? text.toList).getD text.toList <:+: text.toList := by
  cases hstart : m.numeric.toList.isPrefixOf? text.toList with
  | none => exact List.infix_rfl
  | some rest =>
      rw [Text.eq_append_of_isPrefixOf? hstart]
      exact List.infix_append_right

/-- The literal text of a name or number of a query is parts of it. -/
theorem infix_of_mem_literalPieces (hlegible : grammar.Legible IsVerbatim) {n : Node}
    {text piece : String}
    (hkind : grammar.kinds.isIdentifier n.kind = true ∨ grammar.kinds.isNumber n.kind = true)
    (htext : n.text = some text) (h : piece ∈ literalPieces grammar m n) :
    piece.toList <:+: text.toList := by
  rcases hkind with hkind | hkind
  · rw [literalPieces_identifier hkind htext] at h
    exact Markers.infix_of_mem_fragments h
  · rw [literalPieces_number hlegible hkind htext] at h
    have hpart := Markers.infix_of_mem_fragments h
    rw [String.toList_ofList] at hpart
    exact hpart.trans (digits_part m text)

/-- The literal text of a query node is parts of what the node is compared by. -/
theorem infix_sanitize_of_mem_literalPieces (hlegible : grammar.Legible IsVerbatim) {n : Node}
    {text piece : String} (htext : n.text = some text) (h : piece ∈ literalPieces grammar m n) :
    piece.toList <:+: (grammar.sanitize n.kind text).toList := by
  have hname : grammar.kinds.isIdentifier n.kind = true ∨ grammar.kinds.isNumber n.kind = true →
      piece.toList <:+: (grammar.sanitize n.kind text).toList := by
    intro hkind
    rw [hlegible.sanitize_name n.kind text hkind]
    exact infix_of_mem_literalPieces hlegible hkind htext h
  obtain ⟨-, -, hkinds⟩ := exists_text_of_mem_literalPieces h
  rcases hkinds with hkind | hkind | hkind
  · exact hname (Or.inl hkind)
  · obtain ⟨-, fragment, hfragment, hword⟩ := word_of_mem_literalPieces hlegible hkind htext h
    exact hword.trans (Markers.infix_of_mem_fragments hfragment)
  · exact hname (Or.inr hkind)

end Pieces

/-! ## The text of a query node -/

section Own

variable {cx : MatchContext} {IsVerbatim : String → Prop}

theorem MatchContext.stringWildcard?_eq_some {file query : Node} {pattern : String}
    (h : cx.stringWildcard? file query = some pattern) :
    cx.kinds.isString query.kind = true ∧ query.kind = file.kind ∧
      cx.sanitized query = some pattern ∧ cx.markers.hasWildcard pattern = true := by
  unfold MatchContext.stringWildcard? at h
  split at h
  next hkind =>
    rw [Bool.and_eq_true, beq_iff_eq] at hkind
    obtain ⟨htext, hwildcard⟩ := Option.filter_eq_some_iff.1 h
    exact ⟨hkind.1, hkind.2, htext, hwildcard⟩
  next => simp at h

/-- A wildcard for a subtree has too little literal text to be a token. -/
theorem length_of_mem_literalPieces_tree {query : Node} {name piece : String}
    (hname : cx.nameWildcard? query = some name) (htree : cx.markers.isNodeTree name = true)
    (h : piece ∈ literalPieces cx.grammar cx.markers query) : piece.length < minTokenLength := by
  obtain ⟨hkind, htext, hwildcard⟩ := MatchContext.nameWildcard?_eq_some hname
  rw [literalPieces_identifier hkind htext] at h
  exact Markers.length_of_isNodeTree hwildcard htree h

/-- The number that stands for any number has no literal text. -/
theorem eq_nil_of_mem_literalPieces_anyNumber (hlegible : cx.grammar.Legible IsVerbatim)
    {query : Node} {piece : String} (hany : cx.isAnyNumber query = true)
    (h : piece ∈ literalPieces cx.grammar cx.markers query) : piece.toList = [] := by
  rw [MatchContext.isAnyNumber, Bool.and_eq_true] at hany
  cases htext : query.text with
  | none => simp [htext] at hany
  | some text =>
      -- after the marker for any number there is no text left to ask for
      have hnumeric : text = cx.markers.numeric := by
        simpa [htext, Markers.isNumeric] using hany.2
      have hrest := Text.isPrefixOf?_append cx.markers.numeric.toList []
      rw [List.append_nil] at hrest
      rw [literalPieces_number hlegible hany.1 htext, hnumeric, hrest] at h
      exact List.infix_nil.1 (Markers.infix_of_mem_fragments h)

/-- A part of what a file node is compared by is a part of its text. -/
theorem shows_of_sanitized {grammar : Grammar} (hlegible : grammar.Legible IsVerbatim)
    {file : Node} {piece : List Char}
    (h : piece <:+: (grammar.sanitize file.kind (file.text.getD "")).toList)
    (hpiece : IsVerbatim file.kind ∨ Text.Unbroken piece) : file.Shows IsVerbatim piece := by
  have hpart := h.trans (hlegible.sanitize_infix file.kind (file.text.getD ""))
  cases htext : file.text with
  | none =>
      rw [htext] at hpart
      exact Or.inl (List.infix_nil.1 hpart)
  | some text =>
      rw [htext] at hpart
      exact Or.inr ⟨file, Node.mem_walk_self file, text, htext, hpart, hpiece⟩

/-- Nodes that agree key by key: the file node shows the text of the query node. -/
theorem AgreeByKeys.showsPieces (hlegible : cx.grammar.Legible IsVerbatim)
    (hcase : cx.config.ignoreCase = false) {file query : Node} (h : AgreeByKeys cx file query) :
    ShowsPieces cx IsVerbatim file query := by
  intro piece hpiece _
  obtain ⟨text, htext, hkinds⟩ := exists_text_of_mem_literalPieces hpiece
  have hkey : textKey ∈ query.keys := by
    rw [Node.keys, htext]
    exact List.mem_append_right _ (by simp)
  have hsame := h.text hkey
  rw [hcase, Text.sameText_false, htext, Option.getD_some] at hsame
  have hpart := infix_sanitize_of_mem_literalPieces hlegible htext hpiece
  rw [hsame] at hpart
  have hname : cx.kinds.isIdentifier query.kind = true ∨ cx.kinds.isNumber query.kind = true →
      file.Shows IsVerbatim piece.toList :=
    fun hname => shows_of_sanitized hlegible hpart (Or.inl (hlegible.verbatim _ _ hname h.kind))
  rcases hkinds with hkind | hkind | hkind
  · exact hname (Or.inl hkind)
  · obtain ⟨hunbroken, -⟩ := word_of_mem_literalPieces hlegible hkind htext hpiece
    exact shows_of_sanitized hlegible hpart (Or.inr hunbroken)
  · exact hname (Or.inr hkind)

/-- Nodes that agree by a step other than a rule or the one for blocks: the file node shows the
text of the query node. -/
theorem AgreePlainly.showsPieces (hlegible : cx.grammar.Legible IsVerbatim)
    (hcase : cx.config.ignoreCase = false) {file query : Node} {b c : Bindings}
    {found : Comparison} (h : AgreePlainly cx file query b found c)
    (hblock : query.kind ≠ cx.kinds.block) :
    (∃ verdict, found = .ofVerdict file verdict ∧ verdict.agrees = true ∧
        Rule.first? cx.config file query cx.grammar.rulesAfter b = (some verdict, c)) ∨
      ShowsPieces cx IsVerbatim file query := by
  have htree : ∀ name, cx.nameWildcard? query = some name → cx.markers.isNodeTree name = true →
      ShowsPieces cx IsVerbatim file query := by
    intro name hname htree piece hpiece hlength
    have := length_of_mem_literalPieces_tree hname htree hpiece
    omega
  cases h with
  | anyTree hname htree' => exact Or.inr (htree _ hname htree')
  | tree hname htree' => exact Or.inr (htree _ hname htree')
  | @name name value c hname htree' hkind hvalue hmatch htyping =>
      refine Or.inr fun piece hpiece _ => ?_
      obtain ⟨hquery, htext, -⟩ := MatchContext.nameWildcard?_eq_some hname
      rw [literalPieces_identifier hquery htext] at hpiece
      rw [MatchContext.matchText?, hcase] at hmatch
      have hpart := Bindings.infix_of_matchText? hmatch hpiece
      have hverbatim := hlegible.verbatim _ _ (Or.inl hkind) (NodeKinds.sameKind_self _ _)
      exact Or.inr ⟨file, Node.mem_walk_self file, value, hvalue, hpart, Or.inl hverbatim⟩
  | @string pattern c hname hstring hmatch =>
      refine Or.inr fun piece hpiece _ => ?_
      obtain ⟨hkind, -, hpattern, -⟩ := MatchContext.stringWildcard?_eq_some hstring
      obtain ⟨text, htext, rfl⟩ := Option.map_eq_some_iff.1 hpattern
      obtain ⟨hunbroken, fragment, hfragment, hword⟩ :=
        word_of_mem_literalPieces hlegible hkind htext hpiece
      rw [MatchContext.matchText?, hcase] at hmatch
      have hpart := hword.trans (Bindings.infix_of_matchText? hmatch hfragment)
      cases hvalue : file.text with
      | none =>
          rw [MatchContext.sanitized, hvalue] at hpart
          exact Or.inl (List.infix_nil.1 hpart)
      | some value =>
          rw [MatchContext.sanitized, hvalue] at hpart
          refine shows_of_sanitized hlegible ?_ (Or.inr hunbroken)
          rw [hvalue]
          exact hpart
  | number hname hstring hany hkind =>
      exact Or.inr fun piece hpiece _ =>
        Or.inl (eq_nil_of_mem_literalPieces_anyNumber hlegible hany hpiece)
  | block hname hstring hany hfile =>
      rw [MatchContext.isWholeFile, Bool.and_eq_true, beq_iff_eq] at hfile
      exact absurd hfile.1 hblock
  | rule hname hstring hany hrule hagrees => exact Or.inl ⟨_, rfl, hagrees, hrule⟩
  | fields hname hstring hany hrule hagrees =>
      obtain ⟨hkeys, -⟩ := compareFields_agrees hagrees
      exact Or.inr (hkeys.showsPieces hlegible hcase)

end Own

/-! ## The fields of a query node -/

section Fields

variable {cx : MatchContext}

theorem Node.mem_childFields {n : Node} {name : String} {f : Field} (h : n.field? name = some f)
    (hnodes : f.holdsNodes = true) : name ∈ n.childFields :=
  List.mem_map.2 ⟨(name, f), List.mem_filter.2 ⟨Node.mem_fields_of_field? h, hnodes⟩, rfl⟩

theorem Node.mem_keys_of_field? {n : Node} {name : String} {f : Field}
    (h : n.field? name = some f) : name ∈ n.keys :=
  List.mem_append_left _ (List.mem_map.2 ⟨(name, f), Node.mem_fields_of_field? h, rfl⟩)

/-- Nodes that agree key by key leave every field of the query with children to agree, apart from
one named like the key of texts. -/
theorem mem_queryKeys_of_compareFields {file query : Node}
    (h : (compareFields cx file query).agrees = true) {name : String} {f : Field}
    (hf : query.field? name = some f) (hnodes : f.holdsNodes = true) (hname : name ≠ textKey) :
    [name] ∈ (compareFields cx file query).queryKeys := by
  obtain ⟨hkeys, names, heq, hnames⟩ := compareFields_agrees h
  have hkey := Node.mem_keys_of_field? hf
  obtain ⟨left, right, hleft, hright, -⟩ := hkeys.fields name hkey hname
  obtain rfl := Option.some.inj (hf.symm.trans hleft)
  have hmem := (hnames name).2 ⟨hkey, hname, f, right, hf, hright, Or.inl hnodes⟩
  rw [heq]
  exact List.mem_map.2 ⟨name, hmem, rfl⟩

/-- Nodes that agree by a step other than a rule, the query node being none that may stand for
something unread: every field with children is left to agree, of a block at least its children. -/
theorem AgreePlainly.mem_queryKeys {file query : Node} {b c : Bindings} {found : Comparison}
    (h : AgreePlainly cx file query b found c) (hread : cx.mayStandUnread query = false)
    {name : String} {f : Field} (hf : query.field? name = some f)
    (hnodes : f.holdsNodes = true) (hname : name ≠ textKey)
    (hblock : query.kind = cx.kinds.block → name = childrenField) :
    (∃ verdict, found = .ofVerdict file verdict ∧ verdict.agrees = true ∧
        Rule.first? cx.config file query cx.grammar.rulesAfter b = (some verdict, c)) ∨
      [name] ∈ found.queryKeys := by
  simp only [MatchContext.mayStandUnread, Bool.or_eq_false_iff] at hread
  obtain ⟨⟨htree, hpattern⟩, hnumber⟩ := hread
  cases h with
  | anyTree hname htree' => simp [hname, htree'] at htree
  | tree hname htree' => simp [hname, htree'] at htree
  | name hname' htree' hkind hvalue hmatch htyping =>
      exact Or.inr (List.mem_map.2 ⟨name, Node.mem_childFields hf hnodes, rfl⟩)
  | string hname' hstring hmatch =>
      obtain ⟨hkind, -, hsanitized, hwildcard⟩ := MatchContext.stringWildcard?_eq_some hstring
      simp [hkind, hsanitized, hwildcard] at hpattern
  | number hname' hstring hany hkind =>
      rw [hany] at hnumber
      exact absurd hnumber (by simp)
  | block hname' hstring hany hfile =>
      rw [MatchContext.isWholeFile, Bool.and_eq_true, beq_iff_eq] at hfile
      rw [hblock hfile.1]
      exact Or.inr (List.mem_map.2 ⟨childrenField, by simp, rfl⟩)
  | rule hname' hstring hany hrule hagrees => exact Or.inl ⟨_, rfl, hagrees, hrule⟩
  | fields hname' hstring hany hrule hagrees =>
      exact Or.inr (mem_queryKeys_of_compareFields hagrees hf hnodes hname)

end Fields

/-! ## Comparisons keep to the general questions -/

section General

variable {cx : MatchContext} {IsVerbatim : String → Prop} {inquiry : Inquiry}

/-- A comparison of two nodes **reads all** that the steps other than rules read: the text of the
query node, unless it is a block, and its fields, unless it may stand for something unread. -/
structure ReadsAll (cx : MatchContext) (IsVerbatim : String → Prop) (file query : Node)
    (keys : List FieldPath) : Prop where
  text : query.kind ≠ cx.kinds.block → ShowsPieces cx IsVerbatim file query
  fields : cx.mayStandUnread query = false → ∀ name f, query.field? name = some f →
    f.holdsNodes = true → name ≠ textKey → (query.kind = cx.kinds.block → name = childrenField) →
      [name] ∈ keys

/-- Nodes that agree by a step other than a rule: the comparison reads all. -/
theorem AgreePlainly.readsAll (hlegible : cx.grammar.Legible IsVerbatim)
    (hcase : cx.config.ignoreCase = false) {file query : Node} {b c : Bindings}
    {found : Comparison} (h : AgreePlainly cx file query b found c) :
    (∃ verdict, found = .ofVerdict file verdict ∧ verdict.agrees = true ∧
        Rule.first? cx.config file query cx.grammar.rulesAfter b = (some verdict, c)) ∨
      ReadsAll cx IsVerbatim file query found.queryKeys := by
  by_cases hrule : ∃ verdict, found = .ofVerdict file verdict ∧ verdict.agrees = true ∧
      Rule.first? cx.config file query cx.grammar.rulesAfter b = (some verdict, c)
  · exact Or.inl hrule
  · refine Or.inr ⟨fun hblock => ?_, fun hread name f hf hnodes hname hblock => ?_⟩
    · exact (h.showsPieces hlegible hcase hblock).resolve_left hrule
    · exact (h.mem_queryKeys hread hf hnodes hname hblock).resolve_left hrule

theorem mem_generalQuestions_texts {query : Node} {path : FieldPath}
    (h : path ∈ (generalQuestions cx query).texts) :
    query.kind ≠ cx.kinds.block ∧ path = [] := by
  rw [generalQuestions] at h
  dsimp only at h
  split at h
  next => simp at h
  next hblock => exact ⟨hblock, List.mem_singleton.1 h⟩

theorem mem_generalQuestions_fields {query : Node} {path : FieldPath}
    (h : path ∈ (generalQuestions cx query).fields) :
    cx.mayStandUnread query = false ∧ ∃ name, path = [name] ∧ name ≠ textKey ∧
      (query.kind = cx.kinds.block ∧ name = childrenField ∨
        query.kind ≠ cx.kinds.block ∧ name ∈ query.childFields) := by
  rw [generalQuestions] at h
  dsimp only at h
  split at h
  next => simp at h
  next hread =>
    refine ⟨by simpa using hread, ?_⟩
    split at h
    next hblock =>
      exact ⟨childrenField, List.mem_singleton.1 h, by decide, Or.inl ⟨hblock, rfl⟩⟩
    next hblock =>
      obtain ⟨name, hmem, rfl⟩ := List.mem_map.1 h
      obtain ⟨hchild, hname⟩ := List.mem_filter.1 hmem
      exact ⟨name, rfl, by simpa using hname, Or.inr ⟨hblock, hchild⟩⟩

/-- A comparison that reads all keeps to the general questions. -/
theorem ReadsAll.keepsTo {file query : Node} {keys : List FieldPath}
    (h : ReadsAll cx IsVerbatim file query keys)
    (hinquiry : inquiry query = generalQuestions cx query) :
    KeepsTo cx IsVerbatim inquiry file query keys := by
  refine ⟨fun path hpath m hm => ?_, fun path hpath f hf hnodes => ?_⟩
  · rw [hinquiry] at hpath
    obtain ⟨hblock, rfl⟩ := mem_generalQuestions_texts hpath
    obtain rfl : query = m := Option.some.inj hm
    exact Or.inl (h.text hblock)
  · rw [hinquiry] at hpath
    obtain ⟨hread, name, rfl, hname, hcases⟩ := mem_generalQuestions_fields hpath
    refine Or.inl (h.fields hread name f hf hnodes hname fun hblock => ?_)
    exact (hcases.resolve_right fun hother => hother.1 hblock).2

/-- Without rules, all comparisons keep to the general questions. -/
theorem generalQuestions_honest (hbefore : cx.grammar.rulesBefore = [])
    (hafter : cx.grammar.rulesAfter = []) (hlegible : cx.grammar.Legible IsVerbatim)
    (hcase : cx.config.ignoreCase = false) : (generalQuestions cx).Honest cx IsVerbatim := by
  intro file query b found c h
  induction h with
  | rule hrule hagrees => simp [hbefore, Rule.first?] at hrule
  | value hrule hfield hinner h ih =>
      exact ih.of_mem_walk (Node.mem_walk_of_mem_offspring
        (Node.mem_offspring_of_child? hinner) (Node.mem_walk_self _))
  | plain hrule hfield h =>
      rcases h.readsAll hlegible hcase with ⟨verdict, -, -, hfirst⟩ | hreads
      · simp [hafter, Rule.first?] at hfirst
      · exact hreads.keepsTo rfl

end General

/-! ## Grammars without rules -/

/-- A grammar without rules of its own whose kinds of literals and blocks do not overlap, that
compares parts of texts, names and numbers as they stand, and that leaves out of lists only what
holds no literal. -/
structure Grammar.Regular (grammar : Grammar) : Prop where
  rulesBefore : grammar.rulesBefore = []
  rulesAfter : grammar.rulesAfter = []
  not_string : ∀ kind, grammar.kinds.isIdentifier kind = true → grammar.kinds.isString kind = false
  not_number : ∀ kind, grammar.kinds.isIdentifier kind = true ∨ grammar.kinds.isString kind = true →
    grammar.kinds.isNumber kind = false
  block : grammar.kinds.isIdentifier grammar.kinds.block = false ∧
    grammar.kinds.isString grammar.kinds.block = false ∧
      grammar.kinds.isNumber grammar.kinds.block = false
  sanitize_infix : ∀ kind text, (grammar.sanitize kind text).toList <:+: text.toList
  sanitize_name : ∀ kind text,
    grammar.kinds.isIdentifier kind = true ∨ grammar.kinds.isNumber kind = true →
      grammar.sanitize kind text = text
  incomparable : ∀ n, grammar.isComparable n = false → ∀ m ∈ n.walk,
    grammar.kinds.isIdentifier m.kind = false ∧ grammar.kinds.isString m.kind = false ∧
      grammar.kinds.isNumber m.kind = false

/-- A query whose literals have no children and, names and numbers, no blanks, whose blocks have
no children but the unnamed ones, and in which no node has two fields of one name. -/
structure Grammar.LiteralQuery (grammar : Grammar) (query : Node) : Prop where
  distinct : query.NamesDistinct
  literal : ∀ m ∈ query.walk, grammar.kinds.isIdentifier m.kind = true ∨
    grammar.kinds.isString m.kind = true ∨ grammar.kinds.isNumber m.kind = true →
      m.offspring = []
  block : ∀ m ∈ query.walk, m.kind = grammar.kinds.block →
    ∀ name ∈ m.childFields, name = childrenField
  unbroken : ∀ m ∈ query.walk, grammar.kinds.isIdentifier m.kind = true ∨
    grammar.kinds.isNumber m.kind = true →
      ∀ text, m.text = some text → Text.Unbroken text.toList

/-- In addition, no node has children in a field named like the key of texts. -/
structure Grammar.RegularQuery (grammar : Grammar) (query : Node) : Prop
    extends grammar.LiteralQuery query where
  textKey_free : ∀ m ∈ query.walk, textKey ∉ m.childFields

theorem Grammar.RegularQuery.of_mem_walk {grammar : Grammar} {query m : Node}
    (h : grammar.RegularQuery query) (hm : m ∈ query.walk) : grammar.RegularQuery m where
  distinct := h.distinct.of_mem_walk hm
  textKey_free := fun d hd => h.textKey_free d (Node.mem_walk_trans hd hm)
  literal := fun d hd => h.literal d (Node.mem_walk_trans hd hm)
  block := fun d hd => h.block d (Node.mem_walk_trans hd hm)
  unbroken := fun d hd => h.unbroken d (Node.mem_walk_trans hd hm)

/-- A text contains what the texts of a tree contain, as far as it has no blanks. -/
def HoldsTexts (content : String) (root : Node) : Prop :=
  ∀ m ∈ root.walk, ∀ text, m.text = some text → ∀ piece : List Char,
    piece <:+: text.toList → Text.Unbroken piece → piece <:+: content.toList

theorem Grammar.Regular.legible {grammar : Grammar} (h : grammar.Regular) :
    grammar.Legible fun _ => True where
  not_string := h.not_string
  not_number := h.not_number
  sanitize_infix := h.sanitize_infix
  sanitize_name := h.sanitize_name
  verbatim := fun _ _ _ _ => trivial

section Regular

variable {cx : MatchContext} {query : Node}

/-- A node of a regular query that is no literal does not stand for anything unread. -/
theorem not_mayStandUnread {n : Node} (hidentifier : cx.kinds.isIdentifier n.kind = false)
    (hstring : cx.kinds.isString n.kind = false) (hnumber : cx.kinds.isNumber n.kind = false) :
    cx.mayStandUnread n = false := by
  simp [MatchContext.mayStandUnread, MatchContext.nameWildcard?, MatchContext.isAnyNumber,
    hidentifier, hstring, hnumber]

/-- A regular query asks for each of its nodes that has literal text. -/
theorem asks_of_regular (hgrammar : cx.grammar.Regular) (hquery : cx.grammar.RegularQuery query)
    {m : Node} (hm : m ∈ query.walk) {piece : String}
    (hpiece : piece ∈ literalPieces cx.grammar cx.markers m) :
    Asks cx (generalQuestions cx) query m := by
  obtain ⟨text, -, hkinds⟩ := exists_text_of_mem_literalPieces hpiece
  induction query using Node.offspring_induction with
  | step query ih =>
      rcases Node.mem_walk.1 hm with rfl | ⟨c, hc, hmc⟩
      · have hblock : m.kind ≠ cx.kinds.block := by
          intro heq
          rw [heq] at hkinds
          obtain ⟨hidentifier, hstring, hnumber⟩ := hgrammar.block
          rcases hkinds with h | h | h
          · exact absurd (hidentifier.symm.trans h) (by simp)
          · exact absurd (hstring.symm.trans h) (by simp)
          · exact absurd (hnumber.symm.trans h) (by simp)
        exact Asks.text (by simp [generalQuestions, hblock] : [] ∈ _) rfl
      · have hliteral := fun h => hquery.literal query (Node.mem_walk_self query) h
        have hoffspring : query.offspring ≠ [] := List.ne_nil_of_mem hc
        -- the node is further down, so that the query node has children and is no wildcard
        have hread : cx.mayStandUnread query = false := by
          refine not_mayStandUnread ?_ ?_ ?_
          · exact Bool.eq_false_iff.2 fun h => hoffspring (hliteral (Or.inl h))
          · exact Bool.eq_false_iff.2 fun h => hoffspring (hliteral (Or.inr (Or.inl h)))
          · exact Bool.eq_false_iff.2 fun h => hoffspring (hliteral (Or.inr (Or.inr h)))
        obtain ⟨⟨name, f⟩, hentry, hcf⟩ := List.mem_flatMap.1 hc
        have hf : query.field? name = some f :=
          Node.field?_of_mem_fields (hquery.distinct query (Node.mem_walk_self query)) hentry
        have hcompared : c ∈ cx.compared f := by
          cases f with
          | node child => exact hcf
          | nodes children =>
              refine List.mem_filter.2 ⟨hcf, ?_⟩
              by_contra hincomparable
              obtain ⟨hidentifier, hstring, hnumber⟩ :=
                hgrammar.incomparable c (Bool.eq_false_iff.2 hincomparable) m hmc
              rw [hidentifier, hstring, hnumber] at hkinds
              simp at hkinds
          | token text => simp [Field.members] at hcf
        have hchild := Node.mem_childFields hf (MatchContext.holdsNodes_of_mem_compared hcompared)
        have hname : name ≠ textKey := by
          rintro rfl
          exact hquery.textKey_free query (Node.mem_walk_self query) hchild
        have hpath : [name] ∈ (generalQuestions cx query).fields := by
          rw [generalQuestions, hread]
          by_cases hblock : query.kind = cx.kinds.block
          · rw [hquery.block query (Node.mem_walk_self query) hblock name hchild]
            simp [hblock]
          · simp [hblock, hchild, hname]
        have hdeeper := hquery.of_mem_walk
          (Node.mem_walk_of_mem_offspring hc (Node.mem_walk_self c))
        exact Asks.field hpath hf hcompared (ih c hc hdeeper hmc)

end Regular

/-- **The token filter loses no file**: if letter case counts, a regular grammar and a regular
query that is found in a tree let every text pass that contains what the texts of the tree
contain. -/
theorem passesTokenFilter_of_traverse {cx : MatchContext} {root query : Node} {content : String}
    (hgrammar : cx.grammar.Regular) (hcase : cx.config.ignoreCase = false)
    (hquery : cx.grammar.RegularQuery query)
    (hcontent : HoldsTexts content root)
    (hfound : (traverse cx root query).found ≠ []) :
    passesTokenFilter content [uniqueTokens cx.grammar cx.config query] false = true := by
  have hbinds : cx.grammar.BindsTexts := by
    intro rule hrule
    simp [hgrammar.rulesBefore, hgrammar.rulesAfter] at hrule
  have hhonest := generalQuestions_honest hgrammar.rulesBefore hgrammar.rulesAfter
    hgrammar.legible hcase
  rw [passesTokenFilter_iff]
  intro token htoken
  obtain ⟨m, hm, hpiece, hlength⟩ := (mem_uniqueTokens hcase).1 htoken
  have hasks := asks_of_regular hgrammar hquery hm hpiece
  have hshows := showsPieces_of_traverse hbinds hhonest hfound hasks token hpiece hlength
  rcases hshows with hnil | ⟨d, hd, text, htext, hpart, -⟩
  · rw [hnil]
    exact List.nil_infix
  · refine hcontent d hd text htext token.toList hpart ?_
    -- words of strings have no blanks, nor have the names and numbers of the query
    obtain ⟨text, htext, hkinds⟩ := exists_text_of_mem_literalPieces hpiece
    have hname : cx.kinds.isIdentifier m.kind = true ∨ cx.kinds.isNumber m.kind = true →
        Text.Unbroken token.toList := fun hname =>
      (hquery.unbroken m hm hname text htext).part
        (infix_of_mem_literalPieces hgrammar.legible hname htext hpiece)
    rcases hkinds with h | h | h
    · exact hname (Or.inl h)
    · exact (word_of_mem_literalPieces hgrammar.legible h htext hpiece).1
    · exact hname (Or.inr h)

theorem callGrammar_regular : callGrammar.Regular where
  rulesBefore := rfl
  rulesAfter := rfl
  not_string := fun _ _ => rfl
  not_number := fun _ _ => rfl
  block := by decide
  sanitize_infix := fun _ _ => List.infix_rfl
  sanitize_name := fun _ _ _ => rfl
  incomparable := fun _ h => absurd h (by simp [callGrammar])

theorem holdsTexts_of_occursIn {content : String} {root : Node}
    (h : ∀ m ∈ root.walk,
      (m.text.all fun text => Text.occursIn text.toList content.toList) = true) :
    HoldsTexts content root := by
  intro m hm text htext piece hpiece _
  have hoccurs := h m hm
  rw [htext, Option.all_some] at hoccurs
  exact hpiece.trans (Text.occursIn_iff.1 hoccurs)

theorem unbroken_of_all {root : Node}
    (h : ∀ m ∈ root.walk,
      (m.text.all fun text => text.toList.all fun c => !Text.isBlank c) = true) :
    ∀ m ∈ root.walk, ∀ text, m.text = some text → Text.Unbroken text.toList := by
  intro m hm text htext c hc
  have hall := h m hm
  rw [htext, Option.all_some, List.all_eq_true] at hall
  simpa using hall c hc

/-- A call on two names is found by a query for one of them with a wildcard, and its source
passes. -/
theorem passesTokenFilter_of_traverse_call :
    callGrammar.RegularQuery (callOn ["foo$$bar", "$$$_a"]) ∧
      HoldsTexts "f(foobazbar, y)" (callOn ["foobazbar", "y"]) ∧
      (traverse ⟨callGrammar, { mode := .exact }, "f(foobazbar, y)"⟩ (callOn ["foobazbar", "y"])
        (callOn ["foo$$bar", "$$$_a"])).found ≠ [] ∧
      passesTokenFilter "f(foobazbar, y)"
        [uniqueTokens callGrammar { mode := .exact } (callOn ["foo$$bar", "$$$_a"])] false =
          true := by
  have hquery : callGrammar.RegularQuery (callOn ["foo$$bar", "$$$_a"]) :=
    ⟨⟨by decide, by decide +kernel, by decide,
      fun m hm _ => unbroken_of_all (by decide +kernel) m hm⟩, by decide⟩
  have hcontent : HoldsTexts "f(foobazbar, y)" (callOn ["foobazbar", "y"]) :=
    holdsTexts_of_occursIn (by decide +kernel)
  have hfound : (traverse ⟨callGrammar, { mode := .exact }, "f(foobazbar, y)"⟩
      (callOn ["foobazbar", "y"]) (callOn ["foo$$bar", "$$$_a"])).found ≠ [] := by
    refine List.ne_nil_of_length_pos ?_
    decide +kernel
  exact ⟨hquery, hcontent, hfound,
    passesTokenFilter_of_traverse callGrammar_regular rfl hquery hcontent hfound⟩

/-- A query node whose only field is named like the key of texts. -/
def textKeyQuery : Node :=
  (Node.branch "call" .zero).setField textKey (.node (.leaf "name" "foo" .zero))

/-- The last condition on queries is needed: a name in a field named like the key of texts is
never compared, but the filter asks for it. -/
theorem tokenFilter_drops_textKey :
    ¬ ∀ (cx : MatchContext) (root query : Node) (content : String), cx.grammar.Regular →
      cx.config.ignoreCase = false → cx.grammar.LiteralQuery query → HoldsTexts content root →
      (traverse cx root query).found ≠ [] →
      passesTokenFilter content [uniqueTokens cx.grammar cx.config query] false = true := by
  intro h
  have hpasses := h ⟨callGrammar, {}, "bar"⟩ (.leaf "call" "" .zero) textKeyQuery "bar"
    callGrammar_regular rfl
    ⟨by decide, by decide +kernel, by decide,
      fun m hm _ => unbroken_of_all (by decide +kernel) m hm⟩
    (holdsTexts_of_occursIn (by decide +kernel))
    (List.ne_nil_of_length_pos (by decide +kernel))
  exact absurd hpasses (by decide +kernel)

end CodeSearch
