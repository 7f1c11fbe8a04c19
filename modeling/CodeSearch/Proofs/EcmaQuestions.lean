import CodeSearch.Proofs.Rules
import CodeSearch.Proofs.TokenFilter

/-!
# What is read of a query in JavaScript and TypeScript

The rules let some pairs of nodes agree by a part of them. Of a destructured property that is
renamed only the name before the colon is read, and of other properties the key and the value, as
names or as they stand. Tags are compared by their names and attributes where one of them closes
itself. Of a chain everything but the sign that makes it optional is read.
-/

set_option autoImplicit false

namespace CodeSearch.Ecma

/-! ## The inquiry -/

/-- Whether the literal text of a key is read. Wildcards in a number are cut out in another way
than the number is compared. -/
def keyIsLegible (markers : Markers) (key : Node) : Bool :=
  key.kind != "number" || !key.text.any markers.hasWildcard

/-- Whether the value of a pair is a plain name. -/
def namesValue (pair : Node) : Bool := (pair.child? "value").any (·.kind == "identifier")

/-- What is read of a pair: its key, and its value, as a name if it is one. -/
def pairQuestions (markers : Markers) (pair key : Node) : Questions where
  texts := (if keyIsLegible markers key then [["key"]] else []) ++
    (if namesValue pair then [["value"]] else [])
  fields := if namesValue pair then [] else [["value"]]

/-- The kinds of shorthand properties. -/
def shorthandKinds : List String :=
  ["shorthand_property_identifier", "shorthand_property_identifier_pattern"]

/-- The kinds of chains that may be optional. -/
def chainKinds : List String := ["member_expression", "subscript_expression", "call_expression"]

/-- What is read of a query node where further code is ignored. -/
def includeQuestions (cx : MatchContext) : Inquiry := fun query =>
  if query.kind ∈ shorthandKinds then { texts := [[]] }
  else if query.kind = "pair_pattern" then
    if renames query && (plainKey? query).isSome then { texts := [["key"]] }
    else generalQuestions cx query
  else if query.kind = "pair" then
    match query.child? "key" with
    | some key =>
        if (keyText? key).isSome then pairQuestions cx.markers query key
        else generalQuestions cx query
    | none => generalQuestions cx query
  else if query.kind ∈ chainKinds then
    { fields := (generalQuestions cx query).fields.filter (· != ["optional_chain"]) }
  else generalQuestions cx query

/-- Whether the opening tag of an element is one. -/
def hasOpeningTag (element : Node) : Bool :=
  (element.child? "open_tag").any (·.kind == "jsx_opening_element")

/-- The name and the attributes of the opening tag of an element. -/
def tagPaths (element : Node) : List FieldPath :=
  if hasOpeningTag element then [["open_tag", "name"], ["open_tag", "attribute"]] else []

/-- What is read of a query node. Of an element that closes itself or has no content it is the
name and the attributes. -/
def questions (cx : MatchContext) : Inquiry := fun query =>
  if query.kind = "jsx_self_closing_element" then { fields := [["name"], ["attribute"]] }
  else if query.kind = "jsx_element" && !hasContent query then { fields := tagPaths query }
  else if cx.config.mode.allowsExtra then includeQuestions cx query
  else generalQuestions cx query

/-! ## Kinds -/

/-- The search is in one of the languages that the rules are for. -/
structure Speaks (cx : MatchContext) (IsVerbatim : String → Prop) : Prop where
  kinds : cx.kinds = javaScriptKinds ∨ cx.kinds = typeScriptKinds
  sanitize : ∀ text, cx.grammar.sanitize "string" text = stripQuotes quotes text
  before : cx.grammar.rulesBefore = [selfClosing]
  after : cx.grammar.rulesAfter = [destructuring, propertyShapes, optionalChain]
  legible : cx.grammar.Legible IsVerbatim
  verbatim : ∀ kind, kind ≠ "jsx_text" → IsVerbatim kind
  caseCounts : cx.config.ignoreCase = false

/-- The kinds of names that rules look at. -/
def plainNameKinds : List String := ["identifier", "property_identifier"] ++ shorthandKinds

/-- The kinds of nodes that rules look at and that hold no literal. -/
def structureKinds : List String :=
  ["jsx_self_closing_element", "jsx_element", "jsx_opening_element", "pair", "pair_pattern"] ++
    chainKinds

section

variable {cx : MatchContext} {IsVerbatim : String → Prop} {file query : Node}

theorem Speaks.isIdentifier (h : Speaks cx IsVerbatim) {kind : String}
    (hkind : kind ∈ plainNameKinds) : cx.kinds.isIdentifier kind = true := by
  have hall : ∀ kind ∈ plainNameKinds, javaScriptKinds.isIdentifier kind = true ∧
      typeScriptKinds.isIdentifier kind = true := by decide
  rcases h.kinds with heq | heq
  · rw [heq]
    exact (hall kind hkind).1
  · rw [heq]
    exact (hall kind hkind).2

theorem Speaks.no_literal (h : Speaks cx IsVerbatim) {kind : String}
    (hkind : kind ∈ structureKinds) : cx.kinds.isIdentifier kind = false ∧
      cx.kinds.isString kind = false ∧ cx.kinds.isNumber kind = false ∧
        kind ≠ cx.kinds.block := by
  have hall : ∀ k ∈ [javaScriptKinds, typeScriptKinds], ∀ kind ∈ structureKinds,
      k.isIdentifier kind = false ∧ k.isString kind = false ∧ k.isNumber kind = false ∧
        kind ≠ k.block := by decide
  exact hall cx.kinds (by simpa using h.kinds) kind hkind

theorem Speaks.block (h : Speaks cx IsVerbatim) : cx.kinds.block = "statement_block" := by
  rcases h.kinds with heq | heq <;> rw [heq] <;> rfl

/-- A node that holds no literal does not stand for anything unread. -/
theorem Speaks.isRead (h : Speaks cx IsVerbatim) (hkind : query.kind ∈ structureKinds) :
    cx.mayStandUnread query = false := by
  obtain ⟨hidentifier, hstring, hnumber, -⟩ := h.no_literal hkind
  exact not_mayStandUnread hidentifier hstring hnumber

/-- Where a comparison reads all, every field of a node that holds no literal is left to agree. -/
theorem Speaks.mem_keys (h : Speaks cx IsVerbatim) (hkind : query.kind ∈ structureKinds)
    {keys : List FieldPath} (hreads : ReadsAll cx IsVerbatim file query keys) {name : String}
    {f : Field} (hf : query.field? name = some f) (hnodes : f.holdsNodes = true)
    (hname : name ≠ textKey) : [name] ∈ keys :=
  hreads.fields (h.isRead hkind) name f hf hnodes hname fun hblock =>
    absurd hblock (h.no_literal hkind).2.2.2

end

/-! ## The questions of each kind -/

section

variable {cx : MatchContext} {query : Node}

theorem questions_general (hkind : query.kind ∉ structureKinds)
    (hshorthand : query.kind ∉ shorthandKinds) :
    questions cx query = generalQuestions cx query := by
  simp only [structureKinds, chainKinds, shorthandKinds, List.cons_append, List.nil_append,
    List.mem_cons, List.not_mem_nil, or_false, not_or] at hkind hshorthand
  simp [questions, includeQuestions, shorthandKinds, chainKinds, hkind, hshorthand]

theorem questions_shorthand (hmode : cx.config.mode.allowsExtra = true)
    (hkind : query.kind ∈ shorthandKinds) : questions cx query = { texts := [[]] } := by
  have hne : ∀ kind, kind ∉ shorthandKinds → query.kind ≠ kind := by
    rintro kind hnot rfl
    exact hnot hkind
  simp [questions, includeQuestions, hmode, hkind, hne "jsx_self_closing_element" (by decide),
    hne "jsx_element" (by decide)]

theorem questions_renamed (hmode : cx.config.mode.allowsExtra = true)
    (hkind : query.kind = "pair_pattern") (hrenames : renames query = true) {key : String}
    (hkey : plainKey? query = some key) : questions cx query = { texts := [["key"]] } := by
  simp [questions, includeQuestions, shorthandKinds, hmode, hkind, hrenames, hkey]

theorem questions_pair (hmode : cx.config.mode.allowsExtra = true) (hkind : query.kind = "pair")
    {key : Node} (hchild : query.child? "key" = some key) (hkey : (keyText? key).isSome = true) :
    questions cx query = pairQuestions cx.markers query key := by
  simp [questions, includeQuestions, shorthandKinds, hmode, hkind, hchild, hkey]

theorem questions_chain (hmode : cx.config.mode.allowsExtra = true)
    (hkind : query.kind ∈ chainKinds) : questions cx query =
      { fields := (generalQuestions cx query).fields.filter (· != ["optional_chain"]) } := by
  have hne : ∀ kind, kind ∉ chainKinds → query.kind ≠ kind := by
    rintro kind hnot rfl
    exact hnot hkind
  have hshorthand : query.kind ∉ shorthandKinds := by
    intro hmem
    exact hne query.kind ((by decide : ∀ kind ∈ shorthandKinds, kind ∉ chainKinds) _ hmem) rfl
  simp [questions, includeQuestions, hmode, hkind, hshorthand,
    hne "jsx_self_closing_element" (by decide), hne "jsx_element" (by decide),
    hne "pair_pattern" (by decide), hne "pair" (by decide)]

end

/-- The text of a name, a number or a string is read. -/
theorem Speaks.text_mem_questions {cx : MatchContext} {IsVerbatim : String → Prop}
    (hs : Speaks cx IsVerbatim) {n : Node}
    (hkind : n.kind ∈ ["identifier", "property_identifier", "number", "string"]) :
    [] ∈ (questions cx n).texts := by
  have hne : ∀ kind, kind ∉ ["identifier", "property_identifier", "number", "string"] →
      n.kind ≠ kind := by
    rintro kind hnot rfl
    exact hnot hkind
  have hall : ∀ kind ∈ ["identifier", "property_identifier", "number", "string"],
      kind ∉ structureKinds ∧ kind ∉ shorthandKinds := by decide
  rw [questions_general (hall _ hkind).1 (hall _ hkind).2, generalQuestions, hs.block]
  simp [hne "statement_block" (by decide)]

/-! ## Texts that rules match -/

section

variable {cx : MatchContext} {IsVerbatim : String → Prop} {file : Node}

/-- A text is part of one that stands in the file as in its source. -/
def HoldsText (IsVerbatim : String → Prop) (file : Node) (value : String) : Prop :=
  ∃ m ∈ file.walk, ∃ text, m.text = some text ∧ IsVerbatim m.kind ∧ value.toList <:+: text.toList

theorem HoldsText.shows {value : String} (h : HoldsText IsVerbatim file value) {piece : List Char}
    (hpiece : piece <:+: value.toList) : file.Shows IsVerbatim piece := by
  obtain ⟨m, hm, text, htext, hverbatim, hvalue⟩ := h
  exact Or.inr ⟨m, hm, text, htext, hpiece.trans hvalue, Or.inl hverbatim⟩

/-- A file node holds the key of its own. -/
theorem Speaks.holdsText_of_key (hs : Speaks cx IsVerbatim) {key : Node} {value : String}
    (hchild : file.child? "key" = some key) (hkey : keyText? key = some value) :
    HoldsText IsVerbatim file value := by
  obtain ⟨text, htext, hkinds⟩ := keyText?_eq_some hkey
  have hmem : key ∈ file.walk :=
    Node.mem_walk_of_mem_offspring (Node.mem_offspring_of_child? hchild) (Node.mem_walk_self key)
  rcases hkinds with ⟨hkind, rfl⟩ | ⟨hkind, rfl⟩ | ⟨hkind, rfl⟩
  · exact ⟨key, hmem, value, htext, hs.verbatim _ (by rw [hkind]; decide), List.infix_rfl⟩
  · exact ⟨key, hmem, value, htext, hs.verbatim _ (by rw [hkind]; decide), List.infix_rfl⟩
  · refine ⟨key, hmem, text, htext, hs.verbatim _ (by rw [hkind]; decide), ?_⟩
    rw [← hs.sanitize]
    exact hs.legible.sanitize_infix "string" text

theorem Speaks.holdsText_of_destructures (hs : Speaks cx IsVerbatim) {value : String}
    (h : Destructures file value) : HoldsText IsVerbatim file value := by
  rcases h with ⟨hkind, htext⟩ | ⟨-, -, hkey⟩
  · exact ⟨file, Node.mem_walk_self file, value, htext, hs.verbatim _ (by rw [hkind]; decide),
      List.infix_rfl⟩
  · obtain ⟨key, hchild, hkind, htext⟩ := plainKey?_eq_some hkey
    refine hs.holdsText_of_key hchild ?_
    rw [keyText?, if_pos (Or.inl hkind)]
    exact htext

/-- A value that a text is matched or compared with contains all fragments of the text. -/
theorem infix_of_matchOrCompare {config : MatchSettings} (hcase : config.ignoreCase = false)
    {pattern value : String} {kind : WildcardKind} {b c : Bindings}
    (h : matchOrCompare config pattern value kind b = some c) {fragment : String}
    (hfragment : fragment ∈ config.markers.fragments pattern) :
    fragment.toList <:+: value.toList := by
  rcases matchOrCompare_eq_some h with ⟨-, hmatch⟩ | ⟨hplain, hsame, -⟩
  · rw [hcase] at hmatch
    exact Bindings.infix_of_matchText? hmatch hfragment
  · rw [hcase, Text.sameText_false] at hsame
    rw [Markers.fragments_of_not_hasWildcard hplain, List.mem_singleton] at hfragment
    rw [hfragment, hsame]

/-- A name that is matched or compared with a text of the file. -/
theorem Speaks.showsPieces_of_name (hs : Speaks cx IsVerbatim) {n : Node} {pattern value : String}
    {kind : WildcardKind} {b c : Bindings} (hkind : n.kind ∈ plainNameKinds)
    (htext : n.text = some pattern)
    (h : matchOrCompare cx.config pattern value kind b = some c)
    (hholds : HoldsText IsVerbatim file value) : ShowsPieces cx IsVerbatim file n := by
  intro piece hpiece _
  rw [literalPieces_identifier (hs.isIdentifier hkind) htext] at hpiece
  exact hholds.shows (infix_of_matchOrCompare hs.caseCounts h hpiece)

/-- A key that is matched or compared with a text of the file. -/
theorem Speaks.showsPieces_of_key (hs : Speaks cx IsVerbatim) {key : Node} {pattern value : String}
    {kind : WildcardKind} {b c : Bindings} (hkey : keyText? key = some pattern)
    (hlegible : keyIsLegible cx.markers key = true)
    (h : matchOrCompare cx.config pattern value kind b = some c)
    (hholds : HoldsText IsVerbatim file value) : ShowsPieces cx IsVerbatim file key := by
  obtain ⟨text, htext, hkinds⟩ := keyText?_eq_some hkey
  rcases hkinds with ⟨hkind, rfl⟩ | ⟨hkind, rfl⟩ | ⟨hkind, rfl⟩
  · exact hs.showsPieces_of_name (by rw [hkind]; decide) htext h hholds
  · intro piece hpiece _
    have hnumber : cx.kinds.isNumber key.kind = true := by
      rw [hkind]
      rcases hs.kinds with heq | heq <;> rw [heq] <;> decide
    -- a key that is a number is asked for only if it has no wildcard in it
    have hplain : cx.markers.hasWildcard pattern = false := by
      simpa [keyIsLegible, hkind, htext] using hlegible
    have hpart := infix_of_mem_literalPieces hs.legible (Or.inr hnumber) htext hpiece
    have hmem : pattern ∈ cx.config.markers.fragments pattern := by
      rw [← MatchContext.markers, Markers.fragments_of_not_hasWildcard hplain]
      exact List.mem_singleton.2 rfl
    exact hholds.shows (hpart.trans (infix_of_matchOrCompare hs.caseCounts h hmem))
  · intro piece hpiece _
    have hstring : cx.kinds.isString key.kind = true := by
      rw [hkind]
      rcases hs.kinds with heq | heq <;> rw [heq] <;> decide
    obtain ⟨-, fragment, hfragment, hpart⟩ :=
      word_of_mem_literalPieces hs.legible hstring htext hpiece
    rw [hkind, hs.sanitize] at hfragment
    exact hholds.shows (hpart.trans (infix_of_matchOrCompare hs.caseCounts h hfragment))

end

/-! ## Comparisons keep to the questions -/

theorem at?_singleton (n : Node) (name : String) : n.at? [name] = n.child? name := by
  rw [Node.at?]
  cases n.child? name <;> rfl

theorem mem_tagPaths {element : Node} {path : FieldPath} (h : path ∈ tagPaths element) :
    hasOpeningTag element = true ∧ ∃ name ∈ ["name", "attribute"], path = ["open_tag", name] := by
  rw [tagPaths] at h
  split at h
  next hopening =>
    simp only [List.mem_cons, List.not_mem_nil, or_false] at h
    rcases h with rfl | rfl
    · exact ⟨hopening, "name", by decide, rfl⟩
    · exact ⟨hopening, "attribute", by decide, rfl⟩
  next => simp at h

section

variable {cx : MatchContext} {IsVerbatim : String → Prop} {file query : Node} {b c : Bindings}

/-- Of a pair whose key is shown and whose value is left to agree or shown nothing more is read. -/
theorem keepsTo_pairQuestions {keys : List FieldPath} {key : Node}
    (hquestions : questions cx query = pairQuestions cx.markers query key)
    (hchild : query.child? "key" = some key)
    (hkey : keyIsLegible cx.markers key = true → ShowsPieces cx IsVerbatim file key ∨
      LeftToChild query keys (fun child => (questions cx child).texts) ["key"])
    (hvalue : ∀ value, query.child? "value" = some value → value.kind = "identifier" →
      ShowsPieces cx IsVerbatim file value ∨
        LeftToChild query keys (fun child => (questions cx child).texts) ["value"])
    (hfield : namesValue query = false → ∀ f, query.field? "value" = some f →
      f.holdsNodes = true → ["value"] ∈ keys) :
    KeepsTo cx IsVerbatim (questions cx) file query keys := by
  refine ⟨fun path hpath m hm => ?_, fun path hpath f hf hnodes => ?_⟩
  · rw [hquestions, pairQuestions] at hpath
    rcases List.mem_append.1 hpath with hpath | hpath
    · split at hpath
      next hlegible =>
        obtain rfl := List.mem_singleton.1 hpath
        rw [at?_singleton, hchild] at hm
        obtain rfl := Option.some.inj hm
        exact hkey hlegible
      next => simp at hpath
    · split at hpath
      next hnames =>
        obtain rfl := List.mem_singleton.1 hpath
        rw [at?_singleton] at hm
        rw [namesValue, hm, Option.any_some, beq_iff_eq] at hnames
        exact hvalue m hm hnames
      next => simp at hpath
  · rw [hquestions, pairQuestions] at hpath
    dsimp only at hpath
    split at hpath
    next => simp at hpath
    next hnames =>
      obtain rfl := List.mem_singleton.1 hpath
      exact Or.inl (hfield (by simpa using hnames) f hf hnodes)

/-- A question about the text of a child that is left to agree is left to the child. -/
theorem Speaks.leftToChild (hs : Speaks cx IsVerbatim) {keys : List FieldPath} {name : String}
    {child : Node} (hchild : query.child? name = some child)
    (hkind : child.kind ∈ ["identifier", "property_identifier", "number", "string"])
    (hname : [name] ∈ keys) :
    LeftToChild query keys (fun child => (questions cx child).texts) [name] :=
  ⟨name, [], child, rfl, hchild, hname, hs.text_mem_questions hkind⟩

theorem kind_of_keyText? {key : Node} {value : String} (h : keyText? key = some value) :
    key.kind ∈ ["identifier", "property_identifier", "number", "string"] := by
  obtain ⟨_, _, hkinds⟩ := keyText?_eq_some h
  rcases hkinds with ⟨hkind, -⟩ | ⟨hkind, -⟩ | ⟨hkind, -⟩ <;> rw [hkind] <;> decide

/-- Of a shorthand its own text is read. -/
theorem keepsTo_shorthand {keys : List FieldPath} (hmode : cx.config.mode.allowsExtra = true)
    (hkind : query.kind ∈ shorthandKinds) (hshows : ShowsPieces cx IsVerbatim file query) :
    KeepsTo cx IsVerbatim (questions cx) file query keys := by
  refine KeepsTo.of_text (questions_shorthand hmode hkind) fun m hm => Or.inl ?_
  obtain rfl : query = m := Option.some.inj hm
  exact hshows

/-- Of a destructured property that is renamed the key is read. -/
theorem keepsTo_renamed {keys : List FieldPath} (hmode : cx.config.mode.allowsExtra = true)
    (hkind : query.kind = "pair_pattern") (hrenames : renames query = true) {value : String}
    (hvalue : plainKey? query = some value) {key : Node} (hkey : query.child? "key" = some key)
    (h : ShowsPieces cx IsVerbatim file key ∨
      LeftToChild query keys (fun child => (questions cx child).texts) ["key"]) :
    KeepsTo cx IsVerbatim (questions cx) file query keys := by
  refine KeepsTo.of_text (questions_renamed hmode hkind hrenames hvalue) fun m hm => ?_
  rw [at?_singleton, hkey] at hm
  obtain rfl := Option.some.inj hm
  exact h

/-- A destructured property whose name is matched keeps to the questions. -/
theorem Speaks.keepsTo_destructured (hs : Speaks cx IsVerbatim) {keys : List FieldPath}
    (hmode : cx.config.mode.allowsExtra = true) {queryKey fileKey : String}
    (hquery : Destructures query queryKey) (hfile : Destructures file fileKey)
    (hmatch : matchOrCompare cx.config queryKey fileKey .identifier b = some c) :
    KeepsTo cx IsVerbatim (questions cx) file query keys := by
  have hholds := hs.holdsText_of_destructures hfile
  rcases hquery with ⟨hkind, htext⟩ | ⟨hkind, hrenames, hkey⟩
  · have hmem : query.kind ∈ shorthandKinds := by rw [hkind]; decide
    have hname : query.kind ∈ plainNameKinds := List.mem_append_right _ hmem
    exact keepsTo_shorthand hmode hmem (hs.showsPieces_of_name hname htext hmatch hholds)
  · obtain ⟨key, hchild, hkind', htext⟩ := plainKey?_eq_some hkey
    have hname : key.kind ∈ plainNameKinds := by rw [hkind']; decide
    exact keepsTo_renamed hmode hkind hrenames hkey hchild
      (Or.inl (hs.showsPieces_of_name hname htext hmatch hholds))

/-- A rule after wildcards that accepts a pair keeps to the questions. -/
theorem Accepts.keepsTo (hs : Speaks cx IsVerbatim)
    (hmode : cx.config.mode.allowsExtra = true) {verdict : Verdict}
    (h : Accepts cx.config file query b verdict c) :
    KeepsTo cx IsVerbatim (questions cx) file query verdict.queryKeys := by
  cases h with
  | destructured hquery hfile hmatch => exact hs.keepsTo_destructured hmode hquery hfile hmatch
  | @shorthand name key keyNode value c hquery hfile hname hkeyNode hkey hvalue hkind hsame
      hmatch =>
      have hmem : query.kind ∈ shorthandKinds := by rw [hquery]; decide
      have hplain : query.kind ∈ plainNameKinds := List.mem_append_right _ hmem
      have hholds := hs.holdsText_of_key hkeyNode hkey
      exact keepsTo_shorthand hmode hmem (hs.showsPieces_of_name hplain hname hmatch hholds)
  | @expanded name key pattern keyNode value b₁ c hquery hfile hname hkeyNode hkey hvalue hkind
      hpattern hfirst hsecond =>
      have hholds : HoldsText IsVerbatim file name :=
        ⟨file, Node.mem_walk_self file, name, hname, hs.verbatim _ (by rw [hfile]; decide),
          List.infix_rfl⟩
      have hquestions := questions_pair hmode hquery hkeyNode (by rw [hkey]; rfl)
      -- nothing is left to agree, since key and value are both matched with the name
      refine keepsTo_pairQuestions hquestions hkeyNode (fun hlegible => Or.inl ?_)
        (fun v hv _ => Or.inl ?_) fun hnames => ?_
      · exact hs.showsPieces_of_key hkey hlegible hsecond hholds
      · obtain rfl := Option.some.inj (hvalue.symm.trans hv)
        exact hs.showsPieces_of_name (by rw [hkind]; decide) hpattern hfirst hholds
      · rw [namesValue, hvalue, Option.any_some, hkind] at hnames
        simp at hnames
  | @keyed queryKey fileKey key other c hquery hfile hqueryKey hfileKey hkinds hkey hother hmatch =>
      have hquestions := questions_pair hmode hquery hqueryKey (by rw [hkey]; rfl)
      have hvalue : ["value"] ∈ (Verdict.accept [(["value"], ["value"])]).queryKeys :=
        List.mem_singleton.2 rfl
      refine keepsTo_pairQuestions hquestions hqueryKey (fun hlegible => Or.inl ?_)
        (fun v hv hkind => Or.inr ?_) fun _ _ _ _ => hvalue
      · exact hs.showsPieces_of_key hkey hlegible hmatch (hs.holdsText_of_key hfileKey hother)
      · exact hs.leftToChild hv (by rw [hkind]; decide) hvalue
  | chained hquery hchain =>
      refine KeepsTo.of_fields (questions_chain hmode hquery) fun path hpath f hf hnodes =>
        Or.inl ?_
      -- all children but the link of the chain are left to agree
      obtain ⟨hgeneral, hne⟩ := List.mem_filter.1 hpath
      have hblock := (hs.no_literal (List.mem_append_right _ hquery)).2.2.2
      obtain ⟨-, name, rfl, -, hcases⟩ := mem_generalQuestions_fields hgeneral
      obtain ⟨-, hname⟩ := hcases.resolve_left fun h => hblock h.1
      rw [Verdict.accept, List.map_map]
      exact List.mem_map.2 ⟨name, List.mem_filter.2 ⟨hname, by simpa using hne⟩, rfl⟩

/-- A rule before wildcards that accepts a pair keeps to the questions. -/
theorem keepsTo_of_selfClosing {verdict : Verdict}
    (h : selfClosing cx.config file query b = (some verdict, c)) (hagrees : verdict.agrees = true) :
    KeepsTo cx IsVerbatim (questions cx) file query verdict.queryKeys := by
  obtain ⟨-, hcase⟩ := selfClosing_accepts h hagrees
  rcases hcase with ⟨hkind, hfields⟩ | ⟨hkind, hcontent, hfields⟩
  · have hquestions : questions cx query = { fields := [["name"], ["attribute"]] } := by
      rw [questions, if_pos hkind]
    refine KeepsTo.of_fields hquestions fun path hpath f hf _ => Or.inl ?_
    have hsome : (query.resolve path).isSome = true := by rw [hf]; rfl
    simp only [List.mem_cons, List.not_mem_nil, or_false] at hpath
    rcases hpath with rfl | rfl
    · exact hfields "name" (by decide) hsome
    · exact hfields "attribute" (by decide) hsome
  · have hquestions : questions cx query = { fields := tagPaths query } := by
      simp [questions, hkind, hcontent]
    refine KeepsTo.of_fields hquestions fun path hpath f hf _ => Or.inl ?_
    have hsome : (query.resolve path).isSome = true := by rw [hf]; rfl
    obtain ⟨-, name, hname, rfl⟩ := mem_tagPaths hpath
    exact hfields name hname hsome

/-- A comparison that reads all leaves the opening tag of an element to agree, and what is asked
about the tag is asked of it in turn. -/
theorem Speaks.leftToTag (hs : Speaks cx IsVerbatim) (hkind : query.kind = "jsx_element")
    {keys : List FieldPath} (hreads : ReadsAll cx IsVerbatim file query keys)
    (hopening : hasOpeningTag query = true) {name : String} {f : Field}
    (hf : query.resolve ["open_tag", name] = some f) (hnodes : f.holdsNodes = true)
    (hname : name ≠ textKey) :
    LeftToChild query keys (fun child => (questions cx child).fields) ["open_tag", name] := by
  have hstructure : query.kind ∈ structureKinds := by rw [hkind]; decide
  obtain ⟨tag, hchild, hfield⟩ := Option.bind_eq_some_iff.1 hf
  rw [hasOpeningTag, hchild, Option.any_some, beq_iff_eq] at hopening
  refine ⟨"open_tag", [name], tag, rfl, hchild, ?_, ?_⟩
  · exact hs.mem_keys hstructure hreads (Node.field?_of_child? hchild) rfl (by decide)
  · have hgeneral : questions cx tag = generalQuestions cx tag := by
      simp [questions, includeQuestions, shorthandKinds, chainKinds, hopening]
    have hread : cx.mayStandUnread tag = false := hs.isRead (by rw [hopening]; decide)
    have hblock : tag.kind ≠ cx.kinds.block := by
      rw [hopening]
      exact (hs.no_literal (by decide)).2.2.2
    have hmem : name ∈ tag.childFields := Node.mem_childFields hfield hnodes
    show [name] ∈ (questions cx tag).fields
    rw [hgeneral, generalQuestions, hread]
    simp [hblock, hmem, hname]

/-- A comparison that reads all keeps to the questions about an element without content: those
about its opening tag are left to the tag. -/
theorem Speaks.keepsTo_element (hs : Speaks cx IsVerbatim) (hkind : query.kind = "jsx_element")
    (hcontent : hasContent query = false) {keys : List FieldPath}
    (hreads : ReadsAll cx IsVerbatim file query keys) :
    KeepsTo cx IsVerbatim (questions cx) file query keys := by
  have hquestions : questions cx query = { fields := tagPaths query } := by
    simp [questions, hkind, hcontent]
  refine KeepsTo.of_fields hquestions fun path hpath f hf hnodes => Or.inr ?_
  obtain ⟨hopening, name, hname, rfl⟩ := mem_tagPaths hpath
  have hne : ∀ name ∈ ["name", "attribute"], name ≠ textKey := by decide
  exact hs.leftToTag hkind hreads hopening hf hnodes (hne name hname)

/-- A comparison that reads all keeps to the questions about a pair. -/
theorem Speaks.keepsTo_pair (hs : Speaks cx IsVerbatim) (hkind : query.kind = "pair")
    (hmode : cx.config.mode.allowsExtra = true) {keys : List FieldPath}
    (hreads : ReadsAll cx IsVerbatim file query keys) {key : Node} {value : String}
    (hkeyNode : query.child? "key" = some key) (hkey : keyText? key = some value) :
    KeepsTo cx IsVerbatim (questions cx) file query keys := by
  have hstructure : query.kind ∈ structureKinds := by rw [hkind]; decide
  have hchild : ∀ name child, query.child? name = some child → name ≠ textKey →
      [name] ∈ keys := fun name child hchild hname =>
    hs.mem_keys hstructure hreads (Node.field?_of_child? hchild) rfl hname
  refine keepsTo_pairQuestions (questions_pair hmode hkind hkeyNode (by rw [hkey]; rfl))
    hkeyNode (fun _ => Or.inr ?_) (fun v hv hname => Or.inr ?_) fun _ f hf hnodes => ?_
  · exact hs.leftToChild hkeyNode (kind_of_keyText? hkey)
      (hchild "key" key hkeyNode (by decide))
  · exact hs.leftToChild hv (by rw [hname]; decide) (hchild "value" v hv (by decide))
  · exact hs.mem_keys hstructure hreads hf hnodes (by decide)

/-- A comparison that reads all keeps to the questions where further code is ignored. -/
theorem Speaks.keepsTo_include (hs : Speaks cx IsVerbatim)
    (hmode : cx.config.mode.allowsExtra = true) {keys : List FieldPath}
    (hreads : ReadsAll cx IsVerbatim file query keys)
    (hquestions : questions cx query = includeQuestions cx query) :
    KeepsTo cx IsVerbatim (questions cx) file query keys := by
  have hgeneral : includeQuestions cx query = generalQuestions cx query →
      KeepsTo cx IsVerbatim (questions cx) file query keys :=
    fun heq => hreads.keepsTo (hquestions.trans heq)
  by_cases hshorthand : query.kind ∈ shorthandKinds
  · refine keepsTo_shorthand hmode hshorthand (hreads.text ?_)
    rw [hs.block]
    intro heq
    rw [heq] at hshorthand
    revert hshorthand
    decide
  by_cases hpattern : query.kind = "pair_pattern"
  · have hstructure : query.kind ∈ structureKinds := by rw [hpattern]; decide
    by_cases hrenames : renames query = true ∧ (plainKey? query).isSome = true
    · obtain ⟨value, hkey⟩ := Option.isSome_iff_exists.1 hrenames.2
      obtain ⟨key, hchild, hkind, -⟩ := plainKey?_eq_some hkey
      have hmem : ["key"] ∈ keys :=
        hs.mem_keys hstructure hreads (Node.field?_of_child? hchild) rfl (by decide)
      exact keepsTo_renamed hmode hpattern hrenames.1 hkey hchild
        (Or.inr (hs.leftToChild hchild (by rw [hkind]; decide) hmem))
    · refine hgeneral ?_
      rw [← Bool.and_eq_true] at hrenames
      simp [includeQuestions, shorthandKinds, hpattern, hrenames]
  by_cases hpair : query.kind = "pair"
  · cases hkeyNode : query.child? "key" with
    | none =>
        refine hgeneral ?_
        simp [includeQuestions, shorthandKinds, hpair, hkeyNode]
    | some key =>
        cases hkey : keyText? key with
        | none =>
            refine hgeneral ?_
            simp [includeQuestions, shorthandKinds, hpair, hkeyNode, hkey]
        | some value => exact hs.keepsTo_pair hpair hmode hreads hkeyNode hkey
  by_cases hchain : query.kind ∈ chainKinds
  · have hstructure : query.kind ∈ structureKinds := List.mem_append_right _ hchain
    have hblock := (hs.no_literal hstructure).2.2.2
    refine KeepsTo.of_fields (questions_chain hmode hchain) fun path hpath f hf hnodes =>
      Or.inl ?_
    obtain ⟨-, name, rfl, hname, -⟩ := mem_generalQuestions_fields (List.mem_filter.1 hpath).1
    exact hs.mem_keys hstructure hreads hf hnodes hname
  · refine hgeneral ?_
    simp [includeQuestions, hshorthand, hpattern, hpair, hchain]

/-- A comparison that reads all keeps to the questions. -/
theorem Speaks.keepsTo_of_readsAll (hs : Speaks cx IsVerbatim) {keys : List FieldPath}
    (hreads : ReadsAll cx IsVerbatim file query keys) :
    KeepsTo cx IsVerbatim (questions cx) file query keys := by
  by_cases hclosing : query.kind = "jsx_self_closing_element"
  · have hquestions : questions cx query = { fields := [["name"], ["attribute"]] } := by
      rw [questions, if_pos hclosing]
    have hstructure : query.kind ∈ structureKinds := by rw [hclosing]; decide
    refine KeepsTo.of_fields hquestions fun path hpath f hf hnodes => Or.inl ?_
    simp only [List.mem_cons, List.not_mem_nil, or_false] at hpath
    rcases hpath with rfl | rfl
    · exact hs.mem_keys hstructure hreads hf hnodes (by decide)
    · exact hs.mem_keys hstructure hreads hf hnodes (by decide)
  by_cases helement : query.kind = "jsx_element" ∧ hasContent query = false
  · exact hs.keepsTo_element helement.1 helement.2 hreads
  have helement' : ¬ (query.kind = "jsx_element" && !hasContent query) = true := by
    simpa using helement
  by_cases hmode : cx.config.mode.allowsExtra = true
  · refine hs.keepsTo_include hmode hreads ?_
    rw [questions, if_neg hclosing, if_neg helement', if_pos hmode]
  · refine hreads.keepsTo ?_
    rw [questions, if_neg hclosing, if_neg helement', if_neg hmode]

/-- **All comparisons in JavaScript and TypeScript keep to the questions.** -/
theorem Speaks.honest (hs : Speaks cx IsVerbatim) : (questions cx).Honest cx IsVerbatim := by
  intro file query b found c h
  induction h with
  | @rule file query b c verdict hrule hagrees =>
      rw [hs.before] at hrule
      exact keepsTo_of_selfClosing (rulesBefore_accepts hrule) hagrees
  | value hrule hfield hinner h ih =>
      exact ih.of_mem_walk (Node.mem_walk_of_mem_offspring
        (Node.mem_offspring_of_child? hinner) (Node.mem_walk_self _))
  | @plain file query b b₁ c found hrule hfield h =>
      rcases h.readsAll hs.legible hs.caseCounts with ⟨verdict, rfl, hagrees, hfirst⟩ | hreads
      · rw [hs.after] at hfirst
        obtain ⟨hmode, haccepts⟩ := rulesAfter_accepts hfirst hagrees
        exact haccepts.keepsTo hs hmode
      · exact hs.keepsTo_of_readsAll hreads

end

end CodeSearch.Ecma
