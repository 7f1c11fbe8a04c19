import CodeSearch.Proofs.Attempts
import CodeSearch.Proofs.Literals

/-!
# What a query asks of a file

A comparison does not look at everything: a wildcard stands for a subtree unread, and a rule of a
grammar may settle two nodes by a part of them. An **inquiry** tells, for each query node, the
texts and fields that are read whatever file node it matches. If every comparison keeps to the
inquiry, a match shows all literal text of the nodes that the query **asks** for, and whether
the file passes the token filter is up to the other nodes of the query.
-/

set_option autoImplicit false

namespace CodeSearch

/-! ## Paths to nodes -/

/-- The node that a path of single children leads to; the empty path leads to the node itself. -/
def Node.at? (n : Node) : FieldPath → Option Node
  | [] => some n
  | name :: rest => (n.child? name).bind (·.at? rest)

/-- The nodes of a field that take part in comparisons. -/
def MatchContext.compared (cx : MatchContext) : Field → List Node
  | .node child => [child]
  | .nodes children => cx.comparable children
  | .token _ => []

theorem MatchContext.holdsNodes_of_mem_compared {cx : MatchContext} {f : Field} {c : Node}
    (h : c ∈ cx.compared f) : f.holdsNodes = true := by
  cases f with
  | node child => rfl
  | nodes children => rfl
  | token _ => simp [MatchContext.compared] at h

/-- Where two fields agree, each compared node of the query's is related to one of the file's. -/
theorem FieldsAgree.exists_of_mem {cx : MatchContext} {R : Node → Node → Prop}
    {file query : Field} (h : FieldsAgree cx R file query) {q : Node}
    (hq : q ∈ cx.compared query) : ∃ f ∈ file.members, R f q := by
  cases h with
  | @node f q' h =>
      obtain rfl : q = q' := List.mem_singleton.1 hq
      exact ⟨f, List.mem_singleton.2 rfl, h⟩
  | nodes place hplace h =>
      obtain ⟨i, hi, rfl⟩ := List.getElem_of_mem hq
      exact ⟨_, (List.mem_filter.1 (List.get_mem _ (place ⟨i, hi⟩))).1, h ⟨i, hi⟩⟩

/-! ## Inquiries -/

/-- What is read of a query node: the texts of the nodes that some paths lead to, and the fields
that others lead to, in turn. -/
structure Questions where
  texts : List FieldPath := []
  fields : List FieldPath := []

/-- For each query node, what is read of it whatever file node it matches. -/
abbrev Inquiry := Node → Questions

/-- **The nodes that a query node asks for**: those whose text is read with it, and those that
the compared nodes of the fields read with it ask for. -/
inductive Asks (cx : MatchContext) (inquiry : Inquiry) : Node → Node → Prop
  | text {query m : Node} {path : FieldPath} (hpath : path ∈ (inquiry query).texts)
      (hm : query.at? path = some m) : Asks cx inquiry query m
  | field {query c m : Node} {path : FieldPath} {f : Field}
      (hpath : path ∈ (inquiry query).fields) (hf : query.resolve path = some f)
      (hc : c ∈ cx.compared f) (h : Asks cx inquiry c m) : Asks cx inquiry query m

/-- A file tree **shows** a piece of text if it is a part of one of its texts, and either has no
blanks or is there as it stands in the source, as is text in nodes of verbatim kinds. -/
def Node.Shows (file : Node) (IsVerbatim : String → Prop) (piece : List Char) : Prop :=
  piece = [] ∨ ∃ m ∈ file.walk, ∃ text, m.text = some text ∧ piece <:+: text.toList ∧
    (IsVerbatim m.kind ∨ Text.Unbroken piece)

theorem Node.Shows.of_mem_walk {file m : Node} {IsVerbatim : String → Prop} {piece : List Char}
    (h : m.Shows IsVerbatim piece) (hm : m ∈ file.walk) : file.Shows IsVerbatim piece := by
  rcases h with rfl | ⟨d, hd, htext⟩
  · exact Or.inl rfl
  · exact Or.inr ⟨d, Node.mem_walk_trans hd hm, htext⟩

/-- A file tree shows all literal text of a query node that is long enough for a token. -/
def ShowsPieces (cx : MatchContext) (IsVerbatim : String → Prop) (file m : Node) : Prop :=
  ∀ piece ∈ literalPieces cx.grammar cx.markers m, minTokenLength ≤ piece.length →
    file.Shows IsVerbatim piece.toList

/-- A question about a path is left to the child that the path starts with, which is among the
fields left to agree. -/
def LeftToChild (query : Node) (keys : List FieldPath) (asked : Node → List FieldPath)
    (path : FieldPath) : Prop :=
  ∃ name rest child, path = name :: rest ∧ query.child? name = some child ∧ [name] ∈ keys ∧
    rest ∈ asked child

/-- A comparison of two nodes **keeps to** an inquiry: every text that it reads of the query node
is shown by the file node, and every field is left to agree, or the question is left to the
child on the way. -/
structure KeepsTo (cx : MatchContext) (IsVerbatim : String → Prop) (inquiry : Inquiry)
    (file query : Node) (keys : List FieldPath) : Prop where
  texts : ∀ path ∈ (inquiry query).texts, ∀ m, query.at? path = some m →
    ShowsPieces cx IsVerbatim file m ∨
      LeftToChild query keys (fun child => (inquiry child).texts) path
  fields : ∀ path ∈ (inquiry query).fields, ∀ f, query.resolve path = some f →
    f.holdsNodes = true →
      path ∈ keys ∨ LeftToChild query keys (fun child => (inquiry child).fields) path

theorem KeepsTo.of_mem_walk {cx : MatchContext} {IsVerbatim : String → Prop} {inquiry : Inquiry}
    {file inner query : Node} {keys : List FieldPath}
    (h : KeepsTo cx IsVerbatim inquiry inner query keys) (hinner : inner ∈ file.walk) :
    KeepsTo cx IsVerbatim inquiry file query keys := by
  refine ⟨fun path hpath m hm => ?_, h.fields⟩
  rcases h.texts path hpath m hm with hshows | hleft
  · exact Or.inl fun piece hpiece hlength => (hshows piece hpiece hlength).of_mem_walk hinner
  · exact Or.inr hleft

section

variable {cx : MatchContext} {IsVerbatim : String → Prop} {inquiry : Inquiry} {file query : Node}
  {keys : List FieldPath}

/-- Where one text is all that is read of a query node. -/
theorem KeepsTo.of_text {path : FieldPath} (hinquiry : inquiry query = { texts := [path] })
    (h : ∀ m, query.at? path = some m → ShowsPieces cx IsVerbatim file m ∨
      LeftToChild query keys (fun child => (inquiry child).texts) path) :
    KeepsTo cx IsVerbatim inquiry file query keys := by
  constructor
  · intro other hother m hm
    rw [hinquiry] at hother
    obtain rfl := List.mem_singleton.1 hother
    exact h m hm
  · intro other hother
    rw [hinquiry] at hother
    simp at hother

/-- Where nothing but fields is read of a query node. -/
theorem KeepsTo.of_fields {paths : List FieldPath} (hinquiry : inquiry query = { fields := paths })
    (h : ∀ path ∈ paths, ∀ f, query.resolve path = some f → f.holdsNodes = true →
      path ∈ keys ∨ LeftToChild query keys (fun child => (inquiry child).fields) path) :
    KeepsTo cx IsVerbatim inquiry file query keys := by
  constructor
  · intro path hpath
    rw [hinquiry] at hpath
    simp at hpath
  · intro path hpath f hf hnodes
    rw [hinquiry] at hpath
    exact h path hpath f hf hnodes

end

/-- All comparisons keep to an inquiry. -/
def Inquiry.Honest (inquiry : Inquiry) (cx : MatchContext) (IsVerbatim : String → Prop) : Prop :=
  ∀ file query b found c, Agree cx file query b found c →
    KeepsTo cx IsVerbatim inquiry file query found.queryKeys

section

variable {cx : MatchContext} {IsVerbatim : String → Prop} {inquiry : Inquiry}

/-- A field left to agree agrees with one of the file. -/
theorem Attempt.fieldsAgree_of_mem_queryKeys (hgrammar : cx.grammar.BindsTexts) {a : Attempt}
    (ha : (a.outcome cx).agrees = true) {path : FieldPath} {f : Field}
    (hpath : path ∈ (a.found cx).queryKeys) (hf : a.query.resolve path = some f) {q : Node}
    (hq : q ∈ cx.compared f) : ∃ g c, a.Leads cx ⟨g, q, c⟩ := by
  obtain ⟨-, hlength, -⟩ := Attempt.outcome_eq ha
  obtain ⟨i, hi, rfl⟩ := List.getElem_of_mem hpath
  have hi' : i < (a.found cx).fileKeys.length := by omega
  have hpair : ((a.found cx).fileKeys[i], (a.found cx).queryKeys[i]) ∈ a.pairs cx := by
    rw [← List.getElem_zip (h := by rw [List.length_zip]; omega)]
    exact List.getElem_mem _
  obtain ⟨right, left, -, hleft, hagree⟩ := Attempt.fieldsAgree hgrammar ha hpair
  obtain rfl := Option.some.inj (hf.symm.trans hleft)
  obtain ⟨g, -, c, hleads⟩ := hagree.exists_of_mem hq
  exact ⟨g, c, hleads⟩

/-- **A match shows what its query asks for.** -/
theorem showsPieces_of_asks (hgrammar : cx.grammar.BindsTexts)
    (hhonest : inquiry.Honest cx IsVerbatim) {a : Attempt} (ha : (a.outcome cx).agrees = true)
    {m : Node} (h : Asks cx inquiry a.query m) : ShowsPieces cx IsVerbatim a.file m := by
  obtain ⟨file, query, b⟩ := a
  induction query using Node.height_induction generalizing file b m with
  | step query ih =>
      obtain ⟨hagrees, -, -⟩ := Attempt.outcome_eq ha
      have hkeeps := hhonest file query b _ _ (compare_agrees hagrees)
      have hbelow : ∀ path f c, path ∈ ((Attempt.mk file query b).found cx).queryKeys →
          query.resolve path = some f → c ∈ cx.compared f → Asks cx inquiry c m →
            ShowsPieces cx IsVerbatim file m := by
        intro path f c hpath hf hc hasks piece hpiece hlength
        obtain ⟨g, d, hleads⟩ := Attempt.fieldsAgree_of_mem_queryKeys hgrammar ha hpath hf hc
        obtain ⟨hsucceeds, -, -⟩ := hleads.between hgrammar ha
        exact (ih c hleads.mem.2.2 g d hsucceeds hasks piece hpiece hlength).of_mem_walk
          hleads.mem.1
      have hchild : ∀ name child, query.child? name = some child →
          [name] ∈ ((Attempt.mk file query b).found cx).queryKeys → Asks cx inquiry child m →
            ShowsPieces cx IsVerbatim file m := by
        intro name child hchild hname hasks
        refine hbelow [name] (.node child) child hname ?_ (List.mem_singleton.2 rfl) hasks
        exact Node.field?_of_child? hchild
      cases h with
      | @text _ _ path hpath hm =>
          rcases hkeeps.texts path hpath m hm with
            hshows | ⟨name, rest, child, rfl, hc, hname, hrest⟩
          · exact hshows
          · rw [Node.at?, hc] at hm
            exact hchild name child hc hname (Asks.text hrest hm)
      | @field _ c _ path f hpath hf hc hasks =>
          rcases hkeeps.fields path hpath f hf (MatchContext.holdsNodes_of_mem_compared hc) with
            hkey | ⟨name, rest, child, rfl, hcname, hname, hrest⟩
          · exact hbelow path f c hkey hf hc hasks
          · refine hchild name child hcname hname ?_
            cases rest with
            | nil =>
                rw [Node.resolve, Node.field?_of_child? hcname] at hf
                obtain rfl := Option.some.inj hf
                obtain rfl := List.mem_singleton.1 hc
                exact hasks
            | cons next rest =>
                rw [Node.resolve, hcname] at hf
                exact Asks.field hrest hf hc hasks

/-- A query that is found in a tree: the tree shows what the query asks for. -/
theorem showsPieces_of_traverse (hgrammar : cx.grammar.BindsTexts)
    (hhonest : inquiry.Honest cx IsVerbatim) {root query m : Node}
    (hfound : (traverse cx root query).found ≠ []) (hasks : Asks cx inquiry query m) :
    ShowsPieces cx IsVerbatim root m := by
  intro piece hpiece hlength
  obtain ⟨found, hmem⟩ := List.exists_mem_of_ne_nil _ hfound
  obtain ⟨hnode, hagrees, -⟩ := isMatch_of_traverse hmem
  have hshows := showsPieces_of_asks (a := ⟨found.node, query, .empty⟩) hgrammar hhonest
    hagrees hasks piece hpiece hlength
  exact hshows.of_mem_walk hnode

/-- **What the token filter is up to**, where comparisons keep to an inquiry, letter case counts
and a text contains whatever the file tree shows: if the query is found in the tree, the text
passes the filter exactly if it contains the tokens of the nodes that the query does not ask
for. -/
theorem passesTokenFilter_iff_of_traverse (hgrammar : cx.grammar.BindsTexts)
    (hhonest : inquiry.Honest cx IsVerbatim) (hcase : cx.config.ignoreCase = false)
    {root query : Node} {content : String}
    (hcontent : ∀ piece, root.Shows IsVerbatim piece → piece <:+: content.toList)
    (hfound : (traverse cx root query).found ≠ []) :
    passesTokenFilter content [uniqueTokens cx.grammar cx.config query] false = true ↔
      ∀ m ∈ query.walk, ¬ Asks cx inquiry query m →
        ∀ token ∈ literalPieces cx.grammar cx.markers m, minTokenLength ≤ token.length →
          token.toList <:+: content.toList := by
  rw [passesTokenFilter_iff]
  constructor
  · intro hpasses m hm _ token htoken hlength
    exact hpasses token ((mem_uniqueTokens hcase).2 ⟨m, hm, htoken, hlength⟩)
  · intro hunasked token htoken
    obtain ⟨m, hm, hpiece, hlength⟩ := (mem_uniqueTokens hcase).1 htoken
    by_cases hasks : Asks cx inquiry query m
    · exact hcontent _
        (showsPieces_of_traverse hgrammar hhonest hfound hasks token hpiece hlength)
    · exact hunasked m hm hasks token hpiece hlength

end

end CodeSearch
