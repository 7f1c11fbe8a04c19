import CodeSearch.Proofs.SourceText

/-!
# Where the nodes of a file's tree stand

A node has a place in the source, told in bytes and in lines and columns, and a leaf shows what
stands there. The last step on a node puts leaves in, joins leaves and cuts elements off; the nodes
that it makes stand where they say and show what stands there, like those of the parser.

`Language.isPlaced_of_parse`: all nodes of a parsed file do so. Of the parser it is used that its
nodes have the lines and columns of their bytes, that no child starts before its parent, that
templates and quoted values start with a delimiter, and that the pieces of text in a template touch.
-/

set_option autoImplicit false

namespace CodeSearch

/-! ## Positions of bytes -/

namespace Text

variable {cs : List Char} {start stop : Nat} {p q : Position}

/-- The position of a byte, if a character starts there or the text ends there. -/
def positionAt? (cs : List Char) (byte : Nat) : Option Position :=
  (cutAt? byte cs).map fun cut => Position.ofBefore cut.1

theorem positionAt?_append (before after : List Char) :
    positionAt? (before ++ after) (byteLength before) = some (Position.ofBefore before) := by
  rw [positionAt?, cutAt?_append]
  rfl

theorem positionAt?_eq_some (h : positionAt? cs start = some p) :
    ∃ before after, cs = before ++ after ∧ byteLength before = start ∧
      Position.ofBefore before = p := by
  obtain ⟨⟨before, after⟩, hcut, hposition⟩ := Option.map_eq_some_iff.1 h
  obtain ⟨hcat, hlength⟩ := cutAt?_eq_some hcut
  exact ⟨before, after, hcat.symm, hlength, hposition⟩

/-- Between two bytes that have positions there is a slice. -/
theorem exists_slice? (hle : start ≤ stop) (hstart : positionAt? cs start = some p)
    (hstop : positionAt? cs stop = some q) : ∃ piece, slice? cs start stop = some piece := by
  obtain ⟨before, after, rfl, rfl, -⟩ := positionAt?_eq_some hstart
  obtain ⟨before', after', hcat, rfl, -⟩ := positionAt?_eq_some hstop
  rcases List.append_eq_append_iff.1 hcat with ⟨piece, rfl, rfl⟩ | ⟨piece, rfl, rfl⟩
  · refine ⟨piece, ?_⟩
    rw [byteLength_append, ← List.append_assoc]
    exact slice?_append before piece after'
  · -- the second cut is not before the first, so that there is nothing between them
    rw [byteLength_append] at hle
    have hnone : piece = [] := byteLength_eq_zero (by omega)
    subst hnone
    refine ⟨[], ?_⟩
    have hslice := slice?_append before' [] after
    simpa using hslice

/-- The slice between a byte and itself is empty. -/
theorem slice?_self (h : positionAt? cs start = some p) : slice? cs start start = some [] := by
  obtain ⟨before, after, rfl, rfl, -⟩ := positionAt?_eq_some h
  have hslice := slice?_append before [] after
  simpa using hslice

/-- Behind a character of one byte, which is no line feed, the column is the next one. -/
theorem positionAt?_succ {delimiter : Char} (hfirst : (slice cs start stop).head? = some delimiter)
    (hsize : delimiter.utf8Size = 1) (hbreak : delimiter ≠ '\n')
    (h : positionAt? cs start = some p) :
    positionAt? cs (start + 1) = some ⟨p.line, p.column + 1⟩ := by
  obtain ⟨inside, hinside⟩ := List.head?_eq_some_iff.1 hfirst
  have hslice : slice? cs start stop = some (delimiter :: inside) := by
    unfold slice at hinside
    cases hpiece : slice? cs start stop with
    | none => simp [hpiece] at hinside
    | some piece =>
        rw [hpiece, Option.getD_some] at hinside
        rw [hinside]
  obtain ⟨before, after, rfl, rfl, -⟩ := slice?_eq_some hslice
  have hcat : before ++ delimiter :: inside ++ after =
      before ++ [delimiter] ++ (inside ++ after) := by simp
  have hlength : byteLength before + 1 = byteLength (before ++ [delimiter]) := by
    rw [byteLength_append, byteLength_cons, byteLength_nil, hsize]
  rw [List.append_assoc, positionAt?_append] at h
  obtain rfl := Option.some.inj h
  rw [hcat, hlength, positionAt?_append, Position.ofBefore_concat, if_neg hbreak, hsize]

end Text

/-! ## Spans -/

namespace Span

variable {a b : Span} {source : List Char}

/-- A span **lies in** a text if its ends are in order and have the lines and columns that the text
gives to their bytes. -/
structure LiesIn (span : Span) (source : List Char) : Prop where
  ordered : span.startByte ≤ span.endByte
  start : Text.positionAt? source span.startByte = some span.start
  stop : Text.positionAt? source span.endByte = some span.stop

instance (span : Span) (source : List Char) : Decidable (span.LiesIn source) :=
  decidable_of_iff (span.startByte ≤ span.endByte ∧
      Text.positionAt? source span.startByte = some span.start ∧
      Text.positionAt? source span.endByte = some span.stop)
    ⟨fun h => ⟨h.1, h.2.1, h.2.2⟩, fun h => ⟨h.ordered, h.start, h.stop⟩⟩

theorem LiesIn.endByte_le (h : a.LiesIn source) : a.endByte ≤ Text.byteLength source := by
  obtain ⟨before, after, rfl, hlength, -⟩ := Text.positionAt?_eq_some h.stop
  rw [Text.byteLength_append]
  omega

theorem LiesIn.exists_slice? (h : a.LiesIn source) :
    ∃ piece, Text.slice? source a.startByte a.endByte = some piece :=
  Text.exists_slice? h.ordered h.start h.stop

theorem LiesIn.atEnd (h : a.LiesIn source) : a.atEnd.LiesIn source :=
  ⟨Nat.le_refl _, h.stop, h.stop⟩

/-- From the start of one span to the end of another. -/
theorem LiesIn.upTo (ha : a.LiesIn source) (hb : b.LiesIn source) (hle : a.startByte ≤ b.endByte) :
    Span.LiesIn ⟨a.startByte, b.endByte, a.start, b.stop⟩ source :=
  ⟨hle, ha.start, hb.stop⟩

theorem LiesIn.cover (ha : a.LiesIn source) (hb : b.LiesIn source) :
    (a.cover b).LiesIn source where
  ordered := by
    have hordered := ha.ordered
    rw [cover_startByte, cover_endByte]
    omega
  start := by
    show Text.positionAt? source (if b.startByte < a.startByte then b.startByte else a.startByte) =
      some (if b.startByte < a.startByte then b.start else a.start)
    split
    next => exact hb.start
    next => exact ha.start
  stop := by
    show Text.positionAt? source (if a.endByte < b.endByte then b.endByte else a.endByte) =
      some (if a.endByte < b.endByte then b.stop else a.stop)
    split
    next => exact hb.stop
    next => exact ha.stop

end Span

/-! ## Nodes -/

/-- A node **is placed** in a source if its span lies there, and its text is what stands there, with
the blanks collapsed if the language does so. -/
structure Node.IsPlaced (n : Node) (language : Language) (source : List Char) : Prop where
  liesIn : n.span.LiesIn source
  text : ∀ text, n.text = some text → ∃ piece,
    Text.slice? source n.span.startByte n.span.endByte = some piece ∧
      text = if language.collapsesBlanks n.kind then collapseBlanks (String.ofList piece)
        else String.ofList piece

namespace Node.IsPlaced

variable {n : Node} {language : Language} {cv : Converter}

theorem of_text_none {source : List Char} (hspan : n.span.LiesIn source) (htext : n.text = none) :
    n.IsPlaced language source := by
  refine ⟨hspan, fun text h => ?_⟩
  rw [htext] at h
  simp at h

/-- A leaf of the parser is placed. -/
theorem leaf (hdialect : cv.dialect = language.dialect) {node : ConcreteNode}
    (h : node.span.LiesIn cv.source) : (cv.leaf node).IsPlaced language cv.source := by
  refine ⟨h, fun text htext => ?_⟩
  have hfits : (Text.slice? cv.source node.span.startByte node.span.endByte).isSome = true :=
    Option.isSome_iff_exists.2 h.exists_slice?
  obtain ⟨piece, hpiece, hleaf⟩ := Converter.leaf_text hfits
  rw [hleaf, hdialect, Language.leafText_eq] at htext
  exact ⟨piece, hpiece, (Option.some.inj htext).symm⟩

/-- A leaf that is put in is empty, and so is what stands there. -/
theorem empty_leaf (kind : String) {span : Span} {source : List Char} (hspan : span.LiesIn source)
    (hempty : span.endByte = span.startByte) :
    (Node.leaf kind "" span).IsPlaced language source := by
  refine ⟨hspan, fun text htext => ⟨[], ?_, ?_⟩⟩
  · show Text.slice? source span.startByte span.endByte = some []
    rw [hempty]
    exact Text.slice?_self hspan.start
  · rw [← Option.some.inj htext]
    split <;> rfl

/-- Where no blanks are collapsed, the text of a node that is placed is its span. -/
theorem quotes (h : n.IsPlaced language cv.source)
    (hkind : language.collapsesBlanks n.kind = false) :
    cv.Quotes n := by
  intro text htext
  obtain ⟨piece, hpiece, rfl⟩ := h.text text htext
  rw [hkind, if_neg Bool.false_ne_true, String.toList_ofList]
  exact hpiece

theorem of_quotes (hspan : n.span.LiesIn cv.source) (hquotes : cv.Quotes n)
    (hkind : language.collapsesBlanks n.kind = false) : n.IsPlaced language cv.source := by
  refine ⟨hspan, fun text htext => ⟨text.toList, hquotes text htext, ?_⟩⟩
  rw [hkind, if_neg Bool.false_ne_true, String.ofList_toList]

end Node.IsPlaced

/-! ## What is relied on of the parser -/

namespace ConcreteTree

/-- Whether a tree starts with a delimiter, that is with a character of one byte. -/
def startsWithDelimiter (tree : ConcreteTree) (source : List Char) : Bool :=
  (Text.slice source tree.node.span.startByte tree.node.span.endByte).head?.any fun delimiter =>
    delimiter.utf8Size == 1 && delimiter != '\n'

/-- What the grammar gives to a template: substitutions and leaves of text, none of them in a field.
Leaves of text that stand side by side touch. -/
structure HoldsText (cv : Converter) (tree : ConcreteTree) : Prop where
  bare : ∀ c ∈ tree.children, c.node.field = none
  parts : ∀ c ∈ tree.parts, c.node.kind = "template_substitution" ∨
    (c.node.kind = "string_fragment" ∨ c.node.kind = "escape_sequence") ∧ cv.isLeaf c = true
  touch : tree.parts.IsChain fun a b => a.node.kind ≠ "template_substitution" →
    b.node.kind ≠ "template_substitution" → a.node.span.endByte = b.node.span.startByte

instance (cv : Converter) (tree : ConcreteTree) : Decidable (tree.HoldsText cv) :=
  decidable_of_iff ((∀ c ∈ tree.children, c.node.field = none) ∧
      (∀ c ∈ tree.parts, c.node.kind = "template_substitution" ∨
        (c.node.kind = "string_fragment" ∨ c.node.kind = "escape_sequence") ∧
          cv.isLeaf c = true) ∧
      tree.parts.IsChain fun a b => a.node.kind ≠ "template_substitution" →
        b.node.kind ≠ "template_substitution" → a.node.span.endByte = b.node.span.startByte)
    ⟨fun h => ⟨h.1, h.2.1, h.2.2⟩, fun h => ⟨h.bare, h.parts, h.touch⟩⟩

/-- What a parser makes of a source, at one tree. -/
structure IsRegular (cv : Converter) (tree : ConcreteTree) : Prop where
  liesIn : tree.node.span.LiesIn cv.source
  inside : ∀ c ∈ tree.children, tree.node.span.startByte ≤ c.node.span.startByte
  delimited : tree.node.kind = "template_string" ∨ tree.node.kind = "quoted_attribute_value" →
    tree.startsWithDelimiter cv.source = true
  template : tree.node.kind = "template_string" → tree.HoldsText cv

instance (cv : Converter) (tree : ConcreteTree) : Decidable (tree.IsRegular cv) :=
  decidable_of_iff (tree.node.span.LiesIn cv.source ∧
      (∀ c ∈ tree.children, tree.node.span.startByte ≤ c.node.span.startByte) ∧
      (tree.node.kind = "template_string" ∨ tree.node.kind = "quoted_attribute_value" →
        tree.startsWithDelimiter cv.source = true) ∧
      (tree.node.kind = "template_string" → tree.HoldsText cv))
    ⟨fun h => ⟨h.1, h.2.1, h.2.2.1, h.2.2.2⟩,
      fun h => ⟨h.liesIn, h.inside, h.delimited, h.template⟩⟩

end ConcreteTree

/-! ## Nodes that the last step makes -/

/-- The place behind a delimiter. -/
theorem Ecma.liesIn_insideDelimiter {tree : ConcreteTree} {source : List Char}
    (hspan : tree.node.span.LiesIn source) (h : tree.startsWithDelimiter source = true) :
    (Ecma.insideDelimiter tree.node.span).LiesIn source := by
  unfold ConcreteTree.startsWithDelimiter at h
  cases hfirst : (Text.slice source tree.node.span.startByte tree.node.span.endByte).head? with
  | none => simp [hfirst] at h
  | some delimiter =>
      obtain ⟨hsize, hbreak⟩ : delimiter.utf8Size = 1 ∧ delimiter ≠ '\n' := by
        simpa [hfirst] using h
      have hposition := Text.positionAt?_succ hfirst hsize hbreak hspan.start
      exact ⟨Nat.le_refl _, hposition, hposition⟩

/-- A piece of a template is placed if the parts are that it is made of, and it is put in between
places of the source. -/
theorem Ecma.IsPiece.isPlaced {cv : Converter} {language : Language} {start position : Span}
    {parts run : List Node} {piece : Node} (hpiece : IsPiece start parts run position piece)
    (hstart : start.LiesIn cv.source ∧ start.endByte = start.startByte)
    (hspans : ∀ part ∈ parts, part.span.LiesIn cv.source)
    (hparts : ∀ part ∈ parts, isSubstitution part = false →
      Text.slice? cv.source part.span.startByte part.span.endByte =
        some (part.text.getD "").toList)
    (htouch : parts.IsChain Touch) : piece.IsPlaced language cv.source := by
  rcases hpiece.empty_or_covers (P := fun text span => span.LiesIn cv.source ∧
      Text.slice? cv.source span.startByte span.endByte = some text.toList)
      (fun ha hb hmeet => by
        obtain ⟨hslice, hend⟩ := Text.slice?_cover ha.2 hb.2 hmeet
        exact ⟨⟨ha.1.cover hb.1, hslice⟩, hend⟩)
      (fun part hpart hkind => ⟨hspans part hpart, hparts part hpart hkind⟩) htouch with
    rfl | ⟨text, span, rfl, hspan, hslice⟩
  · -- an empty piece is put in behind the delimiter or behind a substitution
    rcases hpiece.isPlace with rfl | ⟨part, hpart, rfl⟩
    · exact .empty_leaf _ hstart.1 hstart.2
    · exact .empty_leaf _ (hspans part hpart).atEnd rfl
  · refine .of_quotes hspan (fun shown hshown => ?_) (by cases language <;> rfl)
    rw [← Option.some.inj hshown]
    exact hslice

/-- Values that are joined lie in the source if each of them does. -/
theorem Css.Joined.liesIn {source : List Char} {values : List Node}
    (hvalues : ∀ v ∈ values, v.span.LiesIn source) {c : Node} (h : Joined values c) :
    c.span.LiesIn source := by
  induction h with
  | value hvalue => exact hvalues _ hvalue
  | join _ hvalue hjoined ih =>
      obtain ⟨left, right, -, -, -, rfl⟩ := joined?_eq_some hjoined
      exact ih.cover (hvalues _ hvalue)

namespace Language

variable {language : Language} {cv : Converter}

/-- A node that is cut off ends in the source, and not before its start: no child of it starts
before it does. -/
theorem liesIn_of_lastStep (hdialect : cv.dialect = language.dialect) {tree : ConcreteTree}
    (hinside : ∀ c ∈ tree.children, tree.node.span.startByte ≤ c.node.span.startByte)
    {depth : Nat} {n : Node}
    (hattach : cv.attachAll depth (.branch tree.node.kind tree.node.span) tree.children = .ok n)
    {source : List Char} (hn : n.span.LiesIn source)
    (hchildren : ∀ c ∈ n.children, c.span.LiesIn source) {kind : String} {step : Node → Node}
    (hstep : LastStep language kind step) : (step n).span.LiesIn source := by
  rcases hstep.span_cases n with heq | ⟨last, hlast, heq⟩
  · rw [heq]
    exact hn
  · rcases Converter.mem_offspring_of_attachAll hattach (Node.mem_offspring_of_mem_children hlast)
      with hno | ⟨t, ht, -, hconvert⟩
    · exact absurd hno List.not_mem_nil
    · have hspan : n.span = tree.node.span := (Converter.head_of_attachAll hattach).2.2
      have hle : n.span.startByte ≤ last.span.endByte := by
        calc n.span.startByte = tree.node.span.startByte := by rw [hspan]
          _ ≤ t.node.span.startByte := hinside t ht
          _ = last.span.startByte := (head_of_convertAt hdialect hconvert).2.1.symm
          _ ≤ last.span.endByte := (hchildren last hlast).ordered
      rw [heq]
      exact hn.upTo (hchildren last hlast) hle

/-- All nodes that the last step makes of a regular tree are placed if the nodes are that it is
taken on. -/
theorem finishKeeps_isPlaced (hdialect : cv.dialect = language.dialect) {tree : ConcreteTree}
    (htree : tree.IsRegular cv) :
    cv.FinishKeeps (fun n => n.IsPlaced language cv.source) tree := by
  refine finishKeeps_of_lastStep hdialect fun step hstep depth n hattach hn => ?_
  have hbelow : ∀ c ∈ n.children, c.IsPlaced language cv.source := fun c hc =>
    hn c (Node.mem_walk_of_mem_offspring (Node.mem_offspring_of_mem_children hc)
      (Node.mem_walk_self c))
  obtain ⟨-, htext, hspan⟩ := Converter.head_of_attachAll hattach
  have hspan : n.span = tree.node.span := hspan
  refine ⟨.of_text_none ?_ ((hstep.head n).2.1.trans htext), fun c hc => ?_⟩
  · exact liesIn_of_lastStep hdialect htree.inside hattach (hn n (Node.mem_walk_self n)).liesIn
      (fun c hc => (hbelow c hc).liesIn) hstep
  -- what is left are the nodes right below the finished one, kind by kind
  generalize hkind : tree.node.kind = kind at hstep
  cases hstep with
  | nothing => exact Or.inl hc
  | template hecma =>
      have htemplate := htree.template hkind
      obtain ⟨hparts, htouch⟩ := parts_of_template hdialect hecma htemplate.bare
        (fun part hpart hne => ((htemplate.parts part hpart).resolve_left hne).2)
        htemplate.touch hattach
      rcases Ecma.mem_offspring_mergeFragments hc with hold | ⟨run, place, hpiece⟩
      · exact Or.inl hold
      · rw [hspan] at hpiece
        refine Or.inr ⟨hpiece.fields_eq, hpiece.isPlaced
          ⟨Ecma.liesIn_insideDelimiter htree.liesIn (htree.delimited (Or.inl hkind)), rfl⟩
          (fun part hpart => (hbelow part hpart).liesIn) (fun p hp hsubstitution => ?_) htouch⟩
        obtain ⟨part, hpart, hne, rfl⟩ := hparts p hp hsubstitution
        -- the blanks of pieces and of escapes are not collapsed in any language
        have hverbatim : language.collapsesBlanks part.node.kind = false := by
          rcases ((htemplate.parts part hpart).resolve_left hne).1 with heq | heq
          · rw [heq]
            cases language <;> rfl
          · rw [heq]
            cases language <;> rfl
        exact (hbelow _ hp).quotes hverbatim _ rfl
  | declaration =>
      rcases Css.mem_offspring_joinAdjacentNumbers hc with hold | hjoined
      · exact Or.inl hold
      · rcases hjoined.mem_or_bare with hold | hbare
        · exact Or.inl (Node.mem_offspring_of_mem_children hold)
        · refine Or.inr ⟨hbare, .of_quotes (hjoined.liesIn fun v hv => (hbelow v hv).liesIn)
            (hjoined.quotes fun v hv => (hbelow v hv).quotes rfl) rfl⟩
  | string =>
      rcases Python.mem_offspring_insertEmptyContent hc with hold | ⟨first, hfirst, rfl⟩
      · exact Or.inl hold
      · exact Or.inr ⟨rfl, .empty_leaf _ (hbelow first hfirst).liesIn.atEnd rfl⟩
  | element =>
      rw [Node.offspring, Html.fields_trimImplicitClose] at hc
      exact Or.inl hc
  | quotedValue =>
      rcases Html.mem_offspring_fillQuotedValue hc with hold | rfl
      · exact Or.inl hold
      · have hdelimited := htree.delimited (Or.inr hkind)
        rw [hspan]
        exact Or.inr ⟨rfl, .empty_leaf _ (Ecma.liesIn_insideDelimiter htree.liesIn hdelimited) rfl⟩

/-! ## Parsed files -/

variable {parsers : ParserSet} {source : String} {tree : ConcreteTree}

/-- **Every node of a parsed file stands where it says**, and every leaf shows what stands there,
whatever the last steps put in, join or cut off. -/
theorem isPlaced_of_parse (htree : parsers.tree language source = some tree)
    (hregular : ∀ t ∈ tree.walk, t.IsRegular (language.converter parsers source)) {root : Node}
    (h : language.parse parsers source = .ok root) :
    ∀ m ∈ root.walk, m.IsPlaced language source.toList ∧
      m.span.endByte ≤ Text.byteLength source.toList := by
  obtain ⟨parsed, hparsed, -, hconvert⟩ := convertAt_of_parse h
  obtain rfl : tree = parsed := Option.some.inj (htree.symm.trans hparsed)
  have hleaf : ∀ t ∈ tree.walk, Node.IsPlaced
      ((language.converter parsers source).leaf t.node) language source.toList :=
    fun t ht => .leaf rfl (hregular t ht).liesIn
  have hplaced := Converter.forall_of_convertAt
    (Q := fun n => n.IsPlaced language source.toList) (fun _ _ _ hn => ⟨hn.liesIn, hn.text⟩)
    hconvert hleaf (fun t ht => .of_text_none (hregular t ht).liesIn rfl)
    (fun t ht => finishKeeps_isPlaced rfl (hregular t ht))
  exact fun m hm => ⟨hplaced m hm, (hplaced m hm).liesIn.endByte_le⟩

/-- A template of two lines, in which a piece of text, an escape and a substitution follow one
another. -/
def brokenTemplate : String := "`é\n\\t$\x7bb\x7d`"

/-- Its concrete tree. -/
def brokenTree : ConcreteTree :=
  .mk { kind := "template_string", span := ⟨0, 11, ⟨0, 0⟩, ⟨1, 7⟩⟩ }
    [.mk { kind := "`", span := lineSpan 0 1, isNamed := false } [],
      .mk { kind := "string_fragment", span := ⟨1, 4, ⟨0, 1⟩, ⟨1, 0⟩⟩ } [],
      .mk { kind := "escape_sequence", span := ⟨4, 6, ⟨1, 0⟩, ⟨1, 2⟩⟩ } [],
      .mk { kind := "template_substitution", span := ⟨6, 10, ⟨1, 2⟩, ⟨1, 6⟩⟩ }
        [.mk { kind := "identifier", span := ⟨8, 9, ⟨1, 4⟩, ⟨1, 5⟩⟩ } []],
      .mk { kind := "`", span := ⟨10, 11, ⟨1, 6⟩, ⟨1, 7⟩⟩, isNamed := false } []]

/-- A parser that finds this tree. -/
def brokenParser : ParserSet := ⟨fun _ _ => some brokenTree, fun _ => []⟩

/-- The template, converted. -/
def brokenNode : Node :=
  ((javaScript.converter brokenParser brokenTemplate).convertAt 0 brokenTree).toOption.getD default

/-- The piece before the substitution covers both lines, and the one behind it is empty. -/
theorem isPlaced_of_parse_broken :
    brokenParser.tree javaScript brokenTemplate = some brokenTree ∧
      (∀ t ∈ brokenTree.walk, t.IsRegular (javaScript.converter brokenParser brokenTemplate)) ∧
      javaScript.parse brokenParser brokenTemplate = .ok brokenNode ∧
      brokenNode.children.map (fun c => (c.text, c.span)) =
        [(some "é\n\\t", ⟨1, 6, ⟨0, 1⟩, ⟨1, 2⟩⟩), (none, ⟨6, 10, ⟨1, 2⟩, ⟨1, 6⟩⟩),
          (some "", ⟨10, 10, ⟨1, 6⟩, ⟨1, 6⟩⟩)] ∧
      ∀ m ∈ brokenNode.walk, m.IsPlaced javaScript brokenTemplate.toList := by
  have hregular : ∀ t ∈ brokenTree.walk,
      t.IsRegular (javaScript.converter brokenParser brokenTemplate) := by decide +kernel
  have hclean : brokenTree.firstFailure? = none := rfl
  have hparse : javaScript.parse brokenParser brokenTemplate = .ok brokenNode := by
    rw [parse_eq rfl, hclean]
    exact Converter.convertAt_eq_ok (by decide +kernel)
  exact ⟨rfl, hregular, hparse, by decide +kernel, fun m hm =>
    (isPlaced_of_parse rfl hregular hparse m hm).1⟩

end Language

end CodeSearch
