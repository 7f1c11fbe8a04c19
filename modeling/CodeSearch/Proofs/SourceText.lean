import CodeSearch.Proofs.Finishing
import CodeSearch.Proofs.Questions

/-!
# The texts of a file's tree

What is compared with a query is not the file but a tree made of it. The texts of the tree are
taken from the source: each leaf has the text of its span, with its blanks collapsed where a
dialect says so. A few dialects change a node once its children are there, putting in empty
leaves or joining leaves that stand next to each other, and the texts stay parts of the source. No
node gets two fields of one name.

Of the parser no more is used than that spans fit the source and that the parts of a template
follow one another without a gap.
-/

set_option autoImplicit false

namespace CodeSearch

/-! ## Slices of a text -/

namespace Text

theorem le_of_slice? {cs piece : List Char} {start stop : Nat}
    (h : slice? cs start stop = some piece) : start ≤ stop := by
  obtain ⟨-, -, -, -, hstop⟩ := slice?_eq_some h
  omega

/-- A slice is a part of the text. -/
theorem infix_of_slice? {cs piece : List Char} {start stop : Nat}
    (h : slice? cs start stop = some piece) : piece <:+: cs := by
  obtain ⟨before, after, rfl, -, -⟩ := slice?_eq_some h
  exact ⟨before, after, rfl⟩

/-- Two slices, one right after the other, make up a slice. -/
theorem slice?_join {cs left right : List Char} {start middle stop : Nat}
    (hleft : slice? cs start middle = some left) (hright : slice? cs middle stop = some right) :
    slice? cs start stop = some (left ++ right) := by
  obtain ⟨before, after, hcs, hbefore, hmiddle⟩ := slice?_eq_some hleft
  obtain ⟨before', after', hcs', hbefore', hstop⟩ := slice?_eq_some hright
  -- there is only one way to cut the text at the place where the two meet
  have hcut := cutAt?_append (before ++ left) after
  have hcut' := cutAt?_append before' (right ++ after')
  rw [byteLength_append, hbefore, hmiddle, ← hcs] at hcut
  rw [hbefore', ← List.append_assoc, ← hcs', hcut] at hcut'
  obtain ⟨rfl, rfl⟩ := Prod.mk.inj (Option.some.inj hcut')
  have hslice := slice?_append before (left ++ right) after'
  rw [byteLength_append, hbefore, ← Nat.add_assoc, hmiddle, hstop] at hslice
  rw [hcs, ← hslice]
  simp [List.append_assoc]

/-- Two spans that touch: what they show makes up what the span that covers both shows. -/
theorem slice?_cover {cs : List Char} {left right : String} {a b : Span}
    (hleft : slice? cs a.startByte a.endByte = some left.toList)
    (hright : slice? cs b.startByte b.endByte = some right.toList)
    (hmeet : a.endByte = b.startByte) :
    slice? cs (a.cover b).startByte (a.cover b).endByte = some (left ++ right).toList ∧
      (a.cover b).endByte = b.endByte := by
  have hle := le_of_slice? hleft
  have hle' := le_of_slice? hright
  rw [hmeet] at hleft hle
  rw [Span.cover_startByte, Span.cover_endByte, hmeet, Nat.min_eq_left hle, Nat.max_eq_right hle',
    String.toList_append]
  exact ⟨slice?_join hleft hright, rfl⟩

end Text

/-! ## What a parser makes of a source -/

/-- A dialect keeps the source of leaves of a **verbatim** kind as it is. -/
def Dialect.IsVerbatim (d : Dialect) (kind : String) : Prop :=
  ∀ source, d.leafText kind source = source

/-- All spans of a concrete tree fit the source. -/
def ConcreteTree.Fits (tree : ConcreteTree) (source : List Char) : Prop :=
  ∀ t ∈ tree.walk, (Text.slice? source t.node.span.startByte t.node.span.endByte).isSome = true

theorem ConcreteTree.Fits.of_mem_walk {t tree : ConcreteTree} {source : List Char}
    (h : tree.Fits source) (ht : t ∈ tree.walk) : t.Fits source :=
  fun s hs => h s (ConcreteTree.mem_walk_trans hs ht)

/-- The children of a concrete tree that become nodes. -/
def ConcreteTree.parts (tree : ConcreteTree) : List ConcreteTree :=
  tree.children.filter fun c => c.node.isNamed && !c.node.isExtra

/-- What a parser makes of a template: its parts stand in no field and follow one another
without a gap, and all but the substitutions are leaves of verbatim kinds. -/
structure ConcreteTree.IsTemplate (cv : Converter) (tree : ConcreteTree) : Prop where
  bare : ∀ c ∈ tree.children, c.node.field = none
  leaves : ∀ c ∈ tree.parts, c.node.kind ≠ "template_substitution" →
    cv.isLeaf c = true ∧ cv.dialect.IsVerbatim c.node.kind
  seamless : tree.parts.IsChain fun a b => a.node.span.endByte = b.node.span.startByte

/-! ## Copies of the source -/

namespace Converter

variable {cv : Converter} {Q : Node → Prop}

/-- The text of a node is what the dialect makes of its span, or it was put in and is empty. -/
def Copies (cv : Converter) (n : Node) : Prop :=
  ∀ text, n.text = some text → text = "" ∨ ∃ piece,
    Text.slice? cv.source n.span.startByte n.span.endByte = some piece ∧
      text = cv.dialect.leafText n.kind (String.ofList piece)

/-- The text of a node is its span. -/
def Quotes (cv : Converter) (n : Node) : Prop :=
  ∀ text, n.text = some text →
    Text.slice? cv.source n.span.startByte n.span.endByte = some text.toList

theorem leaf_text {node : ConcreteNode}
    (hfits : (Text.slice? cv.source node.span.startByte node.span.endByte).isSome = true) :
    ∃ piece, Text.slice? cv.source node.span.startByte node.span.endByte = some piece ∧
      (cv.leaf node).text = some (cv.dialect.leafText node.kind (String.ofList piece)) := by
  obtain ⟨piece, hpiece⟩ := Option.isSome_iff_exists.1 hfits
  refine ⟨piece, hpiece, ?_⟩
  rw [leaf, Text.slice, hpiece]
  rfl

theorem leaf_copies {node : ConcreteNode}
    (hfits : (Text.slice? cv.source node.span.startByte node.span.endByte).isSome = true) :
    cv.Copies (cv.leaf node) := by
  obtain ⟨piece, hpiece, htext⟩ := leaf_text hfits
  intro text h
  rw [htext] at h
  exact Or.inr ⟨piece, hpiece, (Option.some.inj h).symm⟩

theorem leaf_quotes {node : ConcreteNode} (hverbatim : cv.dialect.IsVerbatim node.kind)
    (hfits : (Text.slice? cv.source node.span.startByte node.span.endByte).isSome = true) :
    cv.Quotes (cv.leaf node) := by
  obtain ⟨piece, hpiece, htext⟩ := leaf_text hfits
  intro text h
  rw [htext, hverbatim] at h
  rw [← Option.some.inj h, String.toList_ofList]
  exact hpiece

theorem Quotes.copies {n : Node} (h : cv.Quotes n) (hverbatim : cv.dialect.IsVerbatim n.kind) :
    cv.Copies n := by
  intro text htext
  refine Or.inr ⟨text.toList, h text htext, ?_⟩
  rw [hverbatim, String.ofList_toList]

theorem copies_of_text_none {n : Node} (h : n.text = none) : cv.Copies n := by
  intro text htext
  rw [h] at htext
  simp at htext

theorem leaf_copies_empty (kind : String) (span : Span) : cv.Copies (.leaf kind "" span) := by
  intro text htext
  exact Or.inl (Option.some.inj htext).symm

end Converter

/-! ## Templates -/

namespace Ecma

variable {cv : Converter}

/-- A piece of a template is a slice of the source if the parts that it is made of are, one after
another, and else it is empty. -/
theorem IsPiece.copies (hverbatim : cv.dialect.IsVerbatim "string_fragment") {start position : Span}
    {parts run : List Node} {piece : Node} (hpiece : IsPiece start parts run position piece)
    (hparts : ∀ part ∈ parts, isSubstitution part = false →
      Text.slice? cv.source part.span.startByte part.span.endByte =
        some (part.text.getD "").toList)
    (htouch : parts.IsChain Touch) : cv.Copies piece := by
  rcases hpiece.empty_or_covers (P := fun text span =>
      Text.slice? cv.source span.startByte span.endByte = some text.toList)
      Text.slice?_cover hparts htouch with rfl | ⟨text, span, rfl, hslice⟩
  · exact Converter.leaf_copies_empty _ _
  · refine Converter.Quotes.copies (fun shown hshown => ?_) hverbatim
    rw [← Option.some.inj hshown]
    exact hslice

end Ecma

namespace Language

variable {language : Language} {cv : Converter}

theorem heads_of_converted (hdialect : cv.dialect = language.dialect) (hlanguage : language ≠ .html)
    {depth : Nat} {trees : List ConcreteTree} {converted : List Node}
    (h : List.Forall₂ (fun c part => cv.convertAt depth c = .ok part) trees converted) :
    converted.map (fun n => (n.kind, n.span)) = trees.map fun c => (c.node.kind, c.node.span) := by
  induction h with
  | nil => rfl
  | cons hhead _ ih =>
      rw [List.map_cons, List.map_cons, ih, (head_of_convertAt hdialect hhead).1,
        span_of_convertAt hdialect hlanguage hhead]

/-- The parts of a template before its last step: those that are no substitutions are leaves of the
parser, and they touch if those did. -/
theorem parts_of_template (hdialect : cv.dialect = language.dialect)
    (hlanguage : language.isEcma = true) {tree : ConcreteTree}
    (hbare : ∀ c ∈ tree.children, c.node.field = none)
    (hleaves : ∀ c ∈ tree.parts, c.node.kind ≠ "template_substitution" → cv.isLeaf c = true)
    (htouch : tree.parts.IsChain fun a b => a.node.kind ≠ "template_substitution" →
      b.node.kind ≠ "template_substitution" → a.node.span.endByte = b.node.span.startByte)
    {depth : Nat} {n : Node}
    (h : cv.attachAll depth (.branch tree.node.kind tree.node.span) tree.children = .ok n) :
    (∀ p ∈ n.children, Ecma.isSubstitution p = false →
      ∃ c ∈ tree.parts, c.node.kind ≠ "template_substitution" ∧ p = cv.leaf c.node) ∧
      n.children.IsChain Ecma.Touch := by
  constructor
  · intro p hp hkind
    rcases Converter.mem_offspring_of_attachAll h (Node.mem_offspring_of_mem_children hp) with
      hno | ⟨c, hc, hpart, hconvert⟩
    · exact absurd hno List.not_mem_nil
    · have hmem : c ∈ tree.parts := List.mem_filter.2 ⟨hc, hpart⟩
      rw [Ecma.isSubstitution, (head_of_convertAt hdialect hconvert).1] at hkind
      have hne := beq_eq_false_iff_ne.1 hkind
      -- such a part is a leaf of the parser, and a leaf is converted without its children
      exact ⟨c, hmem, hne, Converter.eq_leaf_of_convertAt (hleaves c hmem hne) hconvert⟩
  · obtain ⟨converted, hchildren, hconverted⟩ := Converter.children_of_attachAll
      (hdialect ▸ childrenField_not_modifier language) h hbare (Or.inr ⟨rfl, rfl⟩)
    rw [List.nil_append] at hchildren
    -- conversion keeps the kinds and the spans, hence which parts touch
    have hheads : converted.map (fun n => (n.kind, n.span)) =
        tree.parts.map fun c => (c.node.kind, c.node.span) :=
      heads_of_converted hdialect (ne_of_isEcma hlanguage).1 hconverted
    have hmapped := (List.isChain_map (R := fun a b : String × Span =>
      a.1 ≠ "template_substitution" → b.1 ≠ "template_substitution" → a.2.endByte = b.2.startByte)
      fun c : ConcreteTree => (c.node.kind, c.node.span)).2 htouch
    rw [← hheads] at hmapped
    rw [hchildren]
    refine ((List.isChain_map fun n : Node => (n.kind, n.span)).1 hmapped).imp ?_
    intro a b hmeet ha hb
    exact hmeet (beq_eq_false_iff_ne.1 ha) (beq_eq_false_iff_ne.1 hb)

theorem verbatim_string_fragment (language : Language) :
    language.dialect.IsVerbatim "string_fragment" := by
  cases language <;> exact fun _ => rfl

/-- In a finished node, a template's joined pieces of text are slices of the source, and what was
put in elsewhere is empty. -/
theorem finishKeeps_copies (hdialect : cv.dialect = language.dialect) (hlanguage : language ≠ .css)
    {tree : ConcreteTree} (hfits : tree.Fits cv.source)
    (htemplate : tree.node.kind = "template_string" → tree.IsTemplate cv) :
    cv.FinishKeeps cv.Copies tree := by
  refine finishKeeps_of_lastStep hdialect fun step hstep depth n hattach _ => ⟨?_, fun c hc => ?_⟩
  · exact Converter.copies_of_text_none
      ((hstep.head n).2.1.trans (Converter.head_of_attachAll hattach).2.1)
  generalize hkind : tree.node.kind = kind at hstep
  cases hstep with
  | nothing => exact Or.inl hc
  | template hecma =>
      have htemplate := htemplate hkind
      have hverbatim := verbatim_string_fragment language
      rw [← hdialect] at hverbatim
      obtain ⟨hparts, htouch⟩ := parts_of_template hdialect hecma htemplate.bare
        (fun part hpart hne => (htemplate.leaves part hpart hne).1)
        (htemplate.seamless.imp fun _ _ hmeet _ _ => hmeet) hattach
      rcases Ecma.mem_offspring_mergeFragments hc with hold | ⟨run, place, hpiece⟩
      · exact Or.inl hold
      · refine Or.inr ⟨hpiece.fields_eq, hpiece.copies hverbatim (fun p hp hkind => ?_) htouch⟩
        obtain ⟨part, hpart, hne, rfl⟩ := hparts p hp hkind
        have hfit := hfits _ (ConcreteTree.mem_walk_of_mem_children (List.mem_filter.1 hpart).1)
        exact Converter.leaf_quotes (htemplate.leaves part hpart hne).2 hfit _ rfl
  | declaration => exact absurd rfl hlanguage
  | string =>
      rcases Python.mem_offspring_insertEmptyContent hc with hold | ⟨first, -, rfl⟩
      · exact Or.inl hold
      · exact Or.inr ⟨rfl, Converter.leaf_copies_empty _ _⟩
  | element =>
      rw [Node.offspring, Html.fields_trimImplicitClose] at hc
      exact Or.inl hc
  | quotedValue =>
      rcases Html.mem_offspring_fillQuotedValue hc with hold | rfl
      · exact Or.inl hold
      · exact Or.inr ⟨rfl, Converter.leaf_copies_empty _ _⟩

end Language

/-! ## Numbers and units -/

namespace Css

variable {cv : Converter}

/-- Leaves that are joined touch, so the source of all of them is a slice. -/
theorem Joined.quotes {values : List Node} (hvalues : ∀ v ∈ values, cv.Quotes v) {c : Node}
    (h : Joined values c) : cv.Quotes c := by
  induction h with
  | value hvalue => exact hvalues _ hvalue
  | join _ hvalue hjoined ih =>
      obtain ⟨left, right, hleft, hright, hcontinues, rfl⟩ := joined?_eq_some hjoined
      simp only [continues, Bool.and_eq_true, beq_iff_eq] at hcontinues
      intro text htext
      rw [← Option.some.inj htext]
      exact (Text.slice?_cover (ih left hleft) (hvalues _ hvalue right hright) hcontinues.2).1

/-- In a finished node, a number joined with its unit is a slice of the source. -/
theorem finishKeeps_quotes (hdialect : cv.dialect = Language.css.dialect) (tree : ConcreteTree) :
    cv.FinishKeeps cv.Quotes tree := by
  refine Language.finishKeeps_of_lastStep hdialect fun step hstep _ n _ hn =>
    ⟨fun text htext => ?_, fun c hc => ?_⟩
  · rw [(hstep.head n).2.1] at htext
    rw [hstep.span (by decide)]
    exact hn n (Node.mem_walk_self n) text htext
  generalize tree.node.kind = kind at hstep
  cases hstep with
  | nothing => exact Or.inl hc
  | template hecma => exact absurd hecma (by decide)
  | declaration =>
      rcases mem_offspring_joinAdjacentNumbers hc with hold | hjoined
      · exact Or.inl hold
      · have hvalues : ∀ v ∈ n.children, cv.Quotes v := fun v hv =>
          hn v (Node.mem_walk_of_mem_offspring (Node.mem_offspring_of_mem_children hv)
            (Node.mem_walk_self v))
        rcases hjoined.mem_or_bare with hold | hbare
        · exact Or.inl (Node.mem_offspring_of_mem_children hold)
        · exact Or.inr ⟨hbare, hjoined.quotes hvalues⟩

end Css

/-! ## Parsed files -/

/-- The conversion of trees of a language. -/
def Language.converter (language : Language) (parsers : ParserSet) (source : String) : Converter :=
  ⟨language.dialect, parsers.types language, source.toList⟩

/-- What is relied on of the parser of a language: the spans of its trees fit the text, and a
template without failures has the parts that the language's grammar gives it. -/
structure ParserSet.Faithful (parsers : ParserSet) (language : Language) : Prop where
  fits : ∀ source tree, parsers.tree language source = some tree → tree.Fits source.toList
  templates : ∀ source tree, parsers.tree language source = some tree →
    tree.firstFailure? = none → ∀ t ∈ tree.walk, t.node.kind = "template_string" →
      t.IsTemplate (language.converter parsers source)

namespace Language

variable {parsers : ParserSet} {language : Language} {source : String}

/-- What is made of a source is told by its concrete tree. -/
theorem parse_eq {tree : ConcreteTree} (htree : parsers.tree language source = some tree) :
    language.parse parsers source = match tree.firstFailure? with
      | some failure => .error failure
      | none => (language.converter parsers source).convertAt 0 tree := by
  rw [parse, htree]
  exact Converter.convert_eq _ tree

/-- A parsed file is a converted tree without failures. -/
theorem convertAt_of_parse {root : Node} (h : language.parse parsers source = .ok root) :
    ∃ tree, parsers.tree language source = some tree ∧ tree.firstFailure? = none ∧
      (language.converter parsers source).convertAt 0 tree = .ok root := by
  cases htree : parsers.tree language source with
  | none => simp [parse, htree] at h
  | some tree =>
      rw [parse_eq htree] at h
      split at h
      next => simp at h
      next hfailure => exact ⟨tree, rfl, hfailure, h⟩

/-- **In a converted tree no node has two fields of one name.** -/
theorem namesDistinct_of_convertAt {tree : ConcreteTree} {depth : Nat} {n : Node}
    (h : (language.converter parsers source).convertAt depth tree = .ok n) : n.NamesDistinct := by
  -- setting a field replaces the one of that name, and so does the last step
  have hkeeps : ∀ t, (language.converter parsers source).FinishKeeps Node.HasDistinctFields t := by
    intro t
    refine finishKeeps_of_lastStep rfl fun step hstep _ n _ hn => ⟨?_, fun c hc => ?_⟩
    · exact hstep.hasDistinctFields (hn n (Node.mem_walk_self n))
    · exact (hstep.mem_offspring hc).imp_right fun hbare =>
        ⟨hbare, (Node.HasDistinctFields.of_bare hbare).2⟩
  exact Converter.forall_of_convertAt (Q := Node.HasDistinctFields)
    (fun _ name f hn => hn.setField name f) h (fun _ _ => List.nodup_nil)
    (fun _ _ => List.nodup_nil) fun t _ => hkeeps t

/-- In a parsed tree no node has two fields of one name. -/
theorem namesDistinct_of_parse {root : Node} (h : language.parse parsers source = .ok root) :
    root.NamesDistinct := by
  obtain ⟨tree, -, -, hconvert⟩ := convertAt_of_parse h
  exact namesDistinct_of_convertAt hconvert

/-- All texts of a parsed file are copied from its source. -/
theorem copies_of_parse (hparsers : parsers.Faithful language) {root : Node}
    (h : language.parse parsers source = .ok root) :
    ∀ m ∈ root.walk, (language.converter parsers source).Copies m := by
  obtain ⟨tree, htree, hfailure, hconvert⟩ := convertAt_of_parse h
  have hfits := hparsers.fits source tree htree
  have hbelow : ∀ Q : Node → Prop, (∀ n name f, Q n → Q (Node.setField n name f)) →
      (∀ kind span, Q (.branch kind span)) →
      (∀ t ∈ tree.walk, Q ((language.converter parsers source).leaf t.node)) →
      (∀ t ∈ tree.walk, (language.converter parsers source).FinishKeeps Q t) →
      ∀ m ∈ root.walk, Q m := fun Q hset hbranch hleaf hfinish =>
    Converter.forall_of_convertAt hset hconvert hleaf (fun t _ => hbranch _ _) hfinish
  have hcopies : (∀ t ∈ tree.walk, (language.converter parsers source).FinishKeeps
      (language.converter parsers source).Copies t) →
        ∀ m ∈ root.walk, (language.converter parsers source).Copies m :=
    hbelow _ (fun _ _ _ hn => hn) (fun _ _ => Converter.copies_of_text_none rfl)
      fun t ht => Converter.leaf_copies (hfits t ht)
  have hplain : language ≠ .css → ∀ m ∈ root.walk,
      (language.converter parsers source).Copies m := by
    intro hlanguage
    refine hcopies fun t ht => ?_
    exact finishKeeps_copies rfl hlanguage (hfits.of_mem_walk ht)
      (hparsers.templates source tree htree hfailure t ht)
  by_cases hlanguage : language = .css
  · subst hlanguage
    -- a value of CSS may be joined again, for which its text has to be its span exactly
    have hquotes := hbelow (css.converter parsers source).Quotes (fun _ _ _ hn => hn)
      (fun _ _ _ htext => by simp [Node.branch] at htext)
      (fun t ht => Converter.leaf_quotes (fun _ => rfl) (hfits t ht))
      (fun t _ => Css.finishKeeps_quotes rfl t)
    exact fun m hm => (hquotes m hm).copies fun _ => rfl
  · exact hplain hlanguage

/-- Whether the blanks in leaves of a kind are collapsed. -/
def collapsesBlanks : Language → String → Bool
  | html, kind => kind == "text"
  | language, kind => language.isEcma && kind == "jsx_text"

theorem leafText_eq (language : Language) (kind source : String) :
    language.dialect.leafText kind source =
      if language.collapsesBlanks kind then collapseBlanks source else source := by
  have hcollapsed : ∀ other, (if kind = other then collapseBlanks source else source) =
      if (kind == other) = true then collapseBlanks source else source := by
    intro other
    simp only [beq_iff_eq]
  cases language with
  | javaScript => exact hcollapsed _
  | typeScript => exact hcollapsed _
  | tsx => exact hcollapsed _
  | html => exact hcollapsed _
  | python => rfl
  | cSharp => rfl
  | css => rfl
  | rust => rfl
  | lua => rfl

/-- A dialect keeps the source of a leaf as it is or collapses its blanks. -/
theorem isVerbatim_or_collapses (language : Language) (kind : String) :
    language.dialect.IsVerbatim kind ∨
      ∀ source, language.dialect.leafText kind source = collapseBlanks source := by
  by_cases hkind : language.collapsesBlanks kind = true
  · exact Or.inr fun source => by rw [leafText_eq, if_pos hkind]
  · exact Or.inl fun source => by rw [leafText_eq, if_neg hkind]

/-- **The source contains whatever the tree of a parsed file shows.** -/
theorem infix_of_shows (hparsers : parsers.Faithful language) {root : Node}
    (h : language.parse parsers source = .ok root) {piece : List Char}
    (hshows : root.Shows language.dialect.IsVerbatim piece) : piece <:+: source.toList := by
  rcases hshows with rfl | ⟨m, hm, text, htext, hpart, hpiece⟩
  · exact List.nil_infix
  · rcases copies_of_parse hparsers h m hm text htext with rfl | ⟨slice, hslice, rfl⟩
    · rw [List.infix_nil.1 hpart]
      exact List.nil_infix
    · have hsource : slice <:+: source.toList := Text.infix_of_slice? hslice
      have hverbatim : language.dialect.IsVerbatim m.kind → piece <:+: slice := by
        intro hverbatim
        rw [converter, hverbatim, String.toList_ofList] at hpart
        exact hpart
      -- where blanks are collapsed, only what has none is in the source as it is in the text
      rcases hpiece with hkind | hunbroken
      · exact (hverbatim hkind).trans hsource
      · rcases isVerbatim_or_collapses language m.kind with hkind | hcollapses
        · exact (hverbatim hkind).trans hsource
        · rw [converter, hcollapses, collapseBlanks, String.toList_ofList,
            String.toList_ofList] at hpart
          exact (Text.infix_of_collapse hunbroken hpart).trans hsource

end Language

end CodeSearch
