import CodeSearch.Language.Ecma
import CodeSearch.Proofs.Conversion
import Mathlib.Data.List.Chain

/-!
# Templates

The substitutions of a template part the rest into **runs** of pieces of text, which may be empty.
Normalising the template makes one piece of each run, so that pieces and substitutions alternate,
and a piece comes first and last.

One pass does this, with the run that it is in the middle of joined and waiting. So what is said of
a whole template is shown for the parts that are left, with the text that waits before them.
`Ecma.mergeFragments_normalises` says what the pass gives, and that a second one changes nothing.
-/

set_option autoImplicit false

namespace CodeSearch.Ecma

/-! ## Runs of pieces -/

/-- Whether a part of a template is a substitution. -/
def isSubstitution (part : Node) : Bool := part.kind == "template_substitution"

/-- The text of a run. -/
def runText (run : List Node) : String := String.join (run.map fun part => part.text.getD "")

/-- The text that waits for what comes after it. -/
def waitingText (pending : PendingText) : String := (pending.map Prod.fst).getD ""

/-- A list in which pieces of text and substitutions alternate, with a piece first and last. -/
inductive Alternates : List Node → Prop
  | last (text : String) (span : Span) : Alternates [.leaf "string_fragment" text span]
  | more (text : String) (span : Span) {substitution : Node} {rest : List Node}
      (hsubstitution : isSubstitution substitution = true) (hrest : Alternates rest) :
      Alternates (.leaf "string_fragment" text span :: substitution :: rest)

/-- The parts of a template and what they are **normalised** to: pieces and substitutions alternate,
the substitutions are those of the template in their order, and the pieces have the texts of the
runs, one after another. -/
structure Normalises (parts merged : List Node) : Prop where
  alternates : Alternates merged
  substitutions : merged.filter isSubstitution = parts.filter isSubstitution
  texts : (merged.filter fun part => !isSubstitution part).map Node.text =
    (parts.splitOnP isSubstitution).map fun run => some (runText run)

@[simp] theorem isSubstitution_leaf (text : String) (span : Span) :
    isSubstitution (.leaf "string_fragment" text span) = false := rfl

theorem fragment_eq (pending : PendingText) (position : Span) :
    ∃ span, fragment pending position = .leaf "string_fragment" (waitingText pending) span := by
  cases pending with
  | none => exact ⟨position, rfl⟩
  | some waiting => exact ⟨waiting.2, rfl⟩

@[simp] theorem isSubstitution_fragment (pending : PendingText) (position : Span) :
    isSubstitution (fragment pending position) = false := by
  obtain ⟨span, heq⟩ := fragment_eq pending position
  rw [heq, isSubstitution_leaf]

theorem waitingText_joinText (pending : PendingText) (part : Node) :
    waitingText (joinText pending part) = waitingText pending ++ part.text.getD "" := by
  cases pending with
  | none => simp [joinText, waitingText]
  | some waiting => rfl

theorem alternate_cons_substitution {part : Node} (h : isSubstitution part = true)
    (pending : PendingText) (position : Span) (rest : List Node) :
    alternate pending position (part :: rest) =
      fragment pending position :: part :: alternate none part.span.atEnd rest := by
  rw [alternate, if_pos (beq_iff_eq.1 h)]

theorem alternate_cons_piece {part : Node} (h : isSubstitution part = false)
    (pending : PendingText) (position : Span) (rest : List Node) :
    alternate pending position (part :: rest) =
      alternate (joinText pending part) position rest := by
  rw [alternate, if_neg (beq_eq_false_iff_ne.1 h)]

/-! ## What a pass gives -/

theorem alternates_alternate (pending : PendingText) (position : Span) (parts : List Node) :
    Alternates (alternate pending position parts) := by
  induction parts generalizing pending position with
  | nil =>
      obtain ⟨span, heq⟩ := fragment_eq pending position
      rw [alternate, heq]
      exact .last _ span
  | cons part rest ih =>
      cases hpart : isSubstitution part with
      | true =>
          obtain ⟨span, heq⟩ := fragment_eq pending position
          rw [alternate_cons_substitution hpart, heq]
          exact .more _ span hpart (ih none part.span.atEnd)
      | false =>
          rw [alternate_cons_piece hpart]
          exact ih _ position

theorem filter_alternate (pending : PendingText) (position : Span) (parts : List Node) :
    (alternate pending position parts).filter isSubstitution = parts.filter isSubstitution := by
  induction parts generalizing pending position with
  | nil => simp [alternate]
  | cons part rest ih =>
      cases hpart : isSubstitution part with
      | true =>
          rw [alternate_cons_substitution hpart, List.filter_cons_of_neg (by simp),
            List.filter_cons_of_pos hpart, List.filter_cons_of_pos hpart, ih]
      | false =>
          rw [alternate_cons_piece hpart, ih, List.filter_cons_of_neg (by simp [hpart])]

/-- The text that waits goes before that of the first run. -/
theorem texts_alternate (pending : PendingText) (position : Span) (parts : List Node) :
    ((alternate pending position parts).filter fun part => !isSubstitution part).map Node.text =
      (((parts.splitOnP isSubstitution).map runText).modifyHead
        (waitingText pending ++ ·)).map some := by
  induction parts generalizing pending position with
  | nil =>
      obtain ⟨span, heq⟩ := fragment_eq pending position
      simp [alternate, heq, Node.leaf, isSubstitution, List.splitOnP_nil, runText]
  | cons part rest ih =>
      obtain ⟨run, runs, hruns⟩ :=
        List.exists_cons_of_ne_nil (List.splitOnP_ne_nil isSubstitution rest)
      cases hpart : isSubstitution part with
      | true =>
          obtain ⟨span, heq⟩ := fragment_eq pending position
          have hfragment : (fragment pending position).text = some (waitingText pending) := by
            rw [heq]
            rfl
          rw [alternate_cons_substitution hpart, List.filter_cons_of_pos (by simp),
            List.filter_cons_of_neg (by simp [hpart]), List.map_cons, ih, hfragment,
            List.splitOnP_cons_eq_if_modifyHead, if_pos hpart, hruns]
          simp [runText, waitingText]
      | false =>
          rw [alternate_cons_piece hpart, ih, waitingText_joinText,
            List.splitOnP_cons_eq_if_modifyHead, if_neg (by simp [hpart]), hruns]
          simp [runText, String.append_assoc]

/-- What alternates stays as it is: each piece is a run of its own. -/
theorem alternate_of_alternates {parts : List Node} (h : Alternates parts) (position : Span) :
    alternate none position parts = parts := by
  induction h generalizing position with
  | last text span =>
      rw [alternate_cons_piece (isSubstitution_leaf text span)]
      rfl
  | more text span hsubstitution _ ih =>
      rw [alternate_cons_piece (isSubstitution_leaf text span),
        alternate_cons_substitution hsubstitution, ih]
      rfl

/-! ## Pieces -/

/-- A **piece** of a normalised template: a run of its parts, joined. An empty run gives an empty
piece, at the start of the text of the template or at the end of a substitution. -/
structure IsPiece (start : Span) (parts run : List Node) (position : Span) (piece : Node) :
    Prop where
  isRun : run <:+: parts ∧ ∀ part ∈ run, isSubstitution part = false
  isPlace : position = start ∨ ∃ part ∈ parts, position = part.span.atEnd
  eq_fragment : piece = fragment (run.foldl joinText none) position

theorem IsPiece.fields_eq {start position : Span} {parts run : List Node} {piece : Node}
    (h : IsPiece start parts run position piece) : piece.fields = [] := by
  obtain ⟨span, heq⟩ := fragment_eq (run.foldl joinText none) position
  rw [h.eq_fragment, heq]
  rfl

theorem mem_alternate (before : List Node) {start position : Span} {parts after : List Node}
    {m : Node} (hparts : before ++ after <:+: parts)
    (hbefore : ∀ part ∈ before, isSubstitution part = false)
    (hposition : position = start ∨ ∃ part ∈ parts, position = part.span.atEnd)
    (hm : m ∈ alternate (before.foldl joinText none) position after) :
    m ∈ after ∨ ∃ run place, IsPiece start parts run place m := by
  induction after generalizing before position with
  | nil =>
      rw [alternate] at hm
      rw [List.append_nil] at hparts
      exact Or.inr ⟨before, position, ⟨hparts, hbefore⟩, hposition, List.mem_singleton.1 hm⟩
  | cons part rest ih =>
      cases hpart : isSubstitution part with
      | true =>
          -- the run before a substitution is over, and another one begins after it
          have hmem : part ∈ parts := hparts.subset (by simp)
          have hrun : before <:+: parts := (List.prefix_append _ _).isInfix.trans hparts
          have hrest : [] ++ rest <:+: parts :=
            ((List.suffix_cons part rest).trans (List.suffix_append before _)).isInfix.trans hparts
          rw [alternate_cons_substitution hpart] at hm
          rcases List.mem_cons.1 hm with rfl | hm
          · exact Or.inr ⟨before, position, ⟨hrun, hbefore⟩, hposition, rfl⟩
          · rcases List.mem_cons.1 hm with rfl | hm
            · exact Or.inl List.mem_cons_self
            · exact (ih [] hrest (by simp) (Or.inr ⟨part, hmem, rfl⟩) hm).imp_left
                (List.mem_cons_of_mem _)
      | false =>
          rw [alternate_cons_piece hpart] at hm
          have hrun : ∀ other ∈ before ++ [part], isSubstitution other = false := by
            intro other hother
            rcases List.mem_append.1 hother with hother | hother
            · exact hbefore other hother
            · rw [List.mem_singleton.1 hother, hpart]
          refine (ih (before ++ [part]) ?_ hrun hposition ?_).imp_left
            (List.mem_cons_of_mem _)
          · rwa [List.append_assoc, List.singleton_append]
          · rwa [List.foldl_append, List.foldl_cons, List.foldl_nil]

/-- What holds of the texts and spans of pieces, and of two that touch as soon as it holds of both,
holds of a run without gaps, joined to what waits before it. -/
theorem foldl_joinText_waiting {P : String → Span → Prop}
    (hcover : ∀ {left right : String} {a b : Span}, P left a → P right b →
      a.endByte = b.startByte → P (left ++ right) (a.cover b) ∧ (a.cover b).endByte = b.endByte)
    {run : List Node} (hrun : ∀ part ∈ run, P (part.text.getD "") part.span)
    (hchain : run.IsChain fun a b => a.span.endByte = b.span.startByte) {before : String}
    {span : Span} (hbefore : P before span)
    (hnext : ∀ part ∈ run.head?, span.endByte = part.span.startByte) :
    ∃ covered, run.foldl joinText (some (before, span)) = some (before ++ runText run, covered) ∧
      P (before ++ runText run) covered := by
  induction run generalizing before span with
  | nil => exact ⟨span, by simp [runText], by simpa [runText] using hbefore⟩
  | cons part rest ih =>
      obtain ⟨hpart, hrest⟩ := List.forall_mem_cons.1 hrun
      obtain ⟨hmeet, hchain⟩ := List.isChain_cons.1 hchain
      obtain ⟨hjoined, hend⟩ := hcover hbefore hpart (hnext part rfl)
      obtain ⟨covered, hfold, hcovered⟩ := ih hrest hchain hjoined fun next hnext =>
        hend.trans (hmeet next hnext)
      have htext :
          before ++ part.text.getD "" ++ runText rest = before ++ runText (part :: rest) := by
        simp [runText, String.append_assoc]
      rw [htext] at hfold hcovered
      exact ⟨covered, hfold, hcovered⟩

/-- The same of a run with nothing before it. -/
theorem foldl_joinText {P : String → Span → Prop}
    (hcover : ∀ {left right : String} {a b : Span}, P left a → P right b →
      a.endByte = b.startByte → P (left ++ right) (a.cover b) ∧ (a.cover b).endByte = b.endByte)
    {run : List Node} (hne : run ≠ []) (hrun : ∀ part ∈ run, P (part.text.getD "") part.span)
    (hchain : run.IsChain fun a b => a.span.endByte = b.span.startByte) :
    ∃ covered, run.foldl joinText none = some (runText run, covered) ∧ P (runText run) covered := by
  cases run with
  | nil => exact absurd rfl hne
  | cons part rest =>
      obtain ⟨hpart, hrest⟩ := List.forall_mem_cons.1 hrun
      obtain ⟨hmeet, hchain⟩ := List.isChain_cons.1 hchain
      have htext : part.text.getD "" ++ runText rest = runText (part :: rest) := by simp [runText]
      rw [← htext]
      exact foldl_joinText_waiting hcover hrest hchain hpart hmeet

/-- Two parts of a template **touch** if the second starts where the first ends, unless one of them
is a substitution. -/
def Touch (a b : Node) : Prop :=
  isSubstitution a = false → isSubstitution b = false → a.span.endByte = b.span.startByte

/-- A piece is put in and empty, or it is made of parts that touch, and what holds of their texts
and spans holds of its own. -/
theorem IsPiece.empty_or_covers {P : String → Span → Prop}
    (hcover : ∀ {left right : String} {a b : Span}, P left a → P right b →
      a.endByte = b.startByte → P (left ++ right) (a.cover b) ∧ (a.cover b).endByte = b.endByte)
    {start position : Span} {parts run : List Node} {piece : Node}
    (hpiece : IsPiece start parts run position piece)
    (hparts : ∀ part ∈ parts, isSubstitution part = false → P (part.text.getD "") part.span)
    (htouch : parts.IsChain Touch) :
    piece = .leaf "string_fragment" "" position ∨
      ∃ text span, piece = .leaf "string_fragment" text span ∧ P text span := by
  obtain ⟨hwithin, hpieces⟩ := hpiece.isRun
  rw [hpiece.eq_fragment]
  by_cases hrun : run = []
  · rw [hrun]
    exact Or.inl rfl
  · have htouch : run.IsChain Touch := List.IsChain.infix htouch hwithin
    have hchain : run.IsChain fun a b => a.span.endByte = b.span.startByte :=
      htouch.imp_of_mem_imp fun a b ha hb hmeet => hmeet (hpieces a ha) (hpieces b hb)
    obtain ⟨covered, hfold, hcovered⟩ := foldl_joinText hcover hrun
      (fun part hpart => hparts part (hwithin.subset hpart) (hpieces part hpart)) hchain
    rw [hfold]
    exact Or.inr ⟨runText run, covered, rfl, hcovered⟩

/-! ## Templates -/

theorem children_mergeFragments (template : Node) :
    (mergeFragments template).children =
      alternate none (insideDelimiter template.span) template.children := by
  rw [mergeFragments, Node.children, Node.field?_setField_self]
  rfl

/-- Normalising puts the children last among the fields. -/
theorem removeField_mergeFragments {template : Node} (h : template.HasDistinctFields) :
    (mergeFragments template).removeField childrenField = template.removeField childrenField := by
  have hnot : childrenField ∉ (template.removeField childrenField).fields.map Prod.fst := by
    rw [Node.names_removeField h]
    simp
  rw [mergeFragments, Node.removeField, Node.setField, Node.withFields, Node.withFields]
  rw [Node.fields_mk, Node.eraseField_insertField hnot]
  rfl

/-- Right below a normalised template are nodes that were there, and pieces. -/
theorem mem_offspring_mergeFragments {template c : Node}
    (h : c ∈ (mergeFragments template).offspring) : c ∈ template.offspring ∨
      ∃ run place, IsPiece (insideDelimiter template.span) template.children run place c := by
  rcases Node.mem_offspring_setField h with hc | hc
  · exact (mem_alternate [] List.infix_rfl (by simp) (Or.inl rfl) hc).imp_left
      Node.mem_offspring_of_mem_children
  · exact Or.inl (Node.mem_offspring_removeField hc)

/-- A normalised template is not changed by normalising it again. -/
theorem mergeFragments_mergeFragments {template : Node} (h : template.HasDistinctFields) :
    mergeFragments (mergeFragments template) = mergeFragments template := by
  have halternates : Alternates (mergeFragments template).children := by
    rw [children_mergeFragments]
    exact alternates_alternate none _ _
  rw [mergeFragments.eq_def (mergeFragments template), removeField_mergeFragments h,
    alternate_of_alternates halternates, children_mergeFragments]
  rfl

/-- **Normalising a template** makes one piece of each run of its parts, leaves the substitutions as
they are, and changes nothing the second time. -/
theorem mergeFragments_normalises {template : Node} (h : template.HasDistinctFields) :
    Normalises template.children (mergeFragments template).children ∧
      mergeFragments (mergeFragments template) = mergeFragments template := by
  rw [children_mergeFragments]
  refine ⟨⟨alternates_alternate none _ _, filter_alternate none _ _, ?_⟩,
    mergeFragments_mergeFragments h⟩
  obtain ⟨run, runs, hruns⟩ :=
    List.exists_cons_of_ne_nil (List.splitOnP_ne_nil isSubstitution template.children)
  rw [texts_alternate, hruns]
  simp [waitingText]

/-- A template that starts with a run of two pieces, and ends with two substitutions. -/
def unevenTemplate : Node :=
  .mk "template_string" none
    [(childrenField, .nodes
      [.leaf "string_fragment" "a" (lineSpan 1 2), .leaf "escape_sequence" "\\n" (lineSpan 2 4),
        .branch "template_substitution" (lineSpan 4 8),
        .branch "template_substitution" (lineSpan 8 12)])] (lineSpan 0 13)

/-- The first run becomes one piece, and the two empty runs become empty pieces. -/
theorem mergeFragments_normalises_uneven : unevenTemplate.HasDistinctFields ∧
    (mergeFragments unevenTemplate).children.map Node.text =
      [some "a\\n", none, some "", none, some ""] ∧
    Normalises unevenTemplate.children (mergeFragments unevenTemplate).children := by
  have hfields : unevenTemplate.HasDistinctFields := List.nodup_singleton _
  exact ⟨hfields, by decide +kernel, (mergeFragments_normalises hfields).1⟩

end CodeSearch.Ecma
