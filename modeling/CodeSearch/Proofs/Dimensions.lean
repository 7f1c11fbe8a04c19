import CodeSearch.Proofs.Finishing
import CodeSearch.Proofs.LanguageSelfMatch

/-!
# Dimensions

The parser of CSS may split a number from its unit, and the number itself, into several leaves. The
values of a declaration are joined from left to right, so that what is joined so far is a number
that the next piece touches: it has the kind of the first piece, the texts of the pieces so far, and
ends where the last of them ends.

Numbers are compared in two parts. The cut between them depends on the text alone, so that the
parts of two texts are equal just if the texts are.

`Css.dimension_survives`: what was split is one number again, the other values are left alone, and
numbers without wildcards are matched as whole texts.
-/

set_option autoImplicit false

namespace CodeSearch.Css

/-! ## One step -/

theorem joinAfter_cons_of_joined {previous value number : Node}
    (h : joined? previous value = some number) (after : List Node) :
    joinAfter previous (value :: after) = joinAfter number after := by
  rw [joinAfter, h]

theorem joinAfter_cons_of_apart {previous value : Node} (h : joined? previous value = none)
    (after : List Node) :
    joinAfter previous (value :: after) = previous :: joinAfter value after := by
  rw [joinAfter, h]

/-! ## Numbers in pieces -/

/-- What a leaf holds. -/
structure Piece where
  kind : String
  text : String
  span : Span

/-- The leaf of a piece. -/
def Piece.leaf (piece : Piece) : Node := .leaf piece.kind piece.text piece.span

/-- Pieces of one text, one or more of them. -/
structure Pieces where
  first : Piece
  later : List Piece

namespace Pieces

/-- The pieces in their order. -/
def toList (pieces : Pieces) : List Piece := pieces.first :: pieces.later

/-- The last piece. -/
def last (pieces : Pieces) : Piece := pieces.later.getLastD pieces.first

/-- The text that was cut. -/
def text (pieces : Pieces) : String := String.join (pieces.toList.map Piece.text)

/-- From the start of the first piece to the end of the last. -/
def span (pieces : Pieces) : Span :=
  ⟨pieces.first.span.startByte, pieces.last.span.endByte, pieces.first.span.start,
    pieces.last.span.stop⟩

/-- The pieces in one leaf. -/
def whole (pieces : Pieces) : Node := .leaf pieces.first.kind pieces.text pieces.span

/-- A number **comes in pieces** that are not empty, each right behind the one before it: the first
of them is a number, the others are numbers or plain values. -/
structure OfNumber (pieces : Pieces) : Prop where
  number : kinds.isNumber pieces.first.kind = true
  values : ∀ piece ∈ pieces.later, kinds.isNumber piece.kind = true ∨ piece.kind = "plain_value"
  filled : ∀ piece ∈ pieces.toList, piece.span.startByte < piece.span.endByte
  touch : pieces.toList.IsChain fun a b => a.span.endByte = b.span.startByte

/-- The pieces and one more. -/
def push (pieces : Pieces) (piece : Piece) : Pieces := ⟨pieces.first, pieces.later ++ [piece]⟩

variable {pieces : Pieces} {piece : Piece}

/-- Pieces are one piece, or others and one more. -/
theorem push_induction {motive : Pieces → Prop} (single : ∀ piece, motive ⟨piece, []⟩)
    (push : ∀ pieces piece, motive pieces → motive (pieces.push piece)) (pieces : Pieces) :
    motive pieces := by
  obtain ⟨first, later⟩ := pieces
  induction later using List.reverseRecOn with
  | nil => exact single first
  | append_singleton later piece ih => exact push ⟨first, later⟩ piece ih

@[simp] theorem toList_push : (pieces.push piece).toList = pieces.toList ++ [piece] := rfl

@[simp] theorem last_push : (pieces.push piece).last = piece := by
  simp [last, push]

@[simp] theorem text_push : (pieces.push piece).text = pieces.text ++ piece.text := by
  simp [text]

theorem span_push : (pieces.push piece).span =
    ⟨pieces.span.startByte, piece.span.endByte, pieces.span.start, piece.span.stop⟩ := by
  rw [span, last_push]
  rfl

theorem getLast?_toList (pieces : Pieces) : pieces.toList.getLast? = some pieces.last := by
  induction pieces using push_induction with
  | single piece => rfl
  | push pieces piece _ => rw [toList_push, List.getLast?_concat, last_push]

theorem OfNumber.init (h : (pieces.push piece).OfNumber) : pieces.OfNumber where
  number := h.number
  values := fun other hother => h.values other (List.mem_append_left _ hother)
  filled := fun other hother => h.filled other (List.mem_append_left _ hother)
  touch := (List.isChain_append.1 h.touch).1

theorem OfNumber.filled_last (h : (pieces.push piece).OfNumber) :
    piece.span.startByte < piece.span.endByte :=
  h.filled piece (by rw [toList_push]; exact List.mem_append_right _ List.mem_cons_self)

/-- The next piece is right behind all pieces so far. -/
theorem OfNumber.touch_last (h : (pieces.push piece).OfNumber) :
    pieces.last.span.endByte = piece.span.startByte :=
  (List.isChain_append.1 h.touch).2.2 _ (getLast?_toList pieces) _ rfl

/-- The pieces end behind their start. -/
theorem OfNumber.startByte_lt (h : pieces.OfNumber) :
    pieces.span.startByte < pieces.span.endByte := by
  induction pieces using push_induction with
  | single piece => exact h.filled piece List.mem_cons_self
  | push pieces piece ih =>
      have hbefore : pieces.span.startByte < pieces.span.endByte := ih h.init
      have hmeet : pieces.span.endByte = piece.span.startByte := h.touch_last
      calc (pieces.push piece).span.startByte = pieces.span.startByte := rfl
        _ < piece.span.startByte := hmeet ▸ hbefore
        _ < piece.span.endByte := h.filled_last
        _ = (pieces.push piece).span.endByte := by rw [span_push]

/-- The span of all pieces covers that of the last and of those before it. -/
theorem OfNumber.cover_span (h : (pieces.push piece).OfNumber) :
    pieces.span.cover piece.span = (pieces.push piece).span := by
  have hbefore := h.init.startByte_lt
  have hpiece := h.filled_last
  have hmeet : pieces.span.endByte = piece.span.startByte := h.touch_last
  have hstart : ¬ piece.span.startByte < pieces.span.startByte := by omega
  have hstop : pieces.span.endByte < piece.span.endByte := by omega
  rw [Span.cover, if_neg hstart, if_neg hstart, if_pos hstop, if_pos hstop, span_push]

/-- What the pieces so far are joined to is joined with the next piece. -/
theorem OfNumber.joined?_whole (h : (pieces.push piece).OfNumber) :
    joined? pieces.whole piece.leaf = some (pieces.push piece).whole := by
  have hcontinues : continues pieces.whole piece.leaf = true := by
    have hkind := h.values piece (List.mem_append_right _ List.mem_cons_self)
    simp only [continues, Bool.and_eq_true, Bool.or_eq_true, beq_iff_eq]
    exact ⟨⟨h.number, hkind⟩, h.touch_last⟩
  have hjoined : joined? pieces.whole piece.leaf =
      some (.leaf pieces.whole.kind (pieces.text ++ piece.text)
        (pieces.span.cover piece.span)) := if_pos hcontinues
  rw [hjoined, h.cover_span, ← text_push]
  rfl

/-- Pieces are joined to one leaf, and this with what comes behind. -/
theorem OfNumber.joinNumbers_append (h : pieces.OfNumber) (after : List Node) :
    joinNumbers (pieces.toList.map Piece.leaf ++ after) = joinAfter pieces.whole after := by
  induction pieces using push_induction generalizing after with
  | single piece =>
      have hwhole : whole ⟨piece, []⟩ = piece.leaf := by
        simp [whole, text, toList, span, last, Piece.leaf]
      rw [hwhole]
      rfl
  | push pieces piece ih =>
      rw [toList_push, List.map_append, List.append_assoc, ih h.init]
      exact joinAfter_cons_of_joined h.joined?_whole after

end Pieces

/-! ## Numbers among other values -/

section Values

variable {before after : List Node} {value previous : Node}

/-- No number before a value ends where the value starts. A number that comes in pieces counts as
one, which ends where the last of them does. -/
def NoneTouches (before : List Node) (value : Node) : Prop :=
  ∀ number ∈ (joinNumbers before).getLast?, kinds.isNumber number.kind = true →
    number.span.endByte ≠ value.span.startByte

/-- No number or plain value starts right behind a value. -/
def NoneFollows (value : Node) (after : List Node) : Prop :=
  ∀ next ∈ after.head?, kinds.isNumber next.kind = true ∨ next.kind = "plain_value" →
    value.span.endByte ≠ next.span.startByte

instance (before : List Node) (value : Node) : Decidable (NoneTouches before value) :=
  inferInstanceAs (Decidable (∀ number ∈ (joinNumbers before).getLast?, _ → _))

instance (value : Node) (after : List Node) : Decidable (NoneFollows value after) :=
  inferInstanceAs (Decidable (∀ next ∈ after.head?, _ → _))

theorem joined?_of_not_continues {number : Node} (h : continues number value = false) :
    joined? number value = none :=
  joined?_eq_none_iff.2 fun hcontinues => absurd (h.symm.trans hcontinues) Bool.false_ne_true

theorem joinAfter_ne_nil (previous : Node) (rest : List Node) : joinAfter previous rest ≠ [] := by
  induction rest generalizing previous with
  | nil => exact List.cons_ne_nil _ _
  | cons value rest ih =>
      rw [joinAfter]
      split
      next number _ => exact ih number
      next => exact List.cons_ne_nil _ _

/-- A value that is not joined with what comes before it is where joining starts anew. -/
theorem joinAfter_append {rest : List Node}
    (h : ∀ last ∈ (joinAfter previous rest).getLast?, joined? last value = none) :
    joinAfter previous (rest ++ value :: after) =
      joinAfter previous rest ++ joinAfter value after := by
  induction rest generalizing previous with
  | nil => exact joinAfter_cons_of_apart (h previous rfl) after
  | cons next rest ih =>
      cases hjoined : joined? previous next with
      | some number =>
          rw [joinAfter_cons_of_joined hjoined] at h
          rw [List.cons_append, joinAfter_cons_of_joined hjoined, joinAfter_cons_of_joined hjoined]
          exact ih h
      | none =>
          rw [joinAfter_cons_of_apart hjoined] at h
          rw [List.cons_append, joinAfter_cons_of_apart hjoined, joinAfter_cons_of_apart hjoined]
          refine congrArg (previous :: ·) (ih fun last hlast => h last ?_)
          obtain ⟨first, later, heq⟩ := List.exists_cons_of_ne_nil (joinAfter_ne_nil next rest)
          rwa [heq, List.getLast?_cons_cons, ← heq]

/-- A value that no number touches is where joining starts anew. -/
theorem joinNumbers_append (h : NoneTouches before value) (after : List Node) :
    joinNumbers (before ++ value :: after) =
      joinNumbers before ++ joinNumbers (value :: after) := by
  cases before with
  | nil => rfl
  | cons first rest =>
      refine joinAfter_append fun last hlast => joined?_of_not_continues ?_
      rw [Bool.eq_false_iff]
      intro hcontinues
      simp only [continues, Bool.and_eq_true, beq_iff_eq] at hcontinues
      exact h last hlast hcontinues.1.1 hcontinues.2

/-- A value that nothing continues is left as it is. -/
theorem joinAfter_of_noneFollows
    (h : kinds.isNumber previous.kind = true → NoneFollows previous after) :
    joinAfter previous after = previous :: joinNumbers after := by
  cases after with
  | nil => rfl
  | cons next rest =>
      have hapart : continues previous next = false := by
        rw [Bool.eq_false_iff]
        intro hcontinues
        simp only [continues, Bool.and_eq_true, Bool.or_eq_true, beq_iff_eq] at hcontinues
        exact h hcontinues.1.1 next rfl hcontinues.1.2 hcontinues.2
      exact joinAfter_cons_of_apart (joined?_of_not_continues hapart) rest

end Values

/-! ## Comparing dimensions -/

section Compare

variable {config : MatchSettings} {file query : Node} {b : Bindings}

/-- Two texts with the same number and the same unit are the same. -/
theorem splitDimension_injective : Function.Injective splitDimension := by
  intro left right h
  obtain ⟨hleft, -⟩ := splitDimension_eq (Prod.eta (splitDimension left)).symm
  obtain ⟨hright, -⟩ := splitDimension_eq (Prod.eta (splitDimension right)).symm
  rw [hleft, hright, h]

/-- Without wildcards, and where case counts, units match just if they are equal. -/
theorem unitsVerdict_of_literal {queryUnit fileUnit : String}
    (hwildcard : config.markers.hasWildcard queryUnit = false) (hcase : config.ignoreCase = false) :
    unitsVerdict config queryUnit fileUnit b =
      (some (if queryUnit = fileUnit then .accept [] else .reject), b) := by
  rw [unitsVerdict, hwildcard, hcase, if_neg Bool.false_ne_true, if_neg Bool.false_ne_true]
  split <;> rfl

/-- Numbers without wildcards are matched as whole texts: the parts that are compared tell the
texts apart. -/
theorem dimensions_of_literal {queryText fileText : String}
    (hmarker : isNumeral config.markers.marker = false) (hcase : config.ignoreCase = false)
    (hquery : kinds.isNumber query.kind = true) (hfile : kinds.isNumber file.kind = true)
    (hqueryText : query.text = some queryText) (hfileText : file.text = some fileText)
    (hwildcard : config.markers.hasWildcard queryText = false)
    (hnumeric : ¬ config.markers.numeric.toList <+: queryText.toList) :
    dimensions config file query b =
      (some (if queryText = fileText then .accept [] else .reject), b) := by
  rw [dimensions_eq config b hquery hfile hqueryText hfileText, Text.isPrefixOf?_eq_none hnumeric]
  dsimp only
  rw [unitsVerdict_of_literal (hasWildcard_unit hmarker hwildcard) hcase]
  by_cases hsame : queryText = fileText
  · subst hsame
    rw [if_pos rfl, if_pos rfl, if_pos rfl]
  · rw [if_neg hsame]
    by_cases hnumbers :
        (splitDimension queryText.toList).1 = (splitDimension fileText.toList).1
    · -- texts that differ but for their numbers have different units
      rw [if_pos hnumbers, if_neg]
      intro hunits
      exact hsame (String.toList_injective
        (splitDimension_injective (Prod.ext hnumbers (String.ofList_injective hunits))))
    · rw [if_neg hnumbers]

end Compare

/-! ## Dimensions as a whole -/

theorem joinAdjacentNumbers_of_field? {n : Node} {values : List Node}
    (h : n.field? childrenField = some (.nodes values)) :
    joinAdjacentNumbers n = n.setField childrenField (.nodes (joinNumbers values)) := by
  rw [joinAdjacentNumbers, h]

/-- **A dimension survives being split.** In the values of a declaration, the pieces of a number
that touches no number before it, and that no number and no plain value touches from behind, become
one leaf, and a value that is no such piece is left alone, whatever is joined before and behind. And
where case counts, a number without wildcards that is not one that stands for any number matches
just the numbers with the same text. -/
theorem dimension_survives :
    (∀ (n : Node) (before : List Node) (pieces : Pieces) (after : List Node), pieces.OfNumber →
      NoneTouches before pieces.first.leaf → NoneFollows pieces.whole after →
      n.field? childrenField =
        some (.nodes (before ++ pieces.toList.map Piece.leaf ++ after)) →
      joinAdjacentNumbers n = n.setField childrenField
        (.nodes (joinNumbers before ++ pieces.whole :: joinNumbers after))) ∧
    (∀ (n : Node) (before : List Node) (value : Node) (after : List Node),
      NoneTouches before value →
      (kinds.isNumber value.kind = true → NoneFollows value after) →
      n.field? childrenField = some (.nodes (before ++ value :: after)) →
      joinAdjacentNumbers n = n.setField childrenField
        (.nodes (joinNumbers before ++ value :: joinNumbers after))) ∧
    ∀ (config : MatchSettings) (file query : Node) (b : Bindings) (queryText fileText : String),
      isNumeral config.markers.marker = false → config.ignoreCase = false →
      kinds.isNumber query.kind = true → kinds.isNumber file.kind = true →
      query.text = some queryText → file.text = some fileText →
      config.markers.hasWildcard queryText = false →
      ¬ config.markers.numeric.toList <+: queryText.toList →
      dimensions config file query b =
        (some (if queryText = fileText then .accept [] else .reject), b) := by
  refine ⟨fun n before pieces after hpieces hbefore hafter hvalues => ?_,
    fun n before value after hbefore hafter hvalues => ?_, ?_⟩
  · have hfirst : pieces.toList.map Piece.leaf ++ after =
        pieces.first.leaf :: (pieces.later.map Piece.leaf ++ after) := rfl
    rw [joinAdjacentNumbers_of_field? hvalues, List.append_assoc, hfirst,
      joinNumbers_append hbefore, ← hfirst, hpieces.joinNumbers_append,
      joinAfter_of_noneFollows fun _ => hafter]
  · rw [joinAdjacentNumbers_of_field? hvalues, joinNumbers_append hbefore]
    exact congrArg (fun joined => n.setField childrenField (.nodes (joinNumbers before ++ joined)))
      (joinAfter_of_noneFollows hafter)
  · intro config file query b queryText fileText hmarker hcase hquery hfile hqueryText hfileText
    exact dimensions_of_literal hmarker hcase hquery hfile hqueryText hfileText

/-- The three parts of a width. -/
def widthPieces : Pieces :=
  ⟨⟨"integer_value", "0x", lineSpan 7 9⟩,
    [⟨"integer_value", "0p", lineSpan 9 11⟩, ⟨"plain_value", "x", lineSpan 11 12⟩]⟩

/-- A width that was split in three, between a property and another value, and two lengths whose
units differ in their second letter. -/
theorem dimension_survives_width :
    joinAdjacentNumbers Language.splitWidth = Language.splitWidth.setField childrenField
        (.nodes [.leaf "property_name" "width" (lineSpan 0 5),
          .leaf "integer_value" "0x0px" (lineSpan 7 12),
          .leaf "plain_value" "auto" (lineSpan 13 17)]) ∧
      joinAdjacentNumbers Language.splitWidth = Language.splitWidth.setField childrenField
        (.nodes ([.leaf "property_name" "width" (lineSpan 0 5), widthPieces.whole] ++
          .leaf "plain_value" "auto" (lineSpan 13 17) :: [])) ∧
      dimensions {} (.leaf "float_value" "-.5ém" (lineSpan 0 6))
        (.leaf "float_value" "-.5én" (lineSpan 0 6)) .empty = (some .reject, .empty) := by
  have hpieces : widthPieces.OfNumber := ⟨by decide, by decide, by decide, by decide⟩
  refine ⟨?_, ?_, ?_⟩
  · exact dimension_survives.1 Language.splitWidth [.leaf "property_name" "width" (lineSpan 0 5)]
      widthPieces [.leaf "plain_value" "auto" (lineSpan 13 17)] hpieces (by decide) (by decide) rfl
  · exact dimension_survives.2.1 Language.splitWidth
      (.leaf "property_name" "width" (lineSpan 0 5) :: widthPieces.toList.map Piece.leaf)
      (.leaf "plain_value" "auto" (lineSpan 13 17)) [] (by decide) (by decide) rfl
  · exact dimension_survives.2.2 {} (.leaf "float_value" "-.5ém" (lineSpan 0 6))
      (.leaf "float_value" "-.5én" (lineSpan 0 6)) .empty "-.5én" "-.5ém" (by decide) rfl
      (by decide) (by decide) rfl rfl (by decide) (by decide)

end CodeSearch.Css
