import CodeSearch.Language.Registry
import CodeSearch.Proofs.Lines
import CodeSearch.Proofs.Placeholders
import CodeSearch.Proofs.QueryReading
import CodeSearch.Proofs.SourceText
import Mathlib.Order.WellFounded

/-!
# Where a query fails to parse

A query that cannot be parsed is reported with the position at which the parser gave up. Where
wildcards are written as placeholders, the parser reads another text than the one the query was
written as, and its positions are positions of that text.

The position in the query is that of a **place**: of the places at which the encoding of the query
comes apart, so that no wildcard is cut, the one whose encoding ends at the reported position or
else last before it.

`Language.location_of_failure`: the reported location is that of the place just if the last line of
what stands before the place has as many bytes as its encoding, and the parser did not give up
within a placeholder.
-/

set_option autoImplicit false

namespace CodeSearch

/-! ## Lines and columns -/

/-- A position is told by the line feeds before it and the bytes after the last of them. -/
theorem Position.ofBefore_eq (cs : List Char) :
    Position.ofBefore cs = ⟨Text.lineBreaks cs, Text.byteLength (Text.lastLine cs)⟩ := by
  induction cs using List.reverseRecOn with
  | nil => rfl
  | append_singleton cs c ih =>
      rw [Position.ofBefore_concat, ih]
      by_cases hc : c = '\n'
      · subst hc
        rw [if_pos rfl, Text.lastLine_append_break cs List.not_mem_nil, Text.lineBreaks,
          Text.lineBreaks, List.count_append]
        rfl
      · have hplain : '\n' ∉ [c] := fun hmem => hc (List.mem_singleton.1 hmem).symm
        rw [if_neg hc, Text.lastLine_append cs hplain, Text.lineBreaks_append cs hplain,
          Text.byteLength_append, Text.byteLength_cons, Text.byteLength_nil, Nat.add_zero]

theorem Position.fromOne_inj {p q : Position} : p.fromOne = q.fromOne ↔ p = q := by
  cases p
  cases q
  simp [Position.fromOne]

/-! ## Replacing in parts of a text -/

namespace Text

variable {piece image text rest x y u w : List Char} {c : Char}

/-- Induction over a text, piece by piece. -/
theorem piece_induction (hpiece : piece ≠ []) {motive : List Char → Prop} (nil : motive [])
    (plain : ∀ c rest, ¬ piece <+: c :: rest → motive rest → motive (c :: rest))
    (replaced : ∀ rest, motive rest → motive (piece ++ rest)) (text : List Char) : motive text := by
  have bounded : ∀ length, ∀ text : List Char, text.length < length → motive text := by
    intro length
    induction length with
    | zero => intro text htext; omega
    | succ length ih =>
        intro text htext
        by_cases hprefix : piece <+: text
        · obtain ⟨rest, rfl⟩ := hprefix
          have hpos := List.length_pos_of_ne_nil hpiece
          rw [List.length_append] at htext
          exact replaced rest (ih rest (by omega))
        · cases text with
          | nil => exact nil
          | cons c rest =>
              rw [List.length_cons] at htext
              exact plain c rest hprefix (ih rest (by omega))
  exact bounded (text.length + 1) text (Nat.lt_succ_self _)

/-- A piece does not begin before a character that it does not hold and end behind it. -/
theorem prefix_of_prefix_append (hpiece : c ∉ piece) (h : piece <+: x ++ c :: y) : piece <+: x := by
  obtain ⟨more, hmore⟩ := h
  rcases List.append_eq_append_iff.1 hmore with ⟨tail, rfl, -⟩ | ⟨tail, rfl, htail⟩
  · exact List.prefix_append _ _
  · cases tail with
    | nil => rw [List.append_nil]
    | cons d tail =>
        obtain ⟨rfl, -⟩ := List.cons.inj htail
        exact absurd (List.mem_append_right _ List.mem_cons_self) hpiece

/-- A character that the piece does not hold divides the text. -/
theorem replaceAll_across (hpiece : piece ≠ []) (hc : c ∉ piece) (x y : List Char) :
    replaceAll piece image (x ++ c :: y) =
      replaceAll piece image x ++ c :: replaceAll piece image y := by
  induction x using piece_induction hpiece with
  | nil =>
      refine replaceAll_cons fun h => hpiece (List.prefix_nil.1 ?_)
      exact prefix_of_prefix_append hc h
  | plain d x hd ih =>
      have hd' : ¬ piece <+: d :: (x ++ c :: y) := fun h => hd (prefix_of_prefix_append hc h)
      rw [List.cons_append, replaceAll_cons hd', replaceAll_cons hd, ih, List.cons_append]
  | replaced x ih =>
      rw [List.append_assoc, replaceAll_piece hpiece, replaceAll_piece hpiece, ih,
        List.append_assoc]

/-- A character of the result that was not put in was there before, and divides the text as it
divides the result. -/
theorem exists_of_replaceAll_eq (hpiece : piece ≠ []) (hc : c ∉ image)
    (h : replaceAll piece image text = u ++ c :: w) :
    ∃ x y, text = x ++ c :: y ∧ replaceAll piece image x = u ∧
      replaceAll piece image (x ++ [c]) = u ++ [c] ∧ replaceAll piece image y = w := by
  induction text using piece_induction hpiece generalizing u with
  | nil => exact absurd h (by simp [replaceAll, replaceFrom])
  | plain d rest hd ih =>
      have hpart : ∀ {x y : List Char}, rest = x ++ y → ¬ piece <+: d :: x := by
        rintro x y rfl hx
        exact hd (hx.trans ⟨y, rfl⟩)
      rw [replaceAll_cons hd] at h
      cases u with
      | nil =>
          obtain ⟨rfl, hw⟩ := List.cons.inj h
          exact ⟨[], rest, rfl, rfl, replaceAll_cons (hpart rfl), hw⟩
      | cons e u =>
          obtain ⟨rfl, hrest⟩ := List.cons.inj h
          obtain ⟨x, y, rfl, hx, hxc, hy⟩ := ih hrest
          have hlonger : ¬ piece <+: d :: (x ++ [c]) := hpart (y := y) (by simp)
          refine ⟨d :: x, y, rfl, ?_, ?_, hy⟩
          · rw [replaceAll_cons (hpart rfl), hx]
          · rw [List.cons_append, replaceAll_cons hlonger, hxc, List.cons_append]
  | replaced rest ih =>
      rw [replaceAll_piece hpiece] at h
      have hbehind :
          ∃ inner, u = image ++ inner ∧ replaceAll piece image rest = inner ++ c :: w := by
        rcases List.append_eq_append_iff.1 h with ⟨inner, hu, hinner⟩ | ⟨inner, himage, hinner⟩
        · exact ⟨inner, hu, hinner⟩
        · cases inner with
          | nil => exact ⟨[], by rw [himage, List.append_nil, List.append_nil], hinner.symm⟩
          | cons d inner =>
              obtain ⟨rfl, -⟩ := List.cons.inj hinner
              exact absurd (himage ▸ List.mem_append_right _ List.mem_cons_self) hc
      obtain ⟨inner, rfl, hinner⟩ := hbehind
      obtain ⟨x, y, rfl, hx, hxc, hy⟩ := ih hinner
      refine ⟨piece ++ x, y, by rw [List.append_assoc], ?_, ?_, hy⟩
      · rw [replaceAll_piece hpiece, hx]
      · rw [List.append_assoc, replaceAll_piece hpiece, hxc, List.append_assoc]

/-- Where the piece does not occur nothing is replaced. -/
theorem replaceAll_of_not_infix (h : ¬ piece <:+: text) : replaceAll piece image text = text := by
  induction text with
  | nil => rfl
  | cons c text ih =>
      rw [replaceAll_cons fun hprefix => h hprefix.isInfix, ih (not_infix_tail h)]

/-- A text is not shorter with a longer image in the place of each piece. -/
theorem byteLength_le_replaceAll (hpiece : piece ≠ [])
    (himage : byteLength piece ≤ byteLength image)
    (text : List Char) : byteLength text ≤ byteLength (replaceAll piece image text) := by
  induction text using piece_induction hpiece with
  | nil => exact Nat.zero_le _
  | plain c rest hc ih =>
      rw [replaceAll_cons hc, byteLength_cons, byteLength_cons]
      omega
  | replaced rest ih =>
      rw [replaceAll_piece hpiece, byteLength_append, byteLength_append]
      omega

/-- A text is as long as before only if nothing was replaced by something longer. -/
theorem not_infix_of_byteLength (hpiece : piece ≠ [])
    (himage : byteLength piece < byteLength image)
    (h : byteLength (replaceAll piece image text) = byteLength text) : ¬ piece <:+: text := by
  induction text using piece_induction hpiece with
  | nil => exact fun hinside => hpiece (List.infix_nil.1 hinside)
  | plain c rest hc ih =>
      rw [replaceAll_cons hc, byteLength_cons, byteLength_cons] at h
      exact fun hinside => (List.infix_cons_iff.1 hinside).elim hc (ih (by omega))
  | replaced rest ih =>
      have hrest := byteLength_le_replaceAll hpiece (Nat.le_of_lt himage) rest
      rw [replaceAll_piece hpiece, byteLength_append, byteLength_append] at h
      omega

/-- Characters that are neither replaced nor put in are as many as before. -/
theorem count_replaceAll (hpiece : piece ≠ []) (hc : c ∉ piece) (himage : c ∉ image)
    (text : List Char) : (replaceAll piece image text).count c = text.count c := by
  induction text using piece_induction hpiece with
  | nil => rfl
  | plain d rest hd ih => rw [replaceAll_cons hd, List.count_cons, List.count_cons, ih]
  | replaced rest ih =>
      rw [replaceAll_piece hpiece, List.count_append, List.count_append, ih,
        List.count_eq_zero.2 hc, List.count_eq_zero.2 himage]

/-- Characters that are not put in do not become more. -/
theorem count_replaceAll_le (hpiece : piece ≠ []) (himage : c ∉ image) (text : List Char) :
    (replaceAll piece image text).count c ≤ text.count c := by
  induction text using piece_induction hpiece with
  | nil => exact Nat.le_refl _
  | plain d rest hd ih =>
      rw [replaceAll_cons hd, List.count_cons, List.count_cons]
      omega
  | replaced rest ih =>
      rw [replaceAll_piece hpiece, List.count_append, List.count_append,
        List.count_eq_zero.2 himage]
      omega

/-- They become fewer where a piece that holds them is replaced. -/
theorem not_infix_of_count (hc : c ∈ piece) (himage : c ∉ image)
    (h : (replaceAll piece image text).count c = text.count c) : ¬ piece <:+: text := by
  have hpiece : piece ≠ [] := List.ne_nil_of_mem hc
  induction text using piece_induction hpiece with
  | nil => exact fun hinside => hpiece (List.infix_nil.1 hinside)
  | plain d rest hd ih =>
      rw [replaceAll_cons hd, List.count_cons, List.count_cons] at h
      exact fun hinside => (List.infix_cons_iff.1 hinside).elim hd (ih (by omega))
  | replaced rest ih =>
      have hrest := count_replaceAll_le hpiece himage rest
      have hpos := List.count_pos_iff.2 hc
      rw [replaceAll_piece hpiece, List.count_append, List.count_append,
        List.count_eq_zero.2 himage] at h
      omega

end Text

/-! ## Encoding in parts -/

namespace Markers

variable {m : Markers} {text x y u w : List Char} {c : Char}

/-- The characters of a text with placeholders for wildcards. -/
def encoded (m : Markers) (text : List Char) : List Char :=
  Text.replaceAll m.optional.toList optionalPlaceholder.toList
    (Text.replaceAll m.required.toList requiredPlaceholder.toList text)

theorem toList_encode (m : Markers) (text : String) :
    (m.encode text).toList = m.encoded text.toList := by
  simp only [encode, Text.replaceString, String.toList_ofList, encoded]

theorem optional_toList (m : Markers) : m.optional.toList = [m.marker, m.marker] :=
  String.toList_ofList

theorem required_toList (m : Markers) : m.required.toList = [m.marker, m.marker, m.marker] :=
  String.toList_ofList

theorem optional_ne_nil (m : Markers) : m.optional.toList ≠ [] := by
  rw [optional_toList]
  exact List.cons_ne_nil _ _

theorem required_ne_nil (m : Markers) : m.required.toList ≠ [] := by
  rw [required_toList]
  exact List.cons_ne_nil _ _

/-- A character that is no marker divides a text. -/
theorem encoded_across (hc : c ≠ m.marker) (x y : List Char) :
    m.encoded (x ++ c :: y) = m.encoded x ++ c :: m.encoded y := by
  have hoptional : c ∉ m.optional.toList := by simp [optional_toList, hc]
  have hrequired : c ∉ m.required.toList := by simp [required_toList, hc]
  rw [encoded, Text.replaceAll_across m.required_ne_nil hrequired,
    Text.replaceAll_across m.optional_ne_nil hoptional]
  rfl

/-- A character of the encoded text that no placeholder holds divides the text too. -/
theorem exists_of_encoded_eq (hoptional : c ∉ optionalPlaceholder.toList)
    (hrequired : c ∉ requiredPlaceholder.toList) (h : m.encoded text = u ++ c :: w) :
    ∃ x y, text = x ++ c :: y ∧ m.encoded x = u ∧ m.encoded (x ++ [c]) = u ++ [c] ∧
      m.encoded y = w := by
  obtain ⟨x', y', htext', hx', hxc', hy'⟩ :=
    Text.exists_of_replaceAll_eq m.optional_ne_nil hoptional h
  obtain ⟨x, y, rfl, rfl, hxc, rfl⟩ :=
    Text.exists_of_replaceAll_eq m.required_ne_nil hrequired htext'
  refine ⟨x, y, rfl, hx', ?_, hy'⟩
  rw [encoded, hxc, hxc']

theorem noBreak_placeholder :
    '\n' ∉ optionalPlaceholder.toList ∧ '\n' ∉ requiredPlaceholder.toList := by
  decide

/-- The encoding puts no line feeds in. -/
theorem noBreak_encoded (h : '\n' ∉ text) : '\n' ∉ m.encoded text := by
  intro hmem
  obtain ⟨u, w, hencoded⟩ := List.append_of_mem hmem
  obtain ⟨x, y, rfl, -⟩ := exists_of_encoded_eq noBreak_placeholder.1 noBreak_placeholder.2 hencoded
  exact h (List.mem_append_right _ List.mem_cons_self)

/-- Where line feeds are no markers, the encoding goes line by line. -/
theorem lastLine_encoded (hmarker : m.marker ≠ '\n') (text : List Char) :
    Text.lastLine (m.encoded text) = m.encoded (Text.lastLine text) := by
  rcases Text.exists_lastBreak text with hnone | ⟨before, line, rfl, hline⟩
  · rw [Text.lastLine_of_noBreak hnone, Text.lastLine_of_noBreak (noBreak_encoded hnone)]
  · rw [encoded_across hmarker.symm, Text.lastLine_append_break _ hline,
      Text.lastLine_append_break _ (noBreak_encoded hline)]

theorem lineBreaks_encoded (hmarker : m.marker ≠ '\n') (text : List Char) :
    Text.lineBreaks (m.encoded text) = Text.lineBreaks text := by
  have hoptional : '\n' ∉ m.optional.toList := by simp [optional_toList, hmarker.symm]
  have hrequired : '\n' ∉ m.required.toList := by simp [required_toList, hmarker.symm]
  rw [Text.lineBreaks, encoded,
    Text.count_replaceAll m.optional_ne_nil hoptional noBreak_placeholder.1,
    Text.count_replaceAll m.required_ne_nil hrequired noBreak_placeholder.2]
  rfl

/-- A text without two markers side by side is its own encoding. -/
theorem encoded_of_noPair (h : ¬ m.optional.toList <:+: text) : m.encoded text = text := by
  have hthree : ¬ m.required.toList <:+: text := by
    intro hinside
    refine h (List.IsInfix.trans ?_ hinside)
    rw [optional_toList, required_toList]
    exact ⟨[], [m.marker], rfl⟩
  rw [encoded, Text.replaceAll_of_not_infix hthree, Text.replaceAll_of_not_infix h]

/-- What stands before a place on its line. Line feeds that are markers end no lines. -/
def lineBefore (m : Markers) (place : List Char) : List Char :=
  if m.marker = '\n' then place else Text.lastLine place

/-- With markers of one or two bytes, a line has as many bytes as its encoding, and what comes
after it, only if there are no two markers side by side and nothing comes after it. -/
theorem byteLength_encoded_iff (hsize : m.marker.utf8Size ≤ 2) (line inside : List Char) :
    Text.byteLength (m.encoded line) + Text.byteLength inside = Text.byteLength line ↔
      ¬ m.optional.toList <:+: line ∧ inside = [] := by
  have hoptional : Text.byteLength m.optional.toList <
      Text.byteLength optionalPlaceholder.toList := by
    have hnine : Text.byteLength optionalPlaceholder.toList = 9 := by decide
    simp only [optional_toList, Text.byteLength_cons, Text.byteLength_nil, hnine]
    omega
  have hrequired : Text.byteLength m.required.toList <
      Text.byteLength requiredPlaceholder.toList := by
    have hnine : Text.byteLength requiredPlaceholder.toList = 9 := by decide
    simp only [required_toList, Text.byteLength_cons, Text.byteLength_nil, hnine]
    omega
  have hfirst := Text.byteLength_le_replaceAll m.required_ne_nil (Nat.le_of_lt hrequired) line
  have hsecond := Text.byteLength_le_replaceAll m.optional_ne_nil (Nat.le_of_lt hoptional)
    (Text.replaceAll m.required.toList requiredPlaceholder.toList line)
  constructor
  · intro h
    rw [encoded] at h
    have hthree : ¬ m.required.toList <:+: line :=
      Text.not_infix_of_byteLength m.required_ne_nil hrequired (by omega)
    rw [Text.replaceAll_of_not_infix hthree] at h hsecond
    exact ⟨Text.not_infix_of_byteLength m.optional_ne_nil hoptional (by omega),
      Text.byteLength_eq_zero (by omega)⟩
  · rintro ⟨hpair, rfl⟩
    rw [encoded_of_noPair hpair, Text.byteLength_nil, Nat.add_zero]

end Markers

/-! ## The place of a position -/

/-- A position of an encoded text, told by what stands `before` it, is that of a **place** of the
text: among the places at which the encoding comes apart, it is one whose encoding ends last, but
not behind the position. What stands between is `inside` the encoding of what follows the place. -/
structure PlaceOf (encode : List Char → List Char) (text before place inside : List Char) :
    Prop where
  apart : ∃ rest, text = place ++ rest ∧ encode text = encode place ++ encode rest
  before_eq : before = encode place ++ inside
  last : ∀ p rest, text = p ++ rest → encode text = encode p ++ encode rest →
    encode p <+: before → (encode p).length ≤ (encode place).length

section

variable {encode : List Char → List Char} {text before after place inside : List Char}

/-- Every position of an encoded text has a place. -/
theorem exists_placeOf (hnil : encode [] = []) (before : List Char) (text : List Char) :
    ∃ place inside, PlaceOf encode text before place inside := by
  let places : Set (List Char) := fun p =>
    ∃ rest, text = p ++ rest ∧ encode text = encode p ++ encode rest ∧ encode p <+: before
  have hstart : places [] := ⟨text, rfl, by rw [hnil, List.nil_append], by simp [hnil]⟩
  -- an encoding that ends last leaves least of what stands before the position
  obtain ⟨place, ⟨rest, htext, hencode, hbefore⟩, hleast⟩ :=
    (measure fun p => before.length - (encode p).length).wf.has_min places ⟨[], hstart⟩
  obtain ⟨inside, hinside⟩ := hbefore
  refine ⟨place, inside, ⟨rest, htext, hencode⟩, hinside.symm, fun p rest' hp hp' hprefix => ?_⟩
  have hnot : ¬ before.length - (encode p).length < before.length - (encode place).length :=
    hleast p ⟨rest', hp, hp', hprefix⟩
  have hlength := hprefix.length_le
  have hwithin : (encode place).length ≤ before.length := by simp [← hinside]
  omega

/-- Where the text is parsed as it is, a position is its own place. -/
theorem PlaceOf.eq_of_id (h : PlaceOf id text before place inside)
    (hsource : text = before ++ after) :
    place = before := by
  have hlast := h.last before after hsource hsource (List.prefix_refl _)
  have hbefore := h.before_eq
  simp only [id] at hlast hbefore
  rw [hbefore, List.length_append] at hlast
  rw [hbefore, List.length_eq_zero_iff.1 (by omega : inside.length = 0), List.append_nil]

end

namespace Markers

variable {m : Markers} {text before after place inside : List Char}

/-- What is inside the encoding of something has no line feed, which would end a later place. -/
theorem noBreak_inside (h : PlaceOf m.encoded text before place inside)
    (hsource : m.encoded text = before ++ after) : '\n' ∉ inside := by
  intro hmem
  obtain ⟨u, v, rfl⟩ := List.append_of_mem hmem
  have hbefore := h.before_eq
  have htext : m.encoded text = (m.encoded place ++ u) ++ '\n' :: (v ++ after) := by
    rw [hsource, hbefore]
    simp
  obtain ⟨x, y, rfl, hx, hbreak, hy⟩ :=
    exists_of_encoded_eq noBreak_placeholder.1 noBreak_placeholder.2 htext
  have hlast := h.last (x ++ ['\n']) y (by simp) (by rw [htext, hbreak, hy]; simp)
    (by rw [hbefore, hbreak]; exact ⟨v, by simp⟩)
  rw [hbreak, List.length_append, List.length_append, List.length_singleton] at hlast
  omega

/-- Where line feeds are markers, all lines are kept only if there are no two side by side. -/
theorem noPair_of_lineBreaks (hmarker : m.marker = '\n')
    (h : Text.lineBreaks (m.encoded place) = Text.lineBreaks place) :
    ¬ m.optional.toList <:+: place := by
  have hoptional : '\n' ∈ m.optional.toList := by simp [optional_toList, hmarker]
  have hrequired : '\n' ∈ m.required.toList := by simp [required_toList, hmarker]
  have hfirst := Text.count_replaceAll_le m.required_ne_nil noBreak_placeholder.2 place
  have hsecond := Text.count_replaceAll_le m.optional_ne_nil noBreak_placeholder.1
    (Text.replaceAll m.required.toList requiredPlaceholder.toList place)
  rw [Text.lineBreaks, Text.lineBreaks, encoded] at h
  have hthree : ¬ m.required.toList <:+: place :=
    Text.not_infix_of_count hrequired noBreak_placeholder.2 (by omega)
  rw [Text.replaceAll_of_not_infix hthree] at h
  exact Text.not_infix_of_count hoptional noBreak_placeholder.1 h

/-- **The position of a place**: a position of the encoded text is that of its place just if the
line before the place has as many bytes as its encoding and what is inside after it. -/
theorem position_eq_iff (h : PlaceOf m.encoded text before place inside)
    (hsource : m.encoded text = before ++ after) :
    Position.ofBefore before = Position.ofBefore place ↔
      Text.byteLength (m.encoded (m.lineBefore place)) + Text.byteLength inside =
        Text.byteLength (m.lineBefore place) := by
  have hinside := noBreak_inside h hsource
  rw [Position.ofBefore_eq, Position.ofBefore_eq, h.before_eq, Text.lineBreaks_append _ hinside,
    Text.lastLine_append _ hinside, Text.byteLength_append, Position.mk.injEq, lineBefore]
  by_cases hmarker : m.marker = '\n'
  · have hsize : m.marker.utf8Size ≤ 2 := by
      rw [hmarker]
      decide
    rw [if_pos hmarker, byteLength_encoded_iff hsize]
    constructor
    · rintro ⟨hbreaks, hcolumns⟩
      have hpair := noPair_of_lineBreaks hmarker hbreaks
      rw [encoded_of_noPair hpair] at hcolumns
      exact ⟨hpair, Text.byteLength_eq_zero (by omega)⟩
    · rintro ⟨hpair, rfl⟩
      rw [encoded_of_noPair hpair, Text.byteLength_nil, Nat.add_zero]
      exact ⟨rfl, rfl⟩
  · rw [if_neg hmarker, lineBreaks_encoded hmarker, lastLine_encoded hmarker]
    exact and_iff_right rfl

end Markers

/-! ## The location of a failure -/

/-- A query text as it is parsed, character by character. -/
def Grammar.encodeChars (grammar : Grammar) (text : List Char) : List Char :=
  (grammar.encodeQuery (String.ofList text)).toList

namespace Language

variable {parsers : ParserSet} {markers : Markers} {language : Language}

theorem encodeChars_of_placeholders (h : language.dialect.usesPlaceholders = true) :
    (language.grammar parsers markers).encodeChars = markers.encoded := by
  funext text
  rw [Grammar.encodeChars, grammar]
  dsimp only
  rw [if_pos h, Markers.toList_encode, String.toList_ofList]

theorem encodeChars_of_plain (h : language.dialect.usesPlaceholders = false) :
    (language.grammar parsers markers).encodeChars = id := by
  funext text
  rw [Grammar.encodeChars, grammar]
  dsimp only
  rw [if_neg (Bool.eq_false_iff.1 h), String.toList_ofList, id]

theorem encodeChars_nil : (language.grammar parsers markers).encodeChars [] = [] := by
  cases h : language.dialect.usesPlaceholders with
  | true => rw [encodeChars_of_placeholders h]; rfl
  | false => rw [encodeChars_of_plain h]; rfl

/-- A position of the text that is parsed is that of its place in the query if the language needs
no placeholders, and else as for the encoding. -/
theorem position_eq_iff {text : String} {before after place inside : List Char}
    (hsource : ((language.grammar parsers markers).encodeQuery text).toList = before ++ after)
    (h : PlaceOf (language.grammar parsers markers).encodeChars text.toList before place inside) :
    Position.ofBefore before = Position.ofBefore place ↔
      (language.dialect.usesPlaceholders = true →
        Text.byteLength (markers.encoded (markers.lineBefore place)) + Text.byteLength inside =
          Text.byteLength (markers.lineBefore place)) := by
  have hchars : (language.grammar parsers markers).encodeChars text.toList = before ++ after := by
    rw [Grammar.encodeChars, String.ofList_toList, hsource]
  cases huses : language.dialect.usesPlaceholders with
  | true =>
      rw [encodeChars_of_placeholders huses] at h hchars
      rw [Markers.position_eq_iff h hchars]
      exact ⟨fun hbytes _ => hbytes, fun hbytes => hbytes rfl⟩
  | false =>
      rw [encodeChars_of_plain huses] at h hchars
      rw [h.eq_of_id hchars]
      simp

/-- **The location of a failed query**: a query that is parsed neither as it stands nor wrapped is
reported with the location at which the parser gave up on the text it was given. Every such
position has a place in the query. The reported location is the position of this place in the
query just if the language needs no placeholders for wildcards or if, up to the place, its line
has as many bytes as its encoding and the parser did not give up inside a placeholder. With a
marker of one or two bytes, as the default one, this means that no wildcard stands on the line
before the place, nor at it if the parser gave up inside. -/
theorem location_of_failure {config : MatchSettings} {text : String}
    {first second : ParseFailure} {before after : List Char}
    (hmarkers : config.markers.findInvalid? text = none)
    (hblank : (Text.trim text.toList).isEmpty = false)
    (hplain : (language.grammar parsers config.markers).parse
      ((language.grammar parsers config.markers).encodeQuery text) = .error first)
    (hwrapped : (language.grammar parsers config.markers).parse
      ((language.grammar parsers config.markers).wrap
        ((language.grammar parsers config.markers).encodeQuery text)) = .error second)
    (hsource : ((language.grammar parsers config.markers).encodeQuery text).toList =
      before ++ after)
    (hlocation : first.location = some (Position.ofBefore before).fromOne) :
    ∃ location hints,
      parseQuery (language.grammar parsers config.markers) config text =
        .error (.queryParse first.message location hints) ∧
      (∃ place inside, PlaceOf (language.grammar parsers config.markers).encodeChars text.toList
        before place inside) ∧
      ∀ place inside, PlaceOf (language.grammar parsers config.markers).encodeChars text.toList
          before place inside →
        (location = some (Position.ofBefore place).fromOne ↔
          (language.dialect.usesPlaceholders = true →
            Text.byteLength (config.markers.encoded (config.markers.lineBefore place)) +
                Text.byteLength inside =
              Text.byteLength (config.markers.lineBefore place))) ∧
        (config.markers.marker.utf8Size ≤ 2 →
          (location = some (Position.ofBefore place).fromOne ↔
            (language.dialect.usesPlaceholders = true →
              ¬ config.markers.optional.toList <:+: config.markers.lineBefore place ∧
                inside = []))) := by
  have hfailed := parseQuery_failed hmarkers hblank (parseQueryText_failed hplain hwrapped)
  refine ⟨_, _, hfailed, exists_placeOf encodeChars_nil before text.toList,
    fun place inside hplace => ?_⟩
  have hposition : first.location = some (Position.ofBefore place).fromOne ↔
      (language.dialect.usesPlaceholders = true →
        Text.byteLength (config.markers.encoded (config.markers.lineBefore place)) +
            Text.byteLength inside =
          Text.byteLength (config.markers.lineBefore place)) := by
    rw [hlocation, Option.some_inj, Position.fromOne_inj]
    exact position_eq_iff hsource hplace
  exact ⟨hposition, fun hsize =>
    hposition.trans (imp_congr_right fun _ => Markers.byteLength_encoded_iff hsize _ _)⟩

end Language

/-! ## A missing semicolon -/

/-- A parser that misses a semicolon thirteen bytes behind the start of any text. -/
def missingSemicolon : ParserSet where
  tree _ _ := some (.mk { kind := "compilation_unit", span := lineSpan 0 13 }
    [.mk { kind := ";", span := lineSpan 13 13, isNamed := false, isMissing := true } []])
  types _ := []

/-- What the parser says. -/
def semicolonFailure : ParseFailure := ⟨"missing ;", some ⟨1, 14⟩⟩

theorem parse_missingSemicolon (text : String) :
    Language.cSharp.parse missingSemicolon text = .error semicolonFailure :=
  Converter.convert_eq _ _

theorem encodeQuery_int :
    ((Language.cSharp.grammar missingSemicolon {}).encodeQuery "int $$").toList =
      "int a_x_2_x_a".toList ++ [] := by
  decide +kernel

/-- The place at which the semicolon is missing is the end of the query. -/
theorem placeOf_int : PlaceOf (Language.cSharp.grammar missingSemicolon {}).encodeChars
    "int $$".toList "int a_x_2_x_a".toList "int $$".toList [] where
  apart := ⟨[], rfl, by decide +kernel⟩
  before_eq := by decide +kernel
  last p rest _ _ hprefix := by
    have hlength := hprefix.length_le
    have hend : "int a_x_2_x_a".toList.length = ((Language.cSharp.grammar missingSemicolon
      {}).encodeChars "int $$".toList).length := by decide +kernel
    omega

/-- The location of the missing semicolon is not the end of the query, which has a wildcard on the
line. -/
theorem Language.location_of_failure_missingSemicolon :
    ∃ location hints,
      parseQuery (Language.cSharp.grammar missingSemicolon {}) {} "int $$" =
        .error (.queryParse "missing ;" location hints) ∧
      location ≠ some (Position.ofBefore "int $$".toList).fromOne := by
  obtain ⟨location, hints, hquery, -, hplaces⟩ :=
    @Language.location_of_failure missingSemicolon .cSharp {} "int $$" semicolonFailure
      semicolonFailure "int a_x_2_x_a".toList [] (by decide +kernel) (by decide +kernel)
      (parse_missingSemicolon _) (parse_missingSemicolon _) encodeQuery_int (by decide +kernel)
  refine ⟨location, hints, hquery, fun hlocation => ?_⟩
  have hnone := (((hplaces _ _ placeOf_int).2 (by decide +kernel)).1 hlocation rfl).1
  have hpair : ({} : Markers).optional.toList <:+: ({} : Markers).lineBefore "int $$".toList := by
    decide +kernel
  exact hnone hpair

/-- Locations are positions of the text that was parsed, and not of the query. -/
theorem location_misses_place :
    ¬ ∀ (language : Language) (parsers : ParserSet) (text : String)
        (first second : ParseFailure) (before after place inside : List Char),
      ({} : MatchSettings).markers.findInvalid? text = none →
      (Text.trim text.toList).isEmpty = false →
      (language.grammar parsers {}).parse ((language.grammar parsers {}).encodeQuery text) =
        .error first →
      (language.grammar parsers {}).parse ((language.grammar parsers {}).wrap
        ((language.grammar parsers {}).encodeQuery text)) = .error second →
      ((language.grammar parsers {}).encodeQuery text).toList = before ++ after →
      first.location = some (Position.ofBefore before).fromOne →
      PlaceOf (language.grammar parsers {}).encodeChars text.toList before place inside →
      ∃ hints, parseQuery (language.grammar parsers {}) {} text =
        .error (.queryParse first.message (some (Position.ofBefore place).fromOne) hints) := by
  intro h
  obtain ⟨hints, hquery⟩ := h .cSharp missingSemicolon "int $$" semicolonFailure semicolonFailure
    "int a_x_2_x_a".toList [] "int $$".toList [] (by decide +kernel) (by decide +kernel)
    (parse_missingSemicolon _) (parse_missingSemicolon _) encodeQuery_int (by decide +kernel)
    placeOf_int
  have hparse : (Language.cSharp.grammar missingSemicolon {}).parseQueryText "int $$" =
      .error semicolonFailure :=
    parseQueryText_failed (parse_missingSemicolon _) (parse_missingSemicolon _)
  have hfailed := hquery.symm.trans (parseQuery_failed (by decide +kernel) (by decide +kernel)
    hparse)
  injection hfailed with herror
  injection herror with _ hlocation _
  exact absurd hlocation (by decide +kernel)

end CodeSearch
