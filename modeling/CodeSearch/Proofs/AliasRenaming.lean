import CodeSearch.Proofs.Growth
import CodeSearch.Proofs.WildcardSpellings
import Mathlib.Logic.Equiv.Basic

/-!
# Renaming aliases

A renaming gives each alias another name, and no two aliases the same one. A text with renamed
aliases has its wildcards where they were, so it denotes the same pattern but for the names. And a
pattern uses a name for nothing but to look up what it stands for: from bindings in which the
aliases are renamed, the renamed pattern matches what the pattern matched, and ends with such
bindings.
-/

set_option autoImplicit false

namespace CodeSearch

/-- A **renaming** gives each alias another name, and no two aliases the same. -/
structure AliasRenaming where
  toFun : String → String
  isAliasName : ∀ name, IsAliasName name.toList → IsAliasName (toFun name).toList
  injective : ∀ left right, IsAliasName left.toList → IsAliasName right.toList →
    toFun left = toFun right → left = right

namespace AliasRenaming

instance : CoeFun AliasRenaming fun _ => String → String := ⟨toFun⟩

/-- Two names change places. -/
def swap (left right : String) (hleft : IsAliasName left.toList)
    (hright : IsAliasName right.toList) : AliasRenaming where
  toFun := Equiv.swap left right
  isAliasName name hname := by
    rw [Equiv.swap_apply_def]
    split
    next => exact hright
    next =>
      split
      next => exact hleft
      next => exact hname
  injective _ _ _ _ h := (Equiv.swap left right).injective h

variable (ρ : AliasRenaming)

/-- The new name of an alias, by its characters. -/
def chars (name : List Char) : List Char := (ρ (String.ofList name)).toList

theorem isAliasName_chars {name : List Char} (h : IsAliasName name) :
    IsAliasName (ρ.chars name) :=
  ρ.isAliasName _ (by rwa [String.toList_ofList])

theorem ofList_chars (name : List Char) :
    String.ofList (ρ.chars name) = ρ (String.ofList name) := by
  rw [chars, String.ofList_toList]

/-! ## Texts -/

/-- The alias of a wildcard of a text, with its new name. -/
def aliasOf (text : List Char) (o : Occurrence) : List Char :=
  match o.aliasName with
  | some name => '_' :: (ρ.chars name ++ segment text (o.runStop + 1 + name.length) o.stop)
  | none => []

/-- The text from place `cursor` on with new names in the aliases of the given wildcards. -/
def textFrom (text : List Char) (cursor : Nat) : List Occurrence → List Char
  | [] => text.drop cursor
  | o :: rest => segment text cursor o.runStop ++ (ρ.aliasOf text o ++ textFrom text o.stop rest)

/-- The text with new names in the aliases of its wildcards. -/
def text (m : Markers) (text : String) : String :=
  String.ofList (ρ.textFrom text.toList 0 (m.scan text.toList))

variable {ρ} {m : Markers}

theorem aliasOf_write (front : List Char) (s : Slot) (back : List Char) (start : Nat)
    (hstart : front.length = start + s.width) :
    ρ.aliasOf (front ++ (s.aliasText ++ back)) (s.occurrence start) =
      (s.rename ρ.chars).aliasText := by
  obtain ⟨width, written?, literal⟩ := s
  cases written? with
  | none => rfl
  | some a =>
      have htext : front ++ (a.text ++ back) = (front ++ '_' :: a.name) ++ (a.closing ++ back) := by
        rw [WrittenAlias.text, List.cons_append, List.append_assoc, List.append_assoc,
          List.cons_append]
      have hname : start + width + 1 + a.name.length = (front ++ '_' :: a.name).length := by
        have hwidth : front.length = start + width := hstart
        rw [List.length_append, List.length_cons, hwidth]
        omega
      have hstop : start + (width + a.text.length) =
          (front ++ '_' :: a.name).length + a.closing.length := by
        rw [WrittenAlias.text, List.length_cons, List.length_append, ← hname]
        omega
      have hclosing : segment (front ++ (a.text ++ back)) (start + width + 1 + a.name.length)
          (start + (width + a.text.length)) = a.closing := by
        rw [htext, hname, hstop, Markers.segment_middle]
      exact congrArg (fun closing => '_' :: (ρ.chars a.name ++ closing)) hclosing

theorem textFrom_write (front literal : List Char) (slots : List Slot) :
    ρ.textFrom (front ++ (literal ++ m.write slots)) front.length
        (Slot.occurrencesFrom (front.length + literal.length) slots) =
      literal ++ m.write (slots.map (Slot.rename ρ.chars)) := by
  induction slots generalizing front literal with
  | nil => rw [Slot.occurrencesFrom, textFrom, List.drop_left]; rfl
  | cons s rest ih =>
      have halias := aliasOf_write (ρ := ρ)
        (front ++ (literal ++ List.replicate s.width m.marker)) s (s.literal ++ m.write rest)
        (front.length + literal.length) (by
          simp only [List.length_append, List.length_replicate]
          omega)
      have hwhole : front ++ (literal ++ m.write (s :: rest)) =
          front ++ (literal ++ List.replicate s.width m.marker) ++
            (s.aliasText ++ (s.literal ++ m.write rest)) := by
        simp only [Markers.write, List.append_assoc]
      rw [Slot.occurrencesFrom, textFrom, Markers.segment_run, hwhole, halias, ← hwhole,
        Markers.append_write_cons, Markers.stop_occurrence, ih]
      simp only [List.map_cons, Markers.write, List.append_assoc]
      rfl

/-- **A text and the renamed text** have spellings that differ in the names of the aliases alone. -/
theorem exists_spellings (ρ : AliasRenaming) (hm : m.StandsApart) (text : String) :
    ∃ literal slots, m.Spells literal slots ∧ text.toList = literal ++ m.write slots ∧
      m.Spells literal (slots.map (Slot.rename ρ.chars)) ∧
      (ρ.text m text).toList = literal ++ m.write (slots.map (Slot.rename ρ.chars)) := by
  obtain ⟨literal, slots, hspells, htext⟩ := m.exists_spells text.toList
  refine ⟨literal, slots, hspells, htext, hspells.rename hm fun _ => ρ.isAliasName_chars, ?_⟩
  have hrenamed := textFrom_write (ρ := ρ) (m := m) [] literal slots
  rw [List.nil_append, List.length_nil, Nat.zero_add] at hrenamed
  rw [AliasRenaming.text, String.toList_ofList, htext, hspells.scan_eq hm, hrenamed]

theorem hasWildcard_text (hm : m.StandsApart) (text : String) :
    m.hasWildcard (ρ.text m text) = m.hasWildcard text := by
  obtain ⟨literal, slots, hspells, htext, hspells', htext'⟩ := ρ.exists_spellings hm text
  rw [Markers.hasWildcard, Markers.hasWildcard, htext, htext', hspells.scan_eq hm,
    hspells'.scan_eq hm]
  cases slots <;> rfl

theorem text_of_not_hasWildcard {text : String} (h : m.hasWildcard text = false) :
    ρ.text m text = text := by
  have hscan : m.scan text.toList = [] := by simpa [Markers.hasWildcard] using h
  rw [AliasRenaming.text, hscan]
  exact String.ofList_toList

theorem isNodeTree_text (hm : m.StandsApart) (text : String) :
    m.isNodeTree (ρ.text m text) = m.isNodeTree text := by
  obtain ⟨literal, slots, hspells, htext, hspells', htext'⟩ := ρ.exists_spellings hm text
  rw [Markers.isNodeTree, Markers.isNodeTree, hspells.stripAliases_eq hm htext,
    hspells'.stripAliases_eq hm htext', List.map_map]
  rfl

theorem literalLength_text (hm : m.StandsApart) (text : String) :
    m.literalLength (ρ.text m text) = m.literalLength text := by
  obtain ⟨literal, slots, hspells, htext, hspells', htext'⟩ := ρ.exists_spellings hm text
  rw [Markers.literalLength, Markers.literalLength, hspells.fragments_eq hm htext,
    hspells'.fragments_eq hm htext', List.map_map]
  rfl

/-- The first alias of a text is renamed. -/
theorem firstAlias_text (hm : m.StandsApart) (text : String) (context : WildcardContext) :
    Option.Rel (fun name other => IsAliasName name.toList ∧ other = ρ name)
      ((m.classify text context).findSome? Wildcard.aliasName)
      ((m.classify (ρ.text m text) context).findSome? Wildcard.aliasName) := by
  obtain ⟨literal, slots, hspells, htext, hspells', htext'⟩ := ρ.exists_spellings hm text
  have hfirst : (slots.map (Slot.rename ρ.chars)).findSome? Slot.aliasName =
      (slots.findSome? Slot.aliasName).map ρ.chars := by
    rw [List.findSome?_map]
    clear hspells hspells' htext htext'
    induction slots with
    | nil => rfl
    | cons s rest ih =>
        rw [List.findSome?_cons, List.findSome?_cons, Function.comp, Slot.aliasName_rename]
        cases s.aliasName with
        | none => exact ih
        | some name => rfl
  rw [hspells.findSome?_classify hm htext, hspells'.findSome?_classify hm htext', hfirst]
  cases hname : slots.findSome? Slot.aliasName with
  | none => exact .none
  | some name =>
      obtain ⟨s, hs, hsname⟩ := List.exists_of_findSome?_eq_some hname
      refine .some ⟨?_, ρ.ofList_chars name⟩
      rw [String.toList_ofList]
      exact hspells.isAliasName s hs name hsname

end AliasRenaming

/-! ## Patterns -/

/-- The gap with another name for its alias. -/
def Gap.rename (f : List Char → List Char) (gap : Gap) : Gap :=
  { gap with aliasName := gap.aliasName.map f }

/-- The capture under the new name of its alias. -/
def Capture.rename (ρ : AliasRenaming) (capture : Capture) : Capture :=
  { capture with aliasName := ρ capture.aliasName }

theorem Capture.aliasName_rename (ρ : AliasRenaming) (capture : Capture) :
    (capture.rename ρ).aliasName = ρ capture.aliasName := rfl

theorem Capture.text_rename (ρ : AliasRenaming) (capture : Capture) :
    (capture.rename ρ).text = capture.text := rfl

namespace Pattern

variable {ρ : AliasRenaming} {m : Markers}

/-- A renamed text denotes the same pattern but for the names. -/
theorem ofText_rename (ρ : AliasRenaming) (hm : m.StandsApart) (text : String) :
    ofText m (ρ.text m text) =
        ⟨(ofText m text).head, (ofText m text).gaps.map (Gap.rename ρ.chars)⟩ ∧
      ∀ gap ∈ (ofText m text).gaps, ∀ name ∈ gap.aliasName, IsAliasName name := by
  obtain ⟨literal, slots, hspells, htext, hspells', htext'⟩ := ρ.exists_spellings hm text
  have hgap : ∀ s : Slot, (s.rename ρ.chars).gap = s.gap.rename ρ.chars := fun s =>
    congrArg (Gap.mk _ · s.literal) (s.aliasName_rename ρ.chars)
  rw [hspells.ofText_eq hm htext, hspells'.ofText_eq hm htext', List.map_map, List.map_map]
  refine ⟨?_, fun gap hgap name hname => ?_⟩
  · exact congrArg (Pattern.mk literal) (List.map_congr_left fun s _ => hgap s)
  · obtain ⟨s, hs, rfl⟩ := List.mem_map.1 hgap
    exact hspells.isAliasName s hs name hname

/-- Names do not matter to how gaps are filled. -/
theorem fill?_rename (f : List Char → List Char) (ignoreCase : Bool) (gaps : List Gap)
    (text : List Char) :
    fill? ignoreCase (gaps.map (Gap.rename f)) text = fill? ignoreCase gaps text := by
  induction gaps generalizing text with
  | nil => rfl
  | cons gap gaps ih =>
      cases gaps with
      | nil => rfl
      | cons next gaps =>
          rw [List.map_cons] at ih
          rw [List.map_cons, List.map_cons, fill?, fill?]
          simp only [ih]
          rfl

theorem capturesFrom_rename (index : Nat) (gaps : List Gap) (fillers : List (List Char)) :
    capturesFrom index (gaps.map (Gap.rename ρ.chars)) fillers =
      (capturesFrom index gaps fillers).map (Capture.rename ρ) := by
  induction gaps generalizing index fillers with
  | nil => rfl
  | cons gap gaps ih =>
      cases fillers with
      | nil => rfl
      | cons filler fillers =>
          rw [List.map_cons, capturesFrom, capturesFrom, ih]
          cases hname : gap.aliasName with
          | none => simp [Gap.rename, hname]
          | some name => simp [Gap.rename, Capture.rename, hname, ρ.ofList_chars]

theorem isAliasName_of_mem_capturesFrom {index : Nat} {gaps : List Gap} {fillers : List (List Char)}
    (hnames : ∀ gap ∈ gaps, ∀ name ∈ gap.aliasName, IsAliasName name) :
    ∀ capture ∈ capturesFrom index gaps fillers, IsAliasName capture.aliasName.toList := by
  induction gaps generalizing index fillers with
  | nil => exact fun _ hcapture => absurd hcapture List.not_mem_nil
  | cons gap gaps ih =>
      cases fillers with
      | nil => exact fun _ hcapture => absurd hcapture List.not_mem_nil
      | cons filler fillers =>
          obtain ⟨hgap, hgaps⟩ := List.forall_mem_cons.1 hnames
          rw [capturesFrom]
          cases hname : gap.aliasName with
          | none => exact ih hgaps
          | some name =>
              refine List.forall_mem_cons.2 ⟨?_, ih hgaps⟩
              rw [String.toList_ofList]
              exact hgap name hname

/-- **The captures of a renamed text** are those of the text under the new names. -/
theorem captures?_rename (ρ : AliasRenaming) (hm : m.StandsApart) (text : String)
    (ignoreCase : Bool) (value : String) :
    Option.Rel (fun captures renamed => renamed = captures.map (Capture.rename ρ) ∧
        ∀ capture ∈ captures, IsAliasName capture.aliasName.toList)
      ((ofText m text).captures? ignoreCase value)
      ((ofText m (ρ.text m text)).captures? ignoreCase value) := by
  obtain ⟨hpattern, hnames⟩ := ofText_rename ρ hm text
  rw [hpattern, captures?, captures?, fillers?, fillers?]
  dsimp only
  rw [funext (fill?_rename ρ.chars ignoreCase (ofText m text).gaps)]
  cases (dropLiteral? ignoreCase (ofText m text).head value.toList).bind
      (fill? ignoreCase (ofText m text).gaps) with
  | none => exact .none
  | some fillers =>
      exact .some ⟨capturesFrom_rename 0 _ fillers, isAliasName_of_mem_capturesFrom hnames⟩

end Pattern

/-! ## Bindings -/

/-- Aliases are **renamed** from one map to another if both bind the same to them, the second under
the new names, and nothing else. -/
structure AliasMap.Renamed (ρ : AliasRenaming) (entries others : AliasMap) : Prop where
  lookup : ∀ name, IsAliasName name.toList → others.lookup (ρ name) = entries.lookup name
  isAliasName : ∀ name, (entries.lookup name).isSome = true → IsAliasName name.toList
  exists_former : ∀ name, (others.lookup name).isSome = true →
    ∃ former, IsAliasName former.toList ∧ ρ former = name

/-- Aliases are renamed from some bindings to others if they are so from map to map. -/
structure Bindings.Renamed (ρ : AliasRenaming) (b c : Bindings) : Prop where
  identifier : b.identifier.Renamed ρ c.identifier
  string : b.string.Renamed ρ c.string
  nodeTree : b.nodeTree.Renamed ρ c.nodeTree

namespace AliasMap.Renamed

variable {ρ : AliasRenaming} {entries others : AliasMap}

theorem empty : Renamed ρ [] [] where
  lookup _ _ := rfl
  isAliasName _ h := by simp at h
  exists_former _ h := by simp at h

/-- An alias may be bound on both sides. -/
theorem insert (h : entries.Renamed ρ others) {name : String} (hname : IsAliasName name.toList)
    (binding : Binding) :
    (AliasMap.insert name binding entries).Renamed ρ (AliasMap.insert (ρ name) binding others) where
  lookup other hother := by
    rw [lookup_insert, lookup_insert, h.lookup other hother]
    by_cases heq : other = name
    · rw [if_pos heq, if_pos (congrArg ρ.toFun heq)]
    · rw [if_neg heq, if_neg fun hsame => heq (ρ.injective other name hother hname hsame)]
  isAliasName other hother := by
    rw [lookup_insert] at hother
    split at hother
    next heq => exact heq ▸ hname
    next => exact h.isAliasName other hother
  exists_former other hother := by
    rw [lookup_insert] at hother
    split at hother
    next heq => exact ⟨name, hname, heq.symm⟩
    next => exact h.exists_former other hother

end AliasMap.Renamed

namespace Bindings.Renamed

variable {ρ : AliasRenaming} {b c : Bindings} {m : Markers}

theorem empty : Renamed ρ .empty .empty := ⟨.empty, .empty, .empty⟩

theorem bind (h : b.Renamed ρ c) (kind : WildcardKind) {name : String}
    (hname : IsAliasName name.toList) (binding : Binding) :
    (b.bind kind name binding).Renamed ρ (c.bind kind (ρ name) binding) := by
  cases kind with
  | identifier => exact ⟨h.identifier.insert hname binding, h.string, h.nodeTree⟩
  | string => exact ⟨h.identifier, h.string.insert hname binding, h.nodeTree⟩
  | nodeTree => exact ⟨h.identifier, h.string, h.nodeTree.insert hname binding⟩

theorem text? (h : b.Renamed ρ c) {name : String} (hname : IsAliasName name.toList) :
    c.text? (ρ name) = b.text? name := by
  rw [Bindings.text?, Bindings.text?, textual?, textual?, h.identifier.lookup name hname,
    h.string.lookup name hname]

/-- Texts that are found under some names are found under the new ones. -/
theorem lookup_rename {found : List (String × String)}
    (hfound : ∀ entry ∈ found, IsAliasName entry.1.toList) {name : String}
    (hname : IsAliasName name.toList) :
    (found.map fun entry => (ρ entry.1, entry.2)).lookup (ρ name) = found.lookup name := by
  induction found with
  | nil => rfl
  | cons entry rest ih =>
      obtain ⟨hentry, hrest⟩ := List.forall_mem_cons.1 hfound
      have hsame : (ρ name == ρ entry.1) = (name == entry.1) := by
        rw [Bool.eq_iff_iff, beq_iff_eq, beq_iff_eq]
        exact ⟨ρ.injective name entry.1 hname hentry, congrArg ρ.toFun⟩
      rw [List.map_cons, List.lookup_cons, List.lookup_cons, hsame, ih hrest]

/-- Captures that are new are new under their new names. -/
theorem fresh? (h : b.Renamed ρ c) (ignoreCase : Bool) {captures : List Capture}
    (hcaptures : ∀ capture ∈ captures, IsAliasName capture.aliasName.toList)
    {found : List (String × String)} (hfound : ∀ entry ∈ found, IsAliasName entry.1.toList) :
    Option.Rel (fun fresh renamed => renamed = fresh.map (fun entry => (ρ entry.1, entry.2)) ∧
        ∀ entry ∈ fresh, IsAliasName entry.1.toList)
      (b.fresh? ignoreCase captures found)
      (c.fresh? ignoreCase (captures.map (Capture.rename ρ))
        (found.map fun entry => (ρ entry.1, entry.2))) := by
  induction captures generalizing found with
  | nil => exact .some ⟨rfl, hfound⟩
  | cons capture rest ih =>
      obtain ⟨hcapture, hrest⟩ := List.forall_mem_cons.1 hcaptures
      rw [List.map_cons, fresh?_cons, fresh?_cons, Capture.aliasName_rename, Capture.text_rename,
        h.text? hcapture, lookup_rename hfound hcapture]
      cases (b.text? capture.aliasName).or (found.lookup capture.aliasName) with
      | some bound =>
          dsimp only
          split
          next => exact ih hrest hfound
          next => exact .none
      | none =>
          have hlonger : ∀ entry ∈ found ++ [(capture.aliasName, capture.text)],
              IsAliasName entry.1.toList := by
            intro entry hentry
            rcases List.mem_append.1 hentry with hentry | hentry
            · exact hfound entry hentry
            · rw [List.mem_singleton.1 hentry]
              exact hcapture
          have hnext := ih hrest hlonger
          rw [List.map_append] at hnext
          exact hnext

theorem bindTexts (h : b.Renamed ρ c) (kind : WildcardKind) {texts : List (String × String)}
    (htexts : ∀ entry ∈ texts, IsAliasName entry.1.toList) :
    (b.bindTexts kind texts).Renamed ρ
      (c.bindTexts kind (texts.map fun entry => (ρ entry.1, entry.2))) := by
  induction texts generalizing b c with
  | nil => exact h
  | cons entry rest ih =>
      obtain ⟨hentry, hrest⟩ := List.forall_mem_cons.1 htexts
      exact ih (h.bind kind hentry ⟨entry.2, none⟩) hrest

/-- **A renamed text matches what the text matches.** -/
theorem matchText? (h : b.Renamed ρ c) (hm : m.StandsApart) (ignoreCase : Bool)
    (pattern value : String) (kind : WildcardKind) :
    Option.Rel (Renamed ρ) (b.matchText? ignoreCase (.ofText m pattern) value kind)
      (c.matchText? ignoreCase (.ofText m (ρ.text m pattern)) value kind) := by
  have hcaptures := Pattern.captures?_rename ρ hm pattern ignoreCase value
  rw [Bindings.matchText?, Bindings.matchText?]
  generalize (Pattern.ofText m pattern).captures? ignoreCase value = left at hcaptures ⊢
  generalize (Pattern.ofText m (ρ.text m pattern)).captures? ignoreCase value = right
    at hcaptures ⊢
  cases hcaptures with
  | none => exact .none
  | some hcaptures =>
      obtain ⟨rfl, hnames⟩ := hcaptures
      have hnone : ∀ entry ∈ ([] : List (String × String)), IsAliasName entry.1.toList := by simp
      have hfresh := h.fresh? ignoreCase hnames hnone
      simp only [Option.bind_eq_bind, Option.bind_some]
      rw [List.map_nil] at hfresh
      generalize b.fresh? ignoreCase _ [] = left at hfresh ⊢
      generalize c.fresh? ignoreCase _ [] = right at hfresh ⊢
      cases hfresh with
      | none => exact .none
      | some hfresh =>
          obtain ⟨rfl, hentries⟩ := hfresh
          exact .some (h.bindTexts kind hentries)

/-- A renamed node-tree alias agrees with the nodes that the alias agrees with. -/
theorem matchNode? (h : b.Renamed ρ c) {name : String} (hname : IsAliasName name.toList)
    (code : String) (n : Node) :
    Option.Rel (Renamed ρ) (b.matchNode? name code n) (c.matchNode? (ρ name) code n) := by
  rw [Bindings.matchNode?, Bindings.matchNode?, h.nodeTree.lookup name hname]
  cases (b.nodeTree.lookup name).bind Binding.node with
  | none => exact .some (h.bind .nodeTree hname ⟨code, some n⟩)
  | some bound =>
      dsimp only
      split
      next => exact .some h
      next => exact .none

end Bindings.Renamed

end CodeSearch
