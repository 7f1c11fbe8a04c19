import CodeSearch.Proofs.Fillings
import CodeSearch.Proofs.Locality

/-!
# Repeated aliases

All wildcards with one alias stand for the same text, and one whose alias is bound for the bound
text. A pattern is matched without regard to this, and the one decomposition of the value that is
found is checked afterwards. So a match succeeds just if the *first* decomposition of the value
meets what the aliases ask for (`matchText?_ofText`).

Other decompositions are not tried. `$$_a_-$$_a_` does not match `a-b-a-b`, although `a-b` on both
sides of the second `-` would do: the first decomposition has `a` in front of the first one
(`matchText?_misses_later`).
-/

set_option autoImplicit false

namespace CodeSearch

namespace Bindings

/-- Captures **meet** what aliases ask for: those of one alias have one text, and those of a bound
alias the text that it is bound to. -/
structure Meets (b : Bindings) (captures : List Capture) : Prop where
  bound : ∀ capture ∈ captures, ∀ text, b.text? capture.aliasName = some text → text = capture.text
  same : ∀ capture ∈ captures, ∀ other ∈ captures,
    capture.aliasName = other.aliasName → capture.text = other.text

variable {b : Bindings} {captures : List Capture}

/-- Captures that agree with what is found before them, and with each other, are all taken. -/
theorem exists_fresh? {found : List (String × String)}
    (hbound : ∀ capture ∈ captures, ∀ text,
      (b.text? capture.aliasName).or (found.lookup capture.aliasName) = some text →
        text = capture.text)
    (hsame : captures.Pairwise fun capture other =>
      capture.aliasName = other.aliasName → capture.text = other.text) :
    ∃ fresh, b.fresh? false captures found = some fresh := by
  induction captures generalizing found with
  | nil => exact ⟨found, rfl⟩
  | cons capture rest ih =>
      obtain ⟨hhead, hrest⟩ := List.forall_mem_cons.1 hbound
      obtain ⟨hsamehead, hsamerest⟩ := List.pairwise_cons.1 hsame
      rw [fresh?_cons]
      cases hknown : (b.text? capture.aliasName).or (found.lookup capture.aliasName) with
      | some text =>
          have htext : Text.sameText false text capture.text = true :=
            Text.sameText_false.2 (hhead text hknown)
          simp only [htext, if_true]
          exact ih hrest hsamerest
      | none =>
          obtain ⟨hfree, hlookup⟩ := Option.or_eq_none_iff.1 hknown
          refine ih (fun other hother text htext => ?_) hsamerest
          by_cases hname : capture.aliasName = other.aliasName
          · -- the alias has just got the text of this capture
            rw [← hname, hfree, Option.none_or, List.lookup_append, hlookup] at htext
            obtain rfl : capture.text = text := by simpa using htext
            exact hsamehead other hother hname
          · refine hrest other hother text ?_
            have hne : (other.aliasName == capture.aliasName) = false :=
              beq_false_of_ne (Ne.symm hname)
            simpa [List.lookup_append, List.lookup_cons, hne] using htext

/-- What is new is found just if the captures meet what the aliases ask for. -/
theorem exists_fresh?_iff_meets :
    (∃ fresh, b.fresh? false captures [] = some fresh) ↔ b.Meets captures := by
  constructor
  · rintro ⟨fresh, hfresh⟩
    obtain ⟨hnew, -, -, hagree⟩ := fresh?_eq_some hfresh (by simp) (by simp)
    have htext : ∀ capture ∈ captures,
        (fresh.lookup capture.aliasName).or (b.text? capture.aliasName) = some capture.text := by
      intro capture hcapture
      obtain ⟨bound, hbound, hsame⟩ := hagree capture hcapture
      rw [hbound, Text.sameText_false.1 hsame]
    refine ⟨fun capture hcapture text hbound => ?_, fun capture hcapture other hother hname => ?_⟩
    · have h := htext capture hcapture
      rw [lookup_eq_none_of_new hnew hbound, Option.none_or, hbound] at h
      exact Option.some.inj h
    · have h := htext capture hcapture
      rw [hname, htext other hother] at h
      exact (Option.some.inj h).symm
  · intro h
    refine exists_fresh? (fun capture hcapture text htext => ?_) ?_
    · rw [List.lookup_nil, Option.or_none] at htext
      exact h.bound capture hcapture text htext
    · exact List.pairwise_of_forall_mem_list fun capture hcapture other hother =>
        h.same capture hcapture other hother

/-- A pattern that matches binds its aliases to what they capture, and nothing else. -/
theorem text?_of_matchText? {c : Bindings} {pattern : Pattern} {value : String}
    {kind : WildcardKind} (hkind : kind ≠ .nodeTree)
    (hcaptures : pattern.captures? false value = some captures)
    (h : b.matchText? false pattern value kind = some c) :
    (∀ capture ∈ captures, c.text? capture.aliasName = some capture.text) ∧
      ∀ name, (∀ capture ∈ captures, capture.aliasName ≠ name) → c.text? name = b.text? name := by
  obtain ⟨captures', hcaptures', h⟩ := Option.bind_eq_some_iff.1 h
  obtain rfl := Option.some.inj (hcaptures.symm.trans hcaptures')
  obtain ⟨fresh, hfresh, h⟩ := Option.bind_eq_some_iff.1 h
  obtain rfl : b.bindTexts kind fresh = c := Option.some.inj h
  obtain ⟨hnew, hdistinct, -, hagree⟩ := fresh?_eq_some hfresh (by simp) (by simp)
  refine ⟨fun capture hcapture => ?_, fun name hother => ?_⟩
  · obtain ⟨bound, hbound, hsame⟩ := hagree capture hcapture
    rw [text?_bindTexts hkind hnew hdistinct, hbound, Text.sameText_false.1 hsame]
  · have hlookup : fresh.lookup name = none := by
      rw [List.lookup_eq_none_iff]
      intro entry hentry
      rw [bne_iff_ne]
      rintro rfl
      rcases aliasName_mem_of_fresh? hfresh hentry with hnil | ⟨capture, hcapture, heq⟩
      · exact List.not_mem_nil hnil
      · exact hother capture hcapture heq
    rw [text?_bindTexts hkind hnew hdistinct, hlookup, Option.none_or]

/-- **Matching a text with repeated aliases**, letter case counting. It succeeds just if the first
decomposition of the value meets what the aliases ask for. Then each alias stands for the filler of
its wildcards, and everything else stands for what it did. If it fails, nothing is bound. -/
theorem matchText?_ofText (b : Bindings) (m : Markers) (text value : String) {kind : WildcardKind}
    (hkind : kind ≠ .nodeTree) :
    ((b.matchText? false (.ofText m text) value kind).isSome = true ↔
        ∃ fillers, m.DecomposesFirst text value fillers ∧ b.Meets (m.capturesOf text fillers)) ∧
      (∀ c, b.matchText? false (.ofText m text) value kind = some c →
        ∃ fillers, m.DecomposesFirst text value fillers ∧
          (∀ capture ∈ m.capturesOf text fillers,
            c.text? capture.aliasName = some capture.text) ∧
          (∀ name, (∀ capture ∈ m.capturesOf text fillers, capture.aliasName ≠ name) →
            c.text? name = b.text? name) ∧
          ∀ name, c.tree? name = b.tree? name) ∧
      ((b.matchText? false (.ofText m text) value kind).isSome = false →
        (b.matchText? false (.ofText m text) value kind).getD b = b) := by
  refine ⟨⟨fun h => ?_, ?_⟩, fun c h => ?_, fun h => ?_⟩
  · obtain ⟨c, hc⟩ := Option.isSome_iff_exists.1 h
    obtain ⟨captures, hcaptures, hc⟩ := Option.bind_eq_some_iff.1 hc
    obtain ⟨fresh, hfresh, -⟩ := Option.bind_eq_some_iff.1 hc
    obtain ⟨fillers, hfirst, rfl⟩ := Pattern.captures?_eq_some_iff.1 hcaptures
    exact ⟨fillers, hfirst, exists_fresh?_iff_meets.1 ⟨fresh, hfresh⟩⟩
  · rintro ⟨fillers, hfirst, hmeets⟩
    obtain ⟨fresh, hfresh⟩ := exists_fresh?_iff_meets.2 hmeets
    have hcaptures := Pattern.captures?_eq_some_iff.2 ⟨fillers, hfirst, rfl⟩
    rw [(text?_matchText? hkind hcaptures hfresh).1]
    rfl
  · obtain ⟨-, htree, captures, hcaptures, -⟩ := matchText?_eq_some hkind h
    obtain ⟨htext, hothers⟩ := text?_of_matchText? hkind hcaptures h
    obtain ⟨fillers, hfirst, rfl⟩ := Pattern.captures?_eq_some_iff.1 hcaptures
    exact ⟨fillers, hfirst, htext, hothers, htree⟩
  · rw [Option.isSome_eq_false_iff, Option.isNone_iff_eq_none] at h
    rw [h]
    rfl

/-- In `x-x` both wildcards of `$$_a_-$$_a_` are filled with `x`. -/
theorem matchText?_ofText_twice : WildcardKind.identifier ≠ .nodeTree ∧
    ∃ fillers, Markers.DecomposesFirst {} "$$_a_-$$_a_" "x-x" fillers ∧
      empty.Meets (Markers.capturesOf {} "$$_a_-$$_a_" fillers) :=
  ⟨by decide,
    (matchText?_ofText empty {} "$$_a_-$$_a_" "x-x" (by decide : .identifier ≠ _)).1.1 rfl⟩

/-- **Later decompositions are not tried**: `a-b` fills both wildcards of `$$_a_-$$_a_` in
`a-b-a-b`, and yet there is no match. -/
theorem matchText?_misses_later :
    empty.matchText? false (.ofText {} "$$_a_-$$_a_") "a-b-a-b" .identifier = none ∧
      ∃ fillers, Markers.Decomposes {} "$$_a_-$$_a_" "a-b-a-b" fillers ∧
        empty.Meets (Markers.capturesOf {} "$$_a_-$$_a_" fillers) := by
  have hcaptures : Markers.capturesOf {} "$$_a_-$$_a_" [['a', '-', 'b'], ['a', '-', 'b']] =
      [⟨0, "a", "a-b"⟩, ⟨1, "a", "a-b"⟩] := by
    decide +kernel
  refine ⟨by rfl, [['a', '-', 'b'], ['a', '-', 'b']], ⟨by decide +kernel, by decide +kernel⟩, ?_⟩
  rw [hcaptures]
  exact ⟨fun _ _ _ hbound => absurd hbound (by simp [empty, text?, textual?]), by decide⟩

end Bindings

end CodeSearch
