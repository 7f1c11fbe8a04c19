import CodeSearch.Proofs.Fillings
import CodeSearch.Text.Lowercase

/-!
# Letter case

Three notions of ignoring letter case meet in a search. Texts are compared in lower case, each as a
whole. Patterns are matched by the folding of single characters. And the token filter looks for
tokens in lower case in the text of a file in lower case. They do not agree: folding takes more
characters for the same than lower case does, and the lower-case form of a sigma depends on the
letters around it.

A piece of text is **steady** in a content if none of this touches it. Then it does not matter by
which notion the piece matches a part of the content: in lower case it is a part of the content in
lower case (`Steady.infix_of_lowercase`, `Steady.infix_of_spells`).
-/

set_option autoImplicit false

namespace CodeSearch

namespace Text

/-! ## Blanks -/

/-- The blanks as ranges of code points. -/
def blankRanges : CharRanges :=
  [(0x09, 0x0D), (0x20, 0x20), (0x85, 0x85), (0xA0, 0xA0), (0x1680, 0x1680), (0x2000, 0x200A),
    (0x2028, 0x2029), (0x202F, 0x202F), (0x205F, 0x205F), (0x3000, 0x3000)]

theorem isBlank_iff {c : Char} :
    isBlank c = true ↔ ∃ range ∈ blankRanges, range.1 ≤ c.toNat ∧ c.toNat ≤ range.2 := by
  have hspace : c = ' ' ↔ c.toNat = 0x20 := by
    rw [← Char.toNat_inj]
    rfl
  simp only [isBlank, blankRanges, Bool.or_eq_true, Bool.and_eq_true, decide_eq_true_eq, beq_iff_eq,
    hspace, List.exists_mem_cons_iff, List.not_mem_nil, false_and, exists_false, or_false]
  omega

/-- No row of a table holds a blank or leads to one. -/
def CharMap.sparesBlanks (rows : CharMap) : Bool :=
  rows.all fun (first, last, _, image) => blankRanges.all fun (start, stop) =>
    (stop < first || last < start) && (stop < image || image + (last - first) < start)

/-- What a table makes of a character: nothing new, or a character in the image of a row that holds
it. -/
theorem CharMap.apply_cases (rows : CharMap) (c : Char) : rows.apply c = c ∨
    ∃ first last stride image, (first, last, stride, image) ∈ rows ∧ first ≤ c.toNat ∧
      c.toNat ≤ last ∧ rows.apply c = Char.ofNat (image + (c.toNat - first)) := by
  unfold CharMap.apply
  split
  next first last stride image hrow =>
    refine Or.inr ⟨first, last, stride, image, List.mem_of_find?_eq_some hrow, ?_⟩
    have hholds := List.find?_some hrow
    simp only [Bool.and_eq_true, decide_eq_true_eq] at hholds
    exact ⟨hholds.1.1, hholds.1.2, rfl⟩
  next => exact Or.inl rfl

/-- A number that is no code point stands for the character with code point zero. -/
theorem toNat_ofNat (n : Nat) : (Char.ofNat n).toNat = n ∨ (Char.ofNat n).toNat = 0 := by
  rw [Char.ofNat]
  by_cases h : n.isValidChar
  · rw [dif_pos h]
    exact Or.inl rfl
  · rw [dif_neg h]
    exact Or.inr rfl

/-- A table that spares blanks leaves blanks alone and makes none. -/
theorem CharMap.apply_spares {rows : CharMap} (h : rows.sparesBlanks = true) (c : Char) :
    isBlank (rows.apply c) = isBlank c ∧ (isBlank c = true → rows.apply c = c) := by
  rcases rows.apply_cases c with heq | ⟨first, last, stride, image, hrow, hfirst, hlast, heq⟩
  · rw [heq]
    exact ⟨rfl, fun _ => rfl⟩
  · have hspares : ∀ range ∈ blankRanges, (range.2 < first ∨ last < range.1) ∧
        (range.2 < image ∨ image + (last - first) < range.1) := by
      have hrow := List.all_eq_true.1 h _ hrow
      intro range hrange
      simpa using List.all_eq_true.1 hrow range hrange
    have hbefore : isBlank c = false := by
      rw [Bool.eq_false_iff, Ne, isBlank_iff]
      rintro ⟨range, hrange, hstart, hstop⟩
      have := (hspares range hrange).1
      omega
    have hafter : isBlank (rows.apply c) = false := by
      rw [Bool.eq_false_iff, Ne, isBlank_iff, heq]
      rintro ⟨range, hrange, hstart, hstop⟩
      rcases toNat_ofNat (image + (c.toNat - first)) with hcode | hcode
      · rw [hcode] at hstart hstop
        have := (hspares range hrange).2
        omega
      · have hpositive : ∀ range ∈ blankRanges, 0 < range.1 := by decide
        have := hpositive range hrange
        omega
    rw [hbefore, hafter]
    exact ⟨rfl, fun hblank => absurd hblank Bool.false_ne_true⟩

theorem toLower_spares {c : Char} (h : c.toNat < 0x80) :
    isBlank c.toLower = isBlank c ∧ (isBlank c = true → c.toLower = c) := by
  have hall : ∀ n < 0x80, isBlank (Char.ofNat n).toLower = isBlank (Char.ofNat n) ∧
      (isBlank (Char.ofNat n) = true → (Char.ofNat n).toLower = Char.ofNat n) := by
    decide
  have hc := hall c.toNat h
  rwa [Char.ofNat_toNat] at hc

theorem lowercaseChar_spares (c : Char) :
    isBlank (lowercaseChar c) = isBlank c ∧ (isBlank c = true → lowercaseChar c = c) := by
  rw [lowercaseChar]
  split
  next h => exact toLower_spares h
  next => exact CharMap.apply_spares (by decide +kernel) c

/-- Folding does not tell a blank from a character that is none. -/
theorem isBlank_foldChar (c : Char) : isBlank (foldChar c) = isBlank c := by
  rw [foldChar]
  split
  next h => exact (toLower_spares h).1
  next => exact (CharMap.apply_spares (by decide +kernel) c).1

/-! ## Single characters in lower case -/

theorem lowercase_singleton (c : Char) : lowercase [c] =
    if c = 'Σ' then ['σ'] else if c = 'İ' then ['i', Char.ofNat 0x307] else [lowercaseChar c] := by
  simp [lowercase, lowercaseAfter, startsCased]

theorem lowercase_of_isBlank {c : Char} (h : isBlank c = true) : lowercase [c] = [c] := by
  have hsigma : c ≠ 'Σ' := by
    rintro rfl
    exact absurd h (by decide)
  have hdotted : c ≠ 'İ' := by
    rintro rfl
    exact absurd h (by decide)
  rw [lowercase_singleton, if_neg hsigma, if_neg hdotted, (lowercaseChar_spares c).2 h]

theorem unbroken_lowercase_singleton {c : Char} (h : isBlank c = false) :
    Unbroken (lowercase [c]) := by
  rw [lowercase_singleton]
  split
  next => exact List.forall_mem_singleton.2 (by decide)
  next =>
    split
    next => exact List.forall_mem_cons.2 ⟨by decide, List.forall_mem_singleton.2 (by decide)⟩
    next => exact List.forall_mem_singleton.2 ((lowercaseChar_spares c).1.trans h)

/-! ## Texts in lower case -/

/-- In a text a character becomes what it becomes alone, unless it is a capital sigma, which may
become a final one. -/
theorem lowercaseAfter_cons (before : List Char) (c : Char) (cs : List Char) :
    ∃ image, lowercaseAfter before (c :: cs) = image ++ lowercaseAfter (c :: before) cs ∧
      (image = lowercase [c] ∨ c = 'Σ' ∧ image = ['ς']) := by
  refine ⟨_, rfl, ?_⟩
  rw [lowercase_singleton]
  split
  next hsigma =>
    split
    next => exact Or.inr ⟨hsigma, rfl⟩
    next => exact Or.inl rfl
  next => exact Or.inl rfl

theorem unbroken_lowercaseAfter (before : List Char) {cs : List Char} (h : Unbroken cs) :
    Unbroken (lowercaseAfter before cs) := by
  induction cs generalizing before with
  | nil => exact h
  | cons c cs ih =>
      obtain ⟨hc, hcs⟩ := List.forall_mem_cons.1 h
      obtain ⟨image, heq, himage⟩ := lowercaseAfter_cons before c cs
      rw [heq, Unbroken, List.forall_mem_append]
      refine ⟨?_, ih _ hcs⟩
      rcases himage with rfl | ⟨-, rfl⟩
      · exact unbroken_lowercase_singleton hc
      · exact List.forall_mem_singleton.2 (by decide)

/-- A text without sigmas. -/
def SigmaFree (cs : List Char) : Prop := 'σ' ∉ cs ∧ 'ς' ∉ cs

instance (cs : List Char) : Decidable (SigmaFree cs) :=
  inferInstanceAs (Decidable ('σ' ∉ cs ∧ 'ς' ∉ cs))

/-- A sigma that is not told apart from a final one. -/
def plainSigma (c : Char) : Char := if c = 'ς' then 'σ' else c

/-- A character in lower case, whatever stands around it. -/
def plainForm (c : Char) : List Char := (lowercase [c]).map plainSigma

/-- But for final sigmas, a text in lower case is its characters in lower case. -/
theorem map_plainSigma_lowercaseAfter (before cs : List Char) :
    (lowercaseAfter before cs).map plainSigma = cs.flatMap plainForm := by
  induction cs generalizing before with
  | nil => rfl
  | cons c cs ih =>
      obtain ⟨image, heq, himage⟩ := lowercaseAfter_cons before c cs
      rw [heq, List.map_append, ih, List.flatMap_cons]
      rcases himage with rfl | ⟨rfl, rfl⟩
      · rfl
      · rfl

theorem map_plainSigma_of_not_mem {cs : List Char} (h : 'ς' ∉ cs) : cs.map plainSigma = cs := by
  have hall : ∀ c ∈ cs, plainSigma c = c := by
    intro c hc
    rw [plainSigma, if_neg]
    rintro rfl
    exact h hc
  exact (List.map_congr_left hall).trans (List.map_id' cs)

/-- A text without sigmas is a part of another whether final sigmas are told apart or not. -/
theorem SigmaFree.infix_map_iff {piece cs : List Char} (h : SigmaFree piece) :
    piece <:+: cs.map plainSigma ↔ piece <:+: cs := by
  constructor
  · rintro ⟨before, after, heq⟩
    obtain ⟨front, after', rfl, hfront, rfl⟩ := List.map_eq_append_iff.1 heq.symm
    obtain ⟨before', part, rfl, rfl, hpart⟩ := List.map_eq_append_iff.1 hfront
    -- a final sigma in the part would be a sigma in the piece
    have hfinal : 'ς' ∉ part := fun hmem =>
      h.1 (hpart ▸ List.mem_map.2 ⟨'ς', hmem, rfl⟩)
    rw [← hpart, map_plainSigma_of_not_mem hfinal]
    exact List.infix_append before' part after'
  · intro hpart
    have := hpart.map plainSigma
    rwa [map_plainSigma_of_not_mem h.2] at this

/-- What a text in lower case contains, of texts without sigmas, does not depend on what stands
around its characters. -/
theorem SigmaFree.infix_lowercase_iff {piece cs : List Char} (h : SigmaFree piece) :
    piece <:+: lowercase cs ↔ piece <:+: cs.flatMap plainForm := by
  rw [← map_plainSigma_lowercaseAfter [], h.infix_map_iff]
  rfl

theorem flatMap_plainForm {piece : List Char} (h : SigmaFree (lowercase piece)) :
    piece.flatMap plainForm = lowercase piece := by
  rw [← map_plainSigma_lowercaseAfter []]
  exact map_plainSigma_of_not_mem h.2

/-- A text without blanks that a text in lower case contains comes from a part of the text without
blanks. -/
theorem exists_unbroken_part {piece cs : List Char} (hpiece : Unbroken piece)
    (h : piece <:+: cs.flatMap plainForm) :
    ∃ part, part <:+: cs ∧ Unbroken part ∧ piece <:+: part.flatMap plainForm := by
  -- the part lies before the first blank or after it
  obtain ⟨n, hn⟩ : ∃ n, cs.length = n := ⟨_, rfl⟩
  induction n using Nat.strong_induction_on generalizing cs with
  | _ n ih =>
      by_cases hcs : Unbroken cs
      · exact ⟨cs, List.infix_rfl, hcs, h⟩
      · obtain ⟨blank, hmem, hblank⟩ : ∃ c ∈ cs, isBlank c = true := by
          simpa [Unbroken] using hcs
        obtain ⟨left, right, rfl⟩ := List.append_of_mem hmem
        have hform : plainForm blank = [blank] := by
          have hfinal : blank ≠ 'ς' := by
            rintro rfl
            exact absurd hblank (by decide)
          rw [plainForm, lowercase_of_isBlank hblank, List.map_singleton, plainSigma, if_neg hfinal]
        rw [List.flatMap_append, List.flatMap_cons, hform, List.singleton_append] at h
        rw [List.length_append, List.length_cons] at hn
        rcases infix_of_unbroken hpiece hblank h with hleft | hright
        · obtain ⟨part, hpart, hunbroken, hin⟩ := ih left.length (by omega) hleft rfl
          exact ⟨part, List.infix_append_of_infix_left hpart, hunbroken, hin⟩
        · obtain ⟨part, hpart, hunbroken, hin⟩ := ih right.length (by omega) hright rfl
          refine ⟨part, List.infix_append_of_infix_right ?_, hunbroken, hin⟩
          exact hpart.trans (List.infix_cons_iff.2 (Or.inr List.infix_rfl))

/-! ## Pieces that do not depend on the notion of letter case -/

variable {content piece value : List Char}

/-- Characters of a content are the same as those of a piece in lower case if folding takes them for
the same. -/
def FoldsAsLowercase (content piece : List Char) : Prop :=
  ∀ l ∈ piece, ∀ c ∈ content, foldChar l = foldChar c → lowercase [l] = lowercase [c]

instance (content piece : List Char) : Decidable (FoldsAsLowercase content piece) :=
  @List.decidableBAll _ _ (fun l => List.decidableBAll
    (fun c => foldChar l = foldChar c → lowercase [l] = lowercase [c]) content) piece

/-- A piece of text is **steady** if it has no blanks and, in lower case, no sigmas. -/
structure Steady (piece : List Char) : Prop where
  unbroken : Unbroken piece
  sigmaFree : SigmaFree (lowercase piece)

instance (piece : List Char) : Decidable (Steady piece) :=
  decidable_of_iff (Unbroken piece ∧ SigmaFree (lowercase piece))
    ⟨fun h => ⟨h.1, h.2⟩, fun h => ⟨h.1, h.2⟩⟩

/-- A content contains a steady piece in lower case if it contains all of a value, as far as it has
no blanks, and the value is in lower case what a text with the piece is. -/
theorem Steady.infix_of_lowercase (h : Steady piece) {pattern : List Char}
    (hpiece : piece <:+: pattern) (hsame : lowercase pattern = lowercase value)
    (hvalue : ∀ part, part <:+: value → Unbroken part → part <:+: content) :
    lowercase piece <:+: lowercase content := by
  have hforms : pattern.flatMap plainForm = value.flatMap plainForm := by
    calc pattern.flatMap plainForm = (lowercase pattern).map plainSigma :=
          (map_plainSigma_lowercaseAfter [] pattern).symm
      _ = (lowercase value).map plainSigma := by rw [hsame]
      _ = value.flatMap plainForm := map_plainSigma_lowercaseAfter [] value
  have hin : lowercase piece <:+: value.flatMap plainForm := by
    rw [← flatMap_plainForm h.sigmaFree, ← hforms]
    exact hpiece.flatMap plainForm
  obtain ⟨part, hpart, hunbroken, hin⟩ :=
    exists_unbroken_part (unbroken_lowercaseAfter [] h.unbroken) hin
  rw [h.sigmaFree.infix_lowercase_iff]
  exact hin.trans ((hvalue part hpart hunbroken).flatMap plainForm)

/-- A letter sigma is not steady, as it may be final or not. -/
example : ¬ Steady "ΟΔΟΣ".toList := by decide +kernel

theorem Spells.unbroken {start : List Char} (h : Spells true piece start)
    (hpiece : Unbroken piece) : Unbroken start := by
  induction h with
  | nil => exact hpiece
  | @cons l c piece start hsame h ih =>
      obtain ⟨hl, hpiece⟩ := List.forall_mem_cons.1 hpiece
      have hfold : foldChar l = foldChar c := by simpa [sameChar] using hsame
      refine List.forall_mem_cons.2 ⟨?_, ih hpiece⟩
      rw [← isBlank_foldChar, ← hfold, isBlank_foldChar, hl]

theorem Spells.flatMap_plainForm_eq {start : List Char} (h : Spells true piece start)
    (hfolds : FoldsAsLowercase start piece) :
    piece.flatMap plainForm = start.flatMap plainForm := by
  induction h with
  | nil => rfl
  | @cons l c piece start hsame h ih =>
      have hfold : foldChar l = foldChar c := by simpa [sameChar] using hsame
      have hhead : plainForm l = plainForm c := by
        rw [plainForm, plainForm, hfolds l List.mem_cons_self c List.mem_cons_self hfold]
      rw [List.flatMap_cons, List.flatMap_cons, hhead]
      rw [ih fun l hl c hc => hfolds l (List.mem_cons_of_mem _ hl) c (List.mem_cons_of_mem _ hc)]

/-- A content contains a steady piece in lower case if it contains what spells the piece, up to
folding, and its characters are the same in lower case then. -/
theorem Steady.infix_of_spells (h : Steady piece) {start : List Char}
    (hspells : Spells true piece start) (hfolds : FoldsAsLowercase content piece)
    (hstart : Unbroken start → start <:+: content) : lowercase piece <:+: lowercase content := by
  have hpart := hstart (hspells.unbroken h.unbroken)
  rw [h.sigmaFree.infix_lowercase_iff, ← flatMap_plainForm h.sigmaFree]
  rw [hspells.flatMap_plainForm_eq fun l hl c hc => hfolds l hl c (hpart.subset hc)]
  exact hpart.flatMap plainForm

/-- Folding takes the micro sign for the letter mu, which lower case does not. -/
example : ¬ FoldsAsLowercase "μsTotal".toList "µs".toList := by decide +kernel

/-! ## ASCII -/

/-- A text has ASCII characters only. -/
def IsAscii (cs : List Char) : Prop := ∀ c ∈ cs, c.toNat < 0x80

instance (cs : List Char) : Decidable (IsAscii cs) :=
  List.decidableBAll (fun c : Char => c.toNat < 0x80) cs

theorem toLower_ascii {c : Char} (h : c.toNat < 0x80) : c.toLower.toNat < 0x80 := by
  have hall : ∀ n < 0x80, (Char.ofNat n).toLower.toNat < 0x80 := by decide
  have hc := hall c.toNat h
  rwa [Char.ofNat_toNat] at hc

theorem lowercase_singleton_of_ascii {c : Char} (h : c.toNat < 0x80) :
    lowercase [c] = [foldChar c] := by
  have hsigma : c ≠ 'Σ' := by
    rintro rfl
    exact absurd h (by decide)
  have hdotted : c ≠ 'İ' := by
    rintro rfl
    exact absurd h (by decide)
  rw [lowercase_singleton, if_neg hsigma, if_neg hdotted, lowercaseChar, foldChar, if_pos h,
    if_pos h]

theorem IsAscii.lowercaseAfter (before : List Char) {cs : List Char} (h : IsAscii cs) :
    IsAscii (lowercaseAfter before cs) := by
  induction cs generalizing before with
  | nil => exact h
  | cons c cs ih =>
      obtain ⟨hc, hcs⟩ := List.forall_mem_cons.1 h
      obtain ⟨image, heq, himage⟩ := lowercaseAfter_cons before c cs
      rw [heq, IsAscii, List.forall_mem_append]
      refine ⟨?_, ih _ hcs⟩
      rcases himage with rfl | ⟨rfl, -⟩
      · rw [lowercase_singleton_of_ascii hc, foldChar, if_pos hc]
        exact List.forall_mem_singleton.2 (toLower_ascii hc)
      · exact absurd hc (by decide)

/-- **In ASCII the notions of letter case agree**: a piece without blanks is steady, and folding is
lower case. -/
theorem IsAscii.steady (hpiece : IsAscii piece) (hunbroken : Unbroken piece)
    (hcontent : IsAscii content) : Steady piece ∧ FoldsAsLowercase content piece := by
  have hascii : IsAscii (lowercase piece) := hpiece.lowercaseAfter []
  refine ⟨⟨hunbroken, fun hmem => ?_, fun hmem => ?_⟩, fun l hl c hc hfold => ?_⟩
  · exact absurd (hascii _ hmem) (by decide)
  · exact absurd (hascii _ hmem) (by decide)
  · rw [lowercase_singleton_of_ascii (hpiece l hl), lowercase_singleton_of_ascii (hcontent c hc),
      hfold]

end Text

end CodeSearch
