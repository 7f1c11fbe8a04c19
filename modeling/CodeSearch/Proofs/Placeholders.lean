import CodeSearch.Language.Placeholder
import CodeSearch.Proofs.MarkerRuns
import Mathlib.Data.List.Infix

/-!
# Reading placeholders back

Where wildcards are written as placeholders, these begin and end with the same letter, and one of
them may begin in the text that stands beside it. Then the placeholder that is read is not the one
that was written. The main statement says exactly when this happens: nothing else keeps a query
text from being read back as it was.
-/

set_option autoImplicit false

namespace CodeSearch

/-! ## Replacing piece by piece -/

namespace Text

variable {piece image rest : List Char}

theorem replaceFrom_eq (skip : Nat) (text : List Char) :
    replaceFrom piece image skip text = replaceAll piece image (text.drop skip) := by
  induction skip generalizing text with
  | zero => rfl
  | succ skip ih =>
      cases text with
      | nil => rfl
      | cons c text => exact ih text

/-- A piece that comes first is replaced. -/
theorem replaceAll_piece (hpiece : piece ≠ []) (image rest : List Char) :
    replaceAll piece image (piece ++ rest) = image ++ replaceAll piece image rest := by
  cases piece with
  | nil => exact absurd rfl hpiece
  | cons c tail =>
      rw [List.cons_append, replaceAll, replaceFrom, if_pos (by simp), replaceFrom_eq]
      simp

/-- A character at which no piece begins stays. -/
theorem replaceAll_cons {c : Char} (h : ¬ piece <+: c :: rest) :
    replaceAll piece image (c :: rest) = c :: replaceAll piece image rest := by
  rw [replaceAll, replaceFrom, if_neg (by simpa using h)]
  rfl

/-- A text that does not hold the first character of the piece stays. -/
theorem replaceAll_append {first : Char} {tail plain : List Char} (h : first ∉ plain) :
    replaceAll (first :: tail) image (plain ++ rest) =
      plain ++ replaceAll (first :: tail) image rest := by
  induction plain with
  | nil => rfl
  | cons c plain ih =>
      rw [List.mem_cons, not_or] at h
      rw [List.cons_append, replaceAll_cons fun hprefix => h.1 (List.cons_prefix_cons.1 hprefix).1,
        ih h.2, List.cons_append]

end Text

/-! ## Writing and reading -/

/-- What a placeholder holds between its two letters. -/
def stem (digit : Char) : List Char := ['_', 'x', '_', digit, '_', 'x', '_']

/-- The placeholder with a digit. -/
def placeholder (digit : Char) : List Char := 'a' :: (stem digit ++ ['a'])

/-- The text with placeholders for wildcards. -/
def written (text : List Char) : List Char :=
  Text.replaceAll ['$', '$'] (placeholder '2')
    (Text.replaceAll ['$', '$', '$'] (placeholder '3') text)

/-- The text with required wildcards for their placeholders. -/
def readRequired (text : List Char) : List Char :=
  Text.replaceAll (placeholder '3') ['$', '$', '$'] text

/-- The text with optional wildcards for their placeholders. -/
def readOptional (text : List Char) : List Char :=
  Text.replaceAll (placeholder '2') ['$', '$'] text

theorem encode_default (text : String) :
    ({} : Markers).encode text = String.ofList (written text.toList) := by
  rw [Markers.encode, Text.replaceString, Text.replaceString, String.toList_ofList]
  rfl

theorem decode_default (text : String) :
    ({} : Markers).decode text = String.ofList (readOptional (readRequired text.toList)) := by
  rw [Markers.decode, Text.replaceString, Text.replaceString, String.toList_ofList]
  rfl

/-- A text that starts with a word was made from one that does, if each character of the word was
made from itself. -/
theorem peel {f : List Char → List Char} {word : List Char}
    (hstep : ∀ c ∈ word, ∀ {y z}, f y = c :: z → ∃ x, y = c :: x ∧ f x = z) {y z : List Char}
    (h : f y = word ++ z) : ∃ x, y = word ++ x ∧ f x = z := by
  induction word generalizing y with
  | nil => exact ⟨y, rfl, h⟩
  | cons c word ih =>
      obtain ⟨y, rfl, hy⟩ := hstep c List.mem_cons_self h
      obtain ⟨x, rfl, hx⟩ := ih (fun d hd => hstep d (List.mem_cons_of_mem _ hd)) hy
      exact ⟨x, rfl, hx⟩

theorem not_infix_tail {piece text : List Char} {c : Char} (h : ¬ piece <:+: c :: text) :
    ¬ piece <:+: text :=
  fun hinside => h (hinside.trans (List.suffix_cons c text).isInfix)

/-! ### Writing -/

section Written

variable {rest : List Char}

theorem written_nil : written [] = [] := rfl

theorem written_cons {c : Char} (hc : c ≠ '$') : written (c :: rest) = c :: written rest := by
  rw [written, Text.replaceAll_cons (by simp [Ne.symm hc]),
    Text.replaceAll_cons (by simp [Ne.symm hc]), written]

theorem written_required (rest : List Char) :
    written ('$' :: '$' :: '$' :: rest) = placeholder '3' ++ written rest := by
  have hfirst := Text.replaceAll_piece (List.cons_ne_nil '$' ['$', '$']) (placeholder '3') rest
  rw [List.cons_append, List.cons_append, List.cons_append, List.nil_append] at hfirst
  rw [written, hfirst, Text.replaceAll_append (by decide), written]

/-- Text that does not begin with a marker begins with none when the required wildcards are
placeholders. -/
theorem head?_replaceAll_ne (hrest : rest.head? ≠ some '$') :
    (Text.replaceAll ['$', '$', '$'] (placeholder '3') rest).head? ≠ some '$' := by
  cases rest with
  | nil => simp [Text.replaceAll, Text.replaceFrom]
  | cons c rest =>
      have hc : c ≠ '$' := fun heq => hrest (congrArg some heq)
      rw [Text.replaceAll_cons (by simp [Ne.symm hc])]
      exact hrest

theorem not_prefix_of_head? {c : Char} {tail : List Char} (hrest : rest.head? ≠ some '$') :
    ¬ (c :: '$' :: tail) <+: c :: rest := by
  intro hprefix
  obtain ⟨more, hmore⟩ := (List.cons_prefix_cons.1 hprefix).2
  exact hrest (by rw [← hmore]; rfl)

theorem written_single (hrest : rest.head? ≠ some '$') :
    written ('$' :: rest) = '$' :: written rest := by
  rw [written, Text.replaceAll_cons (not_prefix_of_head? hrest),
    Text.replaceAll_cons (not_prefix_of_head? (head?_replaceAll_ne hrest)), written]

theorem written_optional (hrest : rest.head? ≠ some '$') :
    written ('$' :: '$' :: rest) = placeholder '2' ++ written rest := by
  have hshort : ¬ ['$', '$', '$'] <+: '$' :: '$' :: rest := fun hprefix =>
    not_prefix_of_head? hrest (List.cons_prefix_cons.1 hprefix).2
  have hpair := Text.replaceAll_piece (List.cons_ne_nil '$' ['$']) (placeholder '2')
    (Text.replaceAll ['$', '$', '$'] (placeholder '3') rest)
  rw [written, Text.replaceAll_cons hshort, Text.replaceAll_cons (not_prefix_of_head? hrest)]
  exact hpair

/-- A run is written as a placeholder, or as it is if it is a single marker. -/
theorem head?_written_replicate {k : Nat} (hk : 0 < k) (hrest : rest.head? ≠ some '$') :
    (written (List.replicate k '$' ++ rest)).head? = some (if k = 1 then '$' else 'a') := by
  match k, hk with
  | 1, _ => rw [List.replicate_one, List.singleton_append, written_single hrest]; rfl
  | 2, _ =>
      have htwo := written_optional hrest
      exact congrArg List.head? htwo
  | k + 3, _ =>
      have hthree := written_required (List.replicate k '$' ++ rest)
      refine (congrArg List.head? hthree).trans ?_
      rw [if_neg (by omega)]
      rfl

/-- A character that is neither a marker nor the first letter of a placeholder was written for
itself. -/
theorem written_eq_cons {c : Char} {y z : List Char} (hmarker : c ≠ '$') (hletter : c ≠ 'a')
    (h : written y = c :: z) : ∃ x, y = c :: x ∧ written x = z := by
  obtain ⟨k, rest, rfl, hrest⟩ := ({} : Markers).exists_run y
  cases k with
  | zero =>
      cases rest with
      | nil => exact absurd h (by simp [written_nil])
      | cons d rest =>
          have hd : d ≠ '$' := fun heq => hrest (congrArg some heq)
          rw [List.replicate_zero, List.nil_append, written_cons hd] at h
          obtain ⟨rfl, hz⟩ := List.cons.inj h
          exact ⟨rest, rfl, hz⟩
  | succ k =>
      have hhead := (head?_written_replicate (Nat.succ_pos k) hrest).symm.trans
        (congrArg List.head? h)
      split at hhead
      · exact absurd (Option.some.inj hhead).symm hmarker
      · exact absurd (Option.some.inj hhead).symm hletter

theorem stem_ne {digit : Char} (hdigit : digit ≠ '$' ∧ digit ≠ 'a') :
    ∀ c ∈ stem digit, c ≠ '$' ∧ c ≠ 'a' := by
  simp [stem, hdigit]

theorem written_stem {digit : Char} (hdigit : digit ≠ '$' ∧ digit ≠ 'a') :
    written (stem digit ++ rest) = stem digit ++ written rest := by
  have hne := stem_ne hdigit
  generalize stem digit = word at hne ⊢
  induction word with
  | nil => rfl
  | cons c word ih =>
      obtain ⟨hc, hword⟩ := List.forall_mem_cons.1 hne
      rw [List.cons_append, written_cons hc.1, ih hword, List.cons_append]

/-- What is written goes on like a placeholder behind its first letter if the text does, or goes
on so up to a wildcard. -/
theorem stem_prefix_written {digit : Char} (hdigit : digit ≠ '$' ∧ digit ≠ 'a') :
    stem digit ++ ['a'] <+: written rest ↔
      stem digit ++ ['a'] <+: rest ∨ stem digit ++ ['$', '$'] <+: rest := by
  constructor
  · rintro ⟨z, hz⟩
    rw [List.append_assoc] at hz
    obtain ⟨x, rfl, hx⟩ := peel (fun c hc => written_eq_cons (stem_ne hdigit c hc).1
      (stem_ne hdigit c hc).2) hz.symm
    obtain ⟨k, tail, rfl, htail⟩ := ({} : Markers).exists_run x
    rw [List.prefix_append_right_inj, List.prefix_append_right_inj]
    match k with
    | 0 =>
        cases tail with
        | nil => exact absurd hx (by simp [written_nil])
        | cons c tail =>
            have hc : c ≠ '$' := fun heq => htail (congrArg some heq)
            rw [List.replicate_zero, List.nil_append, written_cons hc] at hx
            obtain ⟨rfl, -⟩ := List.cons.inj hx
            exact Or.inl (by simp)
    | 1 =>
        have hhead := (head?_written_replicate Nat.one_pos htail).symm.trans
          (congrArg List.head? hx)
        exact absurd (Option.some.inj hhead) (by decide)
    | k + 2 => exact Or.inr ⟨List.replicate k '$' ++ tail, rfl⟩
  · rintro (⟨x, rfl⟩ | ⟨x, rfl⟩)
    · rw [List.append_assoc, written_stem hdigit, List.prefix_append_right_inj,
        List.singleton_append, written_cons (by decide)]
      simp
    · rw [List.append_assoc, written_stem hdigit, List.prefix_append_right_inj]
      obtain ⟨k, tail, rfl, htail⟩ := ({} : Markers).exists_run x
      have hhead := head?_written_replicate (k := k + 2) (by omega) htail
      rw [if_neg (by omega)] at hhead
      obtain ⟨z, hz⟩ := List.head?_eq_some_iff.1 hhead
      refine ⟨z, ?_⟩
      rw [List.singleton_append, ← hz]
      rfl

end Written

/-! ### Reading -/

section Read

variable {c : Char} {y z : List Char}

theorem placeholder_prefix_cons {digit : Char} :
    placeholder digit <+: c :: y ↔ c = 'a' ∧ stem digit ++ ['a'] <+: y := by
  rw [placeholder, List.cons_prefix_cons, eq_comm]

theorem readRequired_placeholder (y : List Char) :
    readRequired (placeholder '3' ++ y) = '$' :: '$' :: '$' :: readRequired y :=
  Text.replaceAll_piece (by simp [placeholder]) _ _

theorem readRequired_cons (h : ¬ placeholder '3' <+: c :: y) :
    readRequired (c :: y) = c :: readRequired y :=
  Text.replaceAll_cons h

theorem readRequired_stem (digit : Char) (hdigit : digit ≠ 'a') (y : List Char) :
    readRequired (stem digit ++ y) = stem digit ++ readRequired y :=
  Text.replaceAll_append (by simp [stem, hdigit.symm])

theorem readOptional_placeholder (y : List Char) :
    readOptional (placeholder '2' ++ y) = '$' :: '$' :: readOptional y :=
  Text.replaceAll_piece (by simp [placeholder]) _ _

theorem readOptional_cons (h : ¬ placeholder '2' <+: c :: y) :
    readOptional (c :: y) = c :: readOptional y :=
  Text.replaceAll_cons h

/-- A character that is no marker is read for itself. -/
theorem readRequired_eq_cons (hc : c ≠ '$') (h : readRequired y = c :: z) :
    ∃ x, y = c :: x ∧ readRequired x = z := by
  cases y with
  | nil => simp [readRequired, Text.replaceAll, Text.replaceFrom] at h
  | cons d y =>
      by_cases hprefix : placeholder '3' <+: d :: y
      · obtain ⟨x, hx⟩ := hprefix
        rw [← hx, readRequired_placeholder] at h
        exact absurd (List.cons.inj h).1.symm hc
      · rw [readRequired_cons hprefix] at h
        obtain ⟨rfl, hz⟩ := List.cons.inj h
        exact ⟨y, rfl, hz⟩

/-- The placeholder of an optional wildcard stays when the required ones are read, but for its last
letter if another placeholder begins there. -/
theorem readRequired_optional (y : List Char) :
    readRequired (placeholder '2' ++ y) = 'a' :: (stem '2' ++ readRequired ('a' :: y)) := by
  have hother : ¬ placeholder '3' <+: 'a' :: (stem '2' ++ ('a' :: y)) := by
    simp [placeholder, stem]
  rw [placeholder, List.cons_append, List.append_assoc, List.singleton_append,
    readRequired_cons hother, readRequired_stem '2' (by decide)]

end Read

/-! ## Where a placeholder is made with what stands beside it -/

/-- A run of markers **merges** with the text before or after it if its placeholder and this text
hold another placeholder: any wildcard after a text that only lacks its letter to be a required
placeholder, and an optional wildcard after one that only lacks it to be an optional placeholder,
or before one that needs only the letter in front to be a required placeholder, be it that its own
last letter is that of a wildcard. -/
def Merges (before : List Char) (width : Nat) (after : List Char) : Prop :=
  (2 ≤ width ∧ "a_x_3_x_".toList <:+ before) ∨
    (width = 2 ∧ ("a_x_2_x_".toList <:+ before ∨
      "_x_3_x_a".toList <+: after ∨ "_x_3_x_$$".toList <+: after))

/-- No wildcard of the text merges with what stands beside it. -/
def StandsApart (text : List Char) : Prop :=
  ∀ before width after, ({} : Markers).Stands before width after text → ¬ Merges before width after

section Apart

variable {before inner after rest : List Char} {width k : Nat}

theorem merges_iff : Merges before width after ↔
    (2 ≤ width ∧ 'a' :: stem '3' <:+ before) ∨
      (width = 2 ∧ ('a' :: stem '2' <:+ before ∨
        stem '3' ++ ['a'] <+: after ∨ stem '3' ++ ['$', '$'] <+: after)) :=
  Iff.rfl

theorem merges_nil (width : Nat) : Merges [] width after ↔
    width = 2 ∧ (stem '3' ++ ['a'] <+: after ∨ stem '3' ++ ['$', '$'] <+: after) := by
  rw [merges_iff]
  simp only [List.suffix_nil, reduceCtorEq, and_false, false_or]

theorem merges_cons {c : Char} : Merges (c :: inner) width after ↔
    Merges inner width after ∨ (2 ≤ width ∧ c = 'a' ∧ inner = stem '3') ∨
      (width = 2 ∧ c = 'a' ∧ inner = stem '2') := by
  simp only [merges_iff, List.suffix_cons_iff, List.cons.injEq, eq_comm (a := 'a'),
    eq_comm (b := inner)]
  tauto

theorem merges_replicate :
    Merges (List.replicate k '$' ++ inner) width after ↔ Merges inner width after := by
  induction k with
  | zero => rfl
  | succ k ih =>
      rw [List.replicate_succ, List.cons_append, merges_cons, ih]
      simp

/-- Where a text begins with a character that is no marker, its wildcards stand apart if those
behind it do, and none of them makes a placeholder that begins with the character. -/
theorem standsApart_cons {c : Char} (hc : c ≠ '$') :
    StandsApart (c :: rest) ↔ StandsApart rest ∧
      ¬ (c = 'a' ∧ stem '3' ++ ['$', '$'] <+: rest) ∧
      ¬ (c = 'a' ∧ ∃ tail, rest = stem '2' ++ ('$' :: '$' :: tail) ∧ tail.head? ≠ some '$') := by
  have hstem : ∀ {digit}, (stem digit).getLast? ≠ some '$' := by simp [stem]
  constructor
  · intro h
    refine ⟨fun inner width after hstands hmerges => ?_, ?_, ?_⟩
    · exact h _ _ _ ((Markers.stands_cons hc).2 ⟨inner, rfl, hstands⟩)
        (merges_cons.2 (Or.inl hmerges))
    · rintro ⟨rfl, x, rfl⟩
      obtain ⟨k, tail, rfl, htail⟩ := ({} : Markers).exists_run x
      refine h ('a' :: stem '3') (k + 2) tail ((Markers.stands_cons hc).2 ⟨_, rfl, ?_⟩)
        (merges_cons.2 (Or.inr (Or.inl ⟨by omega, rfl, rfl⟩)))
      refine ⟨?_, by omega, hstem, htail⟩
      rw [List.append_assoc]
      rfl
    · rintro ⟨rfl, tail, rfl, htail⟩
      refine h ('a' :: stem '2') 2 tail ((Markers.stands_cons hc).2 ⟨_, rfl, ?_⟩)
        (merges_cons.2 (Or.inr (Or.inr ⟨rfl, rfl, rfl⟩)))
      exact ⟨rfl, by omega, hstem, htail⟩
  · rintro ⟨hrest, hrequired, hoptional⟩ before width after hstands hmerges
    obtain ⟨inner, rfl, hinner⟩ := (Markers.stands_cons hc).1 hstands
    rcases merges_cons.1 hmerges with hmerges | ⟨hwidth, rfl, rfl⟩ | ⟨rfl, rfl, rfl⟩
    · exact hrest _ _ _ hinner hmerges
    · obtain ⟨more, rfl⟩ := Nat.exists_eq_add_of_le' hwidth
      refine hrequired ⟨rfl, List.replicate more '$' ++ after, ?_⟩
      rw [hinner.text_eq, List.append_assoc]
      rfl
    · exact hoptional ⟨rfl, after, hinner.text_eq, hinner.head⟩

/-- Where a text begins with a run, its wildcards stand apart if those behind it do and the run
does not merge with what follows. -/
theorem standsApart_replicate (hk : 0 < k) (hrest : rest.head? ≠ some '$') :
    StandsApart (List.replicate k '$' ++ rest) ↔
      StandsApart rest ∧ ¬ (k = 2 ∧ stem '3' ++ ['a'] <+: written rest) := by
  rw [stem_prefix_written (by decide), ← merges_nil]
  constructor
  · intro h
    refine ⟨fun inner width after hstands hmerges => ?_, ?_⟩
    · exact h _ _ _ ((Markers.stands_replicate hk hrest).2 (Or.inr ⟨inner, rfl, hstands⟩))
        (merges_replicate.2 hmerges)
    · exact h _ _ _ ((Markers.stands_replicate hk hrest).2 (Or.inl ⟨rfl, rfl, rfl⟩))
  · rintro ⟨hbehind, hown⟩ before width after hstands hmerges
    rcases (Markers.stands_replicate hk hrest).1 hstands with ⟨rfl, rfl, rfl⟩ | ⟨inner, rfl, hinner⟩
    · exact hown hmerges
    · exact hbehind _ _ _ hinner (merges_replicate.1 hmerges)

end Apart

/-! ## What is read back -/

section ReadBack

variable {rest text : List Char} {c : Char}

/-- The text that is read where one was written. -/
def readBack (text : List Char) : List Char := readOptional (readRequired (written text))

/-- No run is longer than a wildcard, but for one of four markers before a brace. -/
def IsAccepted (text : List Char) : Prop :=
  ∀ before width after, ({} : Markers).Stands before width after text →
    width ≤ 3 ∨ width = 4 ∧ after.head? = some '\x7b'

/-- The first letter of a text is that of a required placeholder in what is written only if it
stands before all that lacks the letter of a wildcard. -/
theorem required_prefix_iff (hrequired : ¬ placeholder '3' <:+: c :: rest) :
    placeholder '3' <+: c :: written rest ↔ c = 'a' ∧ stem '3' ++ ['$', '$'] <+: rest := by
  rw [placeholder_prefix_cons, stem_prefix_written (by decide), and_congr_right_iff]
  intro hc
  refine or_iff_right fun hprefix => hrequired ?_
  exact (placeholder_prefix_cons.2 ⟨hc, hprefix⟩).isInfix

/-- The first letter of a text is that of an optional placeholder in what is left to read only if
it stands before all that lacks the letter of an optional wildcard. -/
theorem optional_prefix_iff (hoptional : ¬ placeholder '2' <:+: c :: rest) :
    placeholder '2' <+: c :: readRequired (written rest) ↔
      c = 'a' ∧ ∃ tail, rest = stem '2' ++ ('$' :: '$' :: tail) ∧ tail.head? ≠ some '$' := by
  have hstem : ∀ c ∈ stem '2', c ≠ '$' ∧ c ≠ 'a' := stem_ne (by decide)
  rw [placeholder_prefix_cons]
  constructor
  · rintro ⟨rfl, z, hz⟩
    rw [List.append_assoc] at hz
    obtain ⟨y, hy, hread⟩ := peel (fun c hc => readRequired_eq_cons (hstem c hc).1) hz.symm
    obtain ⟨x, rfl, rfl⟩ := peel (fun c hc => written_eq_cons (hstem c hc).1 (hstem c hc).2) hy
    obtain ⟨k, tail, rfl, htail⟩ := ({} : Markers).exists_run x
    refine ⟨rfl, ?_⟩
    match k with
    | 0 =>
        -- the letter would be one of the text
        cases tail with
        | nil => exact absurd hread (by simp [written_nil, readRequired, Text.replaceAll,
            Text.replaceFrom])
        | cons d tail =>
            have hd : d ≠ '$' := fun heq => htail (congrArg some heq)
            obtain ⟨x, hx, -⟩ := readRequired_eq_cons (by decide) hread
            rw [List.replicate_zero, List.nil_append, written_cons hd] at hx
            obtain ⟨rfl, -⟩ := List.cons.inj hx
            refine absurd ?_ hoptional
            refine (placeholder_prefix_cons.2 ⟨rfl, tail, ?_⟩).isInfix
            rw [List.append_assoc]
            rfl
    | 1 =>
        obtain ⟨x, hx, -⟩ := readRequired_eq_cons (by decide) hread
        have hhead := (head?_written_replicate Nat.one_pos htail).symm.trans
          (congrArg List.head? hx)
        exact absurd (Option.some.inj hhead) (by decide)
    | 2 => exact ⟨tail, rfl, htail⟩
    | k + 3 =>
        -- a required wildcard is read before the optional ones are
        have hwritten := written_required (List.replicate k '$' ++ tail)
        have hmarkers := (congrArg readRequired hwritten).trans (readRequired_placeholder _)
        exact absurd (List.cons.inj (hmarkers.symm.trans hread)).1 (by decide)
  · rintro ⟨rfl, tail, rfl, htail⟩
    refine ⟨rfl, ?_⟩
    rw [written_stem (by decide), written_optional htail, readRequired_stem '2' (by decide),
      readRequired_optional, List.prefix_append_right_inj]
    exact ⟨_, rfl⟩

/-- Where a text begins with a character that is no marker, it is read back if what is behind the
character is and no placeholder is read that begins with the character. -/
theorem readBack_cons (hc : c ≠ '$') :
    readBack (c :: rest) = c :: rest ↔ readBack rest = rest ∧
      ¬ placeholder '3' <+: c :: written rest ∧
      ¬ placeholder '2' <+: c :: readRequired (written rest) := by
  rw [readBack, written_cons hc]
  by_cases hrequired : placeholder '3' <+: c :: written rest
  · -- a marker is read in the place of the character
    obtain ⟨x, hx⟩ := hrequired
    refine iff_of_false (fun heq => hc ?_) fun h => h.2.1 ⟨x, hx⟩
    rw [← hx, readRequired_placeholder, readOptional_cons (by simp [placeholder])] at heq
    exact (List.cons.inj heq).1.symm
  · rw [readRequired_cons hrequired]
    by_cases hoptional : placeholder '2' <+: c :: readRequired (written rest)
    · obtain ⟨x, hx⟩ := hoptional
      refine iff_of_false (fun heq => hc ?_) fun h => h.2.2 ⟨x, hx⟩
      rw [← hx, readOptional_placeholder] at heq
      exact (List.cons.inj heq).1.symm
    · rw [readOptional_cons hoptional, List.cons.injEq]
      simp [hrequired, hoptional, readBack]

theorem readOptional_marker (y : List Char) : readOptional ('$' :: y) = '$' :: readOptional y :=
  readOptional_cons (by simp [placeholder])

/-- Where a text begins with a run, it is read back if what is behind the run is, unless the run is
an optional wildcard with the last letter of whose placeholder another begins. -/
theorem readBack_replicate {k : Nat} (hk : 0 < k) (hrest : rest.head? ≠ some '$')
    (haccepted : k ≤ 3 ∨ k = 4 ∧ rest.head? = some '\x7b') :
    readBack (List.replicate k '$' ++ rest) = List.replicate k '$' ++ rest ↔
      readBack rest = rest ∧ ¬ (k = 2 ∧ stem '3' ++ ['a'] <+: written rest) := by
  have hsingle : ∀ y, readRequired ('$' :: y) = '$' :: readRequired y := fun y =>
    readRequired_cons (by simp [placeholder])
  have hcases : k = 1 ∨ k = 2 ∨ k = 3 ∨ k = 4 := by omega
  rcases hcases with rfl | rfl | rfl | rfl
  · have hwritten : written (List.replicate 1 '$' ++ rest) = '$' :: written rest :=
      written_single hrest
    rw [readBack, hwritten, hsingle, readOptional_marker]
    simp [readBack]
  · have hwritten : written (List.replicate 2 '$' ++ rest) = placeholder '2' ++ written rest :=
      written_optional hrest
    rw [readBack, hwritten, readRequired_optional]
    by_cases hshifted : stem '3' ++ ['a'] <+: written rest
    · -- the first letter of the placeholder is left over, where the text has a marker
      obtain ⟨x, hx⟩ := placeholder_prefix_cons.2 ⟨rfl, hshifted⟩
      refine iff_of_false (fun heq => ?_) fun h => h.2 ⟨rfl, hshifted⟩
      rw [← hx, readRequired_placeholder, readOptional_cons (by simp [placeholder, stem])] at heq
      exact absurd (List.cons.inj heq).1 (by decide)
    · rw [readRequired_cons fun hprefix => hshifted (placeholder_prefix_cons.1 hprefix).2]
      have hpair : readOptional ('a' :: (stem '2' ++ 'a' :: readRequired (written rest))) =
          '$' :: '$' :: readBack rest := readOptional_placeholder _
      rw [hpair]
      simp [hshifted]
  · have hwritten : written (List.replicate 3 '$' ++ rest) = placeholder '3' ++ written rest :=
      written_required _
    rw [readBack, hwritten, readRequired_placeholder, readOptional_marker, readOptional_marker,
      readOptional_marker]
    simp [readBack]
  · have hwritten : written (List.replicate 4 '$' ++ rest) =
        placeholder '3' ++ ('$' :: written rest) :=
      (written_required _).trans (congrArg _ (written_single hrest))
    rw [readBack, hwritten, readRequired_placeholder, hsingle, readOptional_marker,
      readOptional_marker, readOptional_marker, readOptional_marker]
    simp [readBack]

/-- An accepted text without placeholders is read back just if its wildcards stand apart. -/
theorem readBack_eq_iff (haccepted : IsAccepted text)
    (hrequired : ¬ placeholder '3' <:+: text) (hoptional : ¬ placeholder '2' <:+: text) :
    readBack text = text ↔ StandsApart text := by
  induction text using Markers.run_induction {} with
  | nil => exact iff_of_true rfl fun _ _ _ hstands => absurd hstands Markers.not_stands_nil
  | plain c rest hc ih =>
      have hinner : IsAccepted rest := fun before width after hstands =>
        haccepted (c :: before) width after ((Markers.stands_cons hc).2 ⟨before, rfl, hstands⟩)
      rw [readBack_cons hc, standsApart_cons hc, required_prefix_iff hrequired,
        optional_prefix_iff hoptional,
        ih hinner (not_infix_tail hrequired) (not_infix_tail hoptional)]
  | run k rest hk hrest ih =>
      have hinner : IsAccepted rest := fun before width after hstands =>
        haccepted _ width after
          ((Markers.stands_replicate hk hrest).2 (Or.inr ⟨before, rfl, hstands⟩))
      have hpart : ∀ {piece : List Char}, ¬ piece <:+: List.replicate k '$' ++ rest →
          ¬ piece <:+: rest := fun hpiece hinside =>
        hpiece (hinside.trans (List.suffix_append _ _).isInfix)
      have hrun := haccepted [] k rest
        ((Markers.stands_replicate hk hrest).2 (Or.inl ⟨rfl, rfl, rfl⟩))
      refine (readBack_replicate hk hrest hrun).trans ?_
      rw [ih hinner (hpart hrequired) (hpart hoptional)]
      exact (standsApart_replicate hk hrest).symm

end ReadBack

/-- **What is written is read back** exactly if no wildcard merges with the text beside it: for
every query text that is accepted, with the default markers, and that holds no placeholder of its
own. -/
theorem decode_encode_iff {text : String} (haccepted : ({} : Markers).findInvalid? text = none)
    (hrequired : ¬ requiredPlaceholder.toList <:+: text.toList)
    (hoptional : ¬ optionalPlaceholder.toList <:+: text.toList) :
    ({} : Markers).decode (({} : Markers).encode text) = text ↔
      ∀ before width after, ({} : Markers).Stands before width after text.toList →
        ¬ Merges before width after := by
  rw [encode_default, decode_default, String.toList_ofList, ← String.toList_inj,
    String.toList_ofList]
  exact readBack_eq_iff (Markers.findInvalid?_eq_none_iff.1 haccepted) hrequired hoptional

/-- A required wildcard may stand where an optional one would merge with what follows. -/
theorem decode_encode_iff_required :
    ({} : Markers).findInvalid? "$$$_x_3_x_a" = none ∧
      (({} : Markers).decode (({} : Markers).encode "$$$_x_3_x_a") = "$$$_x_3_x_a" ↔
        ∀ before width after, ({} : Markers).Stands before width after "$$$_x_3_x_a".toList →
          ¬ Merges before width after) :=
  ⟨by decide +kernel,
    decode_encode_iff (by decide +kernel) (by decide +kernel) (by decide +kernel)⟩

/-- The optional wildcard merges with what follows: its placeholder `a_x_2_x_a` and the text behind
it hold `a_x_3_x_a` too, which is read first. -/
theorem optional_merges :
    ¬ ∀ text : String, ({} : Markers).findInvalid? text = none →
      ¬ requiredPlaceholder.toList <:+: text.toList →
      ¬ optionalPlaceholder.toList <:+: text.toList →
      ({} : Markers).decode (({} : Markers).encode text) = text := by
  intro h
  exact absurd (h "$$_x_3_x_a" (by decide +kernel) (by decide +kernel) (by decide +kernel))
    (by decide +kernel)

end CodeSearch
