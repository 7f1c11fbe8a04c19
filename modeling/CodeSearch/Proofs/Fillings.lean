import CodeSearch.Proofs.Literals

/-!
# The fillings of a pattern

A **filling** of a pattern gives each gap a text so that literals and fillers together make up the
value. A value may have many fillings. They are ordered by the lengths of their fillers, those of
the first gap first.

A leftmost-first matcher of the expression of a pattern tries the fillings one after another: the
shortest filler for the first gap with everything that can follow it, then the next longer one, and
so on, going back to a gap whenever the rest cannot be filled. So what it finds is the filling that
comes before all others. Placing each literal as early as it fits, without ever going back, finds
the same.

`captures?_ofText`: a text with wildcards matches a value just if the value is made up of its
fragments and fillers between them, and its aliases capture the fillers that come first.
-/

set_option autoImplicit false

namespace CodeSearch

variable {ignoreCase : Bool} {literal text rest start : List Char}

/-! ## Shortest fillers -/

/-- If any filler is long enough with the literal after it, a shortest one is found. -/
theorem shortestFiller?_shortest {least : Nat} {filler : List Char} (rest : List Char)
    (hleast : least ≤ filler.length) (hspells : Text.Spells ignoreCase literal start) :
    ∃ shortest left,
      shortestFiller? ignoreCase literal least (filler ++ (start ++ rest)) = some (shortest, left) ∧
        shortest.length ≤ filler.length := by
  have hhere : ∀ text, (dropLiteral? ignoreCase literal text).isSome = true →
      ∃ left, shortestFiller? ignoreCase literal 0 text = some ([], left) := by
    intro text hsome
    obtain ⟨left, hleft⟩ := Option.isSome_iff_exists.1 hsome
    cases text with
    | nil => exact ⟨left, by simp [shortestFiller?, hleft]⟩
    | cons c text => exact ⟨left, by simp [shortestFiller?, hleft]⟩
  induction filler generalizing least with
  | nil =>
      obtain rfl : least = 0 := Nat.le_zero.1 hleast
      have hdrop : dropLiteral? ignoreCase literal (start ++ rest) = some rest :=
        dropLiteral?_eq_some_iff.2 ⟨start, hspells, rfl⟩
      obtain ⟨left, hleft⟩ := hhere (start ++ rest) (by rw [hdrop]; rfl)
      exact ⟨[], left, hleft, Nat.le_refl _⟩
  | cons c filler ih =>
      rw [List.cons_append]
      cases least with
      | zero =>
          obtain ⟨shortest, left, hfound, hlength⟩ := ih (Nat.zero_le _)
          by_cases hsome :
              (dropLiteral? ignoreCase literal (c :: (filler ++ (start ++ rest)))).isSome = true
          · obtain ⟨left, hleft⟩ := hhere _ hsome
            exact ⟨[], left, hleft, Nat.zero_le _⟩
          · refine ⟨c :: shortest, left, ?_, Nat.succ_le_succ hlength⟩
            have hnone := Option.not_isSome_iff_eq_none.1 hsome
            simp [shortestFiller?, hnone, hfound]
      | succ least =>
          obtain ⟨shortest, left, hfound, hlength⟩ := ih (Nat.le_of_succ_le_succ hleast)
          exact ⟨c :: shortest, left, by simp [shortestFiller?, hfound],
            Nat.succ_le_succ hlength⟩

/-! ## Fillings -/

namespace Pattern

/-- A **filling** of gaps: a filler for each, long enough, so that fillers and literals make up the
text. -/
inductive Fills (ignoreCase : Bool) : List Gap → List (List Char) → List Char → Prop
  | done : Fills ignoreCase [] [] []
  | gap {gap : Gap} {gaps : List Gap} {filler start rest : List Char} {fillers : List (List Char)}
      (hleast : gap.least ≤ filler.length) (hspells : Text.Spells ignoreCase gap.literal start)
      (h : Fills ignoreCase gaps fillers rest) :
      Fills ignoreCase (gap :: gaps) (filler :: fillers) (filler ++ (start ++ rest))

/-- The lengths of fillers, by which fillings are ordered. -/
def lengths (fillers : List (List Char)) : List Nat := fillers.map List.length

/-- Fillers come **before** others if their lengths do, in lexicographic order. -/
def Before (fillers others : List (List Char)) : Prop :=
  List.Lex (fun m n => m < n) (lengths fillers) (lengths others)

theorem Before.of_shorter {filler other : List Char} (h : filler.length < other.length)
    (fillers others : List (List Char)) : Before (filler :: fillers) (other :: others) :=
  List.Lex.rel h

theorem Before.of_later {fillers others : List (List Char)} {filler other : List Char}
    (hlength : filler.length = other.length) (h : Before fillers others) :
    Before (filler :: fillers) (other :: others) := by
  rw [Before, lengths, lengths, List.map_cons, List.map_cons, hlength]
  exact List.Lex.cons h

theorem Before.cases_cons {fillers others : List (List Char)} {filler other : List Char}
    (h : Before (filler :: fillers) (other :: others)) :
    filler.length < other.length ∨ filler.length = other.length ∧ Before fillers others := by
  rw [Before, lengths, lengths, List.map_cons, List.map_cons] at h
  generalize hfirst : filler.length = m at h ⊢
  generalize hother : other.length = n at h ⊢
  cases h with
  | rel h => exact Or.inl h
  | cons h => exact Or.inr ⟨rfl, h⟩

theorem Before.asymm {fillers others : List (List Char)} (h : Before fillers others) :
    ¬ Before others fillers := by
  induction fillers generalizing others with
  | nil =>
      intro hback
      cases others <;> cases hback
  | cons filler fillers ih =>
      intro hback
      cases others with
      | nil => cases h
      | cons other others =>
          rcases h.cases_cons with hless | ⟨hsame, hlater⟩
          · rcases hback.cases_cons with hmore | ⟨hsame, -⟩ <;> omega
          · rcases hback.cases_cons with hmore | ⟨-, hback⟩
            · omega
            · exact ih hlater hback

variable {gap : Gap} {gaps : List Gap} {fillers others : List (List Char)}

/-- More text in front goes into the first gap. -/
theorem Fills.widen (h : Fills ignoreCase (gap :: gaps) fillers text) (more : List Char) :
    ∃ wider, Fills ignoreCase (gap :: gaps) wider (more ++ text) := by
  cases h with
  | @gap _ _ filler start rest fillers hleast hspells h =>
      refine ⟨(more ++ filler) :: fillers, ?_⟩
      rw [← List.append_assoc more filler]
      refine Fills.gap ?_ hspells h
      rw [List.length_append]
      omega

theorem fill?_cons_cons (ignoreCase : Bool) (gap next : Gap) (gaps : List Gap) (text : List Char) :
    fill? ignoreCase (gap :: next :: gaps) text =
      (shortestFiller? ignoreCase gap.literal gap.least text).bind fun found =>
        (fill? ignoreCase (next :: gaps) found.2).map (found.1 :: ·) := by
  rw [fill?]
  cases shortestFiller? ignoreCase gap.literal gap.least text with
  | none => rfl
  | some found =>
      show (fill? ignoreCase (next :: gaps) found.2).bind _ =
        (fill? ignoreCase (next :: gaps) found.2).map _
      cases fill? ignoreCase (next :: gaps) found.2 <;> rfl

/-- The fillers that are found make a filling. -/
theorem fills_of_fill? (h : fill? ignoreCase gaps text = some fillers) :
    Fills ignoreCase gaps fillers text := by
  induction gaps generalizing text fillers with
  | nil =>
      cases text with
      | nil =>
          obtain rfl : [] = fillers := by simpa [fill?] using h
          exact Fills.done
      | cons c text => simp [fill?] at h
  | cons gap gaps ih =>
      cases gaps with
      | nil =>
          obtain ⟨filler, hfiller, rfl⟩ := Option.map_eq_some_iff.1 h
          obtain ⟨hleast, start, hspells, rfl⟩ := lastFiller?_eq_some_iff.1 hfiller
          have hfills : Fills ignoreCase [gap] [filler] (filler ++ (start ++ [])) :=
            Fills.gap hleast hspells Fills.done
          rwa [List.append_nil] at hfills
      | cons next gaps =>
          rw [fill?_cons_cons] at h
          obtain ⟨⟨filler, rest⟩, hfiller, h⟩ := Option.bind_eq_some_iff.1 h
          obtain ⟨later, hlater, rfl⟩ := Option.map_eq_some_iff.1 h
          obtain ⟨hleast, start, hspells, rfl⟩ := shortestFiller?_sound hfiller
          exact Fills.gap hleast hspells (ih hlater)

/-- **Never going back misses nothing**: if there is a filling, it is found, or one that comes
before it. -/
theorem exists_fill? (h : Fills ignoreCase gaps others text) :
    ∃ fillers, fill? ignoreCase gaps text = some fillers ∧
      (fillers = others ∨ Before fillers others) := by
  induction gaps generalizing text others with
  | nil =>
      cases h
      exact ⟨[], rfl, Or.inl rfl⟩
  | cons gap gaps ih =>
      cases h with
      | @gap _ _ filler start rest later hleast hspells hrest =>
          cases gaps with
          | nil =>
              cases hrest
              refine ⟨[filler], ?_, Or.inl rfl⟩
              rw [fill?, List.append_nil]
              rw [lastFiller?_eq_some_iff.2 ⟨hleast, start, hspells, rfl⟩]
              rfl
          | cons next gaps =>
              obtain ⟨shortest, left, hshortest, hlength⟩ :=
                shortestFiller?_shortest rest hleast hspells
              rw [fill?_cons_cons, hshortest, Option.bind_some]
              obtain ⟨-, start', hspells', htext⟩ := shortestFiller?_sound hshortest
              have hstarts : start'.length = start.length :=
                hspells'.length_eq.symm.trans hspells.length_eq
              rcases Nat.lt_or_eq_of_le hlength with hshorter | hsame
              · -- the literal fits earlier; what lies between the two places goes into the next gap
                obtain ⟨more, rfl⟩ : ∃ more, left = more ++ rest := by
                  rw [← List.append_assoc, ← List.append_assoc] at htext
                  rcases List.append_eq_append_iff.1 htext with ⟨back, hback, -⟩ | ⟨more, -, hmore⟩
                  · have := congrArg List.length hback
                    simp only [List.length_append] at this
                    omega
                  · exact ⟨more, hmore⟩
                obtain ⟨wider, hwider⟩ := hrest.widen more
                obtain ⟨fillers, hfillers, -⟩ := ih hwider
                exact ⟨shortest :: fillers, by rw [hfillers]; rfl,
                  Or.inr (Before.of_shorter hshorter _ _)⟩
              · obtain ⟨rfl, hrests⟩ := List.append_inj htext hsame.symm
                obtain ⟨rfl, rfl⟩ := List.append_inj hrests hstarts.symm
                obtain ⟨fillers, hfillers, hfirst⟩ := ih hrest
                refine ⟨filler :: fillers, by rw [hfillers]; rfl, ?_⟩
                rcases hfirst with rfl | hbefore
                · exact Or.inl rfl
                · exact Or.inr (Before.of_later rfl hbefore)

/-- The fillers that are found are the filling that comes first. -/
theorem fill?_eq_some_iff : fill? ignoreCase gaps text = some fillers ↔
    Fills ignoreCase gaps fillers text ∧
      ∀ others, Fills ignoreCase gaps others text → others = fillers ∨ Before fillers others := by
  constructor
  · intro h
    refine ⟨fills_of_fill? h, fun others hothers => ?_⟩
    obtain ⟨found, hfound, hfirst⟩ := exists_fill? hothers
    obtain rfl := Option.some.inj (h.symm.trans hfound)
    exact hfirst.imp_left Eq.symm
  · rintro ⟨hfills, hfirst⟩
    obtain ⟨found, hfound, hbefore⟩ := exists_fill? hfills
    rw [hfound]
    rcases hbefore with rfl | hbefore
    · rfl
    · rcases hfirst found (fills_of_fill? hfound) with rfl | hback
      · rfl
      · exact absurd hback hbefore.asymm

/-! ## Leftmost first -/

section Lazy

variable {next : List Char → List (List (List Char))} {least : Nat}

/-- A lazy piece matches any long enough start of the text that what comes next can follow. -/
theorem mem_lazyWays : fillers ∈ lazyWays next least text ↔ ∃ filler later rest,
    fillers = filler :: later ∧ text = filler ++ rest ∧ least ≤ filler.length ∧
      later ∈ next rest := by
  induction text generalizing least fillers with
  | nil =>
      cases least with
      | zero =>
          rw [lazyWays, List.mem_map]
          constructor
          · rintro ⟨later, hlater, rfl⟩
            exact ⟨[], later, [], rfl, rfl, Nat.le_refl _, hlater⟩
          · rintro ⟨filler, later, rest, rfl, htext, -, hlater⟩
            obtain ⟨rfl, rfl⟩ := List.append_eq_nil_iff.1 htext.symm
            exact ⟨later, hlater, rfl⟩
      | succ least =>
          rw [lazyWays]
          constructor
          · exact fun h => absurd h List.not_mem_nil
          · rintro ⟨filler, later, rest, -, htext, hlength, -⟩
            obtain ⟨rfl, -⟩ := List.append_eq_nil_iff.1 htext.symm
            exact absurd hlength (Nat.not_succ_le_zero _)
  | cons c text ih =>
      have htaken : ∀ least', fillers ∈ (lazyWays next least' text).map (lengthenFirst c) ↔
          ∃ filler later rest, fillers = (c :: filler) :: later ∧ text = filler ++ rest ∧
            least' ≤ filler.length ∧ later ∈ next rest := by
        intro least'
        rw [List.mem_map]
        constructor
        · rintro ⟨found, hfound, rfl⟩
          obtain ⟨filler, later, rest, rfl, htext, hlength, hlater⟩ := ih.1 hfound
          exact ⟨filler, later, rest, rfl, htext, hlength, hlater⟩
        · rintro ⟨filler, later, rest, rfl, htext, hlength, hlater⟩
          exact ⟨filler :: later, ih.2 ⟨filler, later, rest, rfl, htext, hlength, hlater⟩, rfl⟩
      cases least with
      | zero =>
          rw [lazyWays, List.mem_append, htaken, List.mem_map]
          constructor
          · rintro (⟨later, hlater, rfl⟩ | ⟨filler, later, rest, rfl, rfl, -, hlater⟩)
            · exact ⟨[], later, c :: text, rfl, rfl, Nat.le_refl _, hlater⟩
            · exact ⟨c :: filler, later, rest, rfl, rfl, Nat.zero_le _, hlater⟩
          · rintro ⟨filler, later, rest, rfl, htext, -, hlater⟩
            cases filler with
            | nil => exact Or.inl ⟨later, by rwa [htext], rfl⟩
            | cons d filler =>
                obtain ⟨rfl, rfl⟩ := List.cons.inj htext
                exact Or.inr ⟨filler, later, rest, rfl, rfl, Nat.zero_le _, hlater⟩
      | succ least =>
          rw [lazyWays, htaken]
          constructor
          · rintro ⟨filler, later, rest, rfl, rfl, hlength, hlater⟩
            exact ⟨c :: filler, later, rest, rfl, rfl, Nat.succ_le_succ hlength, hlater⟩
          · rintro ⟨filler, later, rest, rfl, htext, hlength, hlater⟩
            cases filler with
            | nil => exact absurd hlength (Nat.not_succ_le_zero _)
            | cons d filler =>
                obtain ⟨rfl, rfl⟩ := List.cons.inj htext
                exact ⟨filler, later, rest, rfl, rfl, Nat.le_of_succ_le_succ hlength, hlater⟩

theorem before_lengthenFirst {c : Char} {filler other : List Char}
    (h : Before (filler :: fillers) (other :: others)) :
    Before (lengthenFirst c (filler :: fillers)) (lengthenFirst c (other :: others)) := by
  rcases h.cases_cons with hfirst | ⟨hfirst, hlater⟩
  · have hlonger : (c :: filler).length < (c :: other).length := Nat.succ_lt_succ hfirst
    exact Before.of_shorter hlonger _ _
  · exact Before.of_later (congrArg Nat.succ hfirst) hlater

/-- The ways of a lazy piece are tried in order of their lengths if those of what comes next are. -/
theorem lazyWays_sorted (hnext : ∀ rest, (next rest).Pairwise Before) (text : List Char) :
    (lazyWays next least text).Pairwise Before := by
  have hhere : ∀ text, ((next text).map ([] :: ·)).Pairwise Before := by
    intro text
    rw [List.pairwise_map]
    exact (hnext text).imp fun h => Before.of_later rfl h
  induction text generalizing least with
  | nil =>
      cases least with
      | zero => exact hhere []
      | succ least => exact List.Pairwise.nil
  | cons c text ih =>
      have htaken : ∀ least', ((lazyWays next least' text).map (lengthenFirst c)).Pairwise
          Before := by
        intro least'
        rw [List.pairwise_map]
        refine List.Pairwise.imp_of_mem (fun {a b} ha hb hbefore => ?_) ih
        obtain ⟨filler, fillers, -, rfl, -⟩ := mem_lazyWays.1 ha
        obtain ⟨other, others, -, rfl, -⟩ := mem_lazyWays.1 hb
        exact before_lengthenFirst hbefore
      cases least with
      | zero =>
          rw [lazyWays, List.pairwise_append]
          refine ⟨hhere (c :: text), htaken 0, fun a ha b hb => ?_⟩
          -- an empty filler is shorter than one with the character
          obtain ⟨later, -, rfl⟩ := List.mem_map.1 ha
          obtain ⟨found, hfound, rfl⟩ := List.mem_map.1 hb
          obtain ⟨filler, others, -, rfl, -⟩ := mem_lazyWays.1 hfound
          have hlonger : ([] : List Char).length < (c :: filler).length := Nat.succ_pos _
          exact Before.of_shorter hlonger _ _
      | succ least => exact htaken least

end Lazy

/-- The ways in which the expression of some gaps matches are their fillings. -/
theorem mem_ways_piecesOf :
    fillers ∈ ways ignoreCase (piecesOf gaps) text ↔ Fills ignoreCase gaps fillers text := by
  induction gaps generalizing text fillers with
  | nil =>
      rw [piecesOf, ways]
      cases text with
      | nil =>
          constructor
          · intro h
            obtain rfl := List.mem_singleton.1 h
            exact Fills.done
          · intro h
            cases h
            exact List.mem_singleton.2 rfl
      | cons c text =>
          constructor
          · exact fun h => absurd h List.not_mem_nil
          · intro h
            cases h
  | cons gap gaps ih =>
      rw [piecesOf, ways, mem_lazyWays]
      constructor
      · rintro ⟨filler, later, rest, rfl, rfl, hleast, hlater⟩
        rw [ways] at hlater
        cases hdrop : dropLiteral? ignoreCase gap.literal rest with
        | none => simp [hdrop] at hlater
        | some left =>
            obtain ⟨start, hspells, rfl⟩ := dropLiteral?_eq_some_iff.1 hdrop
            simp only [hdrop] at hlater
            exact Fills.gap hleast hspells (ih.1 hlater)
      · intro h
        cases h with
        | @gap _ _ filler start rest later hleast hspells h =>
            refine ⟨filler, later, start ++ rest, rfl, rfl, hleast, ?_⟩
            rw [ways, dropLiteral?_eq_some_iff.2 ⟨start, hspells, rfl⟩]
            exact ih.2 h

/-- The ways of an expression are tried in order of their lengths. -/
theorem ways_sorted (pieces : List Piece) (text : List Char) :
    (ways ignoreCase pieces text).Pairwise Before := by
  induction pieces generalizing text with
  | nil =>
      rw [ways]
      split
      next => exact List.pairwise_singleton _ _
      next => exact List.Pairwise.nil
  | cons piece pieces ih =>
      cases piece with
      | literal literal =>
          rw [ways]
          cases dropLiteral? ignoreCase literal text with
          | some rest => exact ih rest
          | none => exact List.Pairwise.nil
      | lazy least => exact lazyWays_sorted ih text

/-- The fillers that are found are those of the way that comes first. -/
theorem fillers?_eq_some_iff {p : Pattern} {value : List Char} :
    p.fillers? ignoreCase value = some fillers ↔ fillers ∈ ways ignoreCase p.expression value ∧
      ∀ others ∈ ways ignoreCase p.expression value, others = fillers ∨ Before fillers others := by
  rw [fillers?, expression, ways]
  cases dropLiteral? ignoreCase p.head value with
  | none => simp
  | some rest => simp [fill?_eq_some_iff, mem_ways_piecesOf]

/-- **What a leftmost-first matcher finds is found without going back.** -/
theorem fillers?_eq_head? (p : Pattern) (ignoreCase : Bool) (value : List Char) :
    p.fillers? ignoreCase value = (ways ignoreCase p.expression value).head? := by
  have hsorted : (ways ignoreCase p.expression value).Pairwise Before :=
    ways_sorted p.expression value
  cases hways : ways ignoreCase p.expression value with
  | nil =>
      rw [List.head?_nil, Option.eq_none_iff_forall_not_mem]
      intro fillers hfillers
      have hmem := (fillers?_eq_some_iff.1 hfillers).1
      rw [hways] at hmem
      exact List.not_mem_nil hmem
  | cons first later =>
      rw [hways, List.pairwise_cons] at hsorted
      rw [List.head?_cons, fillers?_eq_some_iff, hways]
      refine ⟨List.mem_cons_self, fun others hothers => ?_⟩
      exact (List.mem_cons.1 hothers).imp_right (hsorted.1 others)

end Pattern

/-! ## Texts with wildcards -/

/-- Literals with a filler between each two. -/
def interlace : List (List Char) → List (List Char) → List Char
  | [], _ => []
  | literal :: _, [] => literal
  | literal :: literals, filler :: fillers => literal ++ (filler ++ interlace literals fillers)

/-- A wildcard may stand for a text: a required one for any but the empty text. -/
def Occurrence.Takes (o : Occurrence) (filler : List Char) : Prop := o.required = true → filler ≠ []

instance : DecidableRel Occurrence.Takes := fun o filler =>
  inferInstanceAs (Decidable (o.required = true → filler ≠ []))

/-- The fragments of a text with wildcards and fillers between them make up a value. -/
structure Markers.Decomposes (m : Markers) (text value : String) (fillers : List (List Char)) :
    Prop where
  takes : List.Forall₂ Occurrence.Takes (m.scan text.toList) fillers
  value_eq : value.toList = interlace ((m.fragments text).map String.toList) fillers

/-- The **first** decomposition of a value: its fillers come before those of any other. -/
structure Markers.DecomposesFirst (m : Markers) (text value : String)
    (fillers : List (List Char)) : Prop extends m.Decomposes text value fillers where
  first : ∀ others, m.Decomposes text value others →
    others = fillers ∨ Pattern.Before fillers others

/-- What fillers give the aliases of a text, each with the place of its wildcard. -/
def Markers.capturesOf (m : Markers) (text : String) (fillers : List (List Char)) : List Capture :=
  ((m.scan text.toList).zip fillers).zipIdx.filterMap fun ((o, filler), index) =>
    o.aliasName.map fun name => ⟨index, String.ofList name, String.ofList filler⟩

namespace Pattern

variable {wildcards : List Occurrence} {literals fillers : List (List Char)}

/-- A gap takes what its wildcard takes. -/
theorem least_le_length_iff {o : Occurrence} {filler : List Char} :
    (if o.required then 1 else 0) ≤ filler.length ↔ o.Takes filler := by
  rw [Occurrence.Takes]
  split
  next h => simp [h, Nat.one_le_iff_ne_zero]
  next h => simp [h]

/-- The gaps between literals are filled if literals and fillers make up the text. -/
theorem fills_gapsOf_iff (hlength : literals.length = wildcards.length) (head : List Char) :
    Fills false (gapsOf wildcards literals) fillers rest ↔
      List.Forall₂ Occurrence.Takes wildcards fillers ∧
        head ++ rest = interlace (head :: literals) fillers := by
  induction wildcards generalizing literals fillers rest head with
  | nil =>
      obtain rfl := List.eq_nil_of_length_eq_zero hlength
      constructor
      · intro h
        cases h
        exact ⟨List.Forall₂.nil, List.append_nil head⟩
      · rintro ⟨htakes, heq⟩
        cases htakes
        obtain rfl : rest = [] := List.append_right_eq_self.1 heq
        exact Fills.done
  | cons o wildcards ih =>
      cases literals with
      | nil => simp at hlength
      | cons literal literals =>
          have ih : ∀ fillers rest, Fills false (gapsOf wildcards literals) fillers rest ↔
              List.Forall₂ Occurrence.Takes wildcards fillers ∧
                literal ++ rest = interlace (literal :: literals) fillers :=
            fun _ _ => ih (Nat.succ.inj hlength) literal
          rw [gapsOf]
          constructor
          · intro h
            cases h with
            | @gap _ _ filler start rest fillers hleast hspells h =>
                obtain ⟨htakes, heq⟩ := (ih _ _).1 h
                obtain rfl : literal = start := Text.spells_false_iff.1 hspells
                refine ⟨List.Forall₂.cons (least_le_length_iff.1 hleast) htakes, ?_⟩
                rw [interlace, heq]
          · rintro ⟨htakes, heq⟩
            cases htakes with
            | @cons _ filler _ fillers htake htakes =>
                obtain rfl : rest = filler ++ interlace (literal :: literals) fillers :=
                  List.append_cancel_left heq
                obtain ⟨rest, hrest⟩ : ∃ rest,
                    literal ++ rest = interlace (literal :: literals) fillers := by
                  cases fillers with
                  | nil => exact ⟨[], List.append_nil literal⟩
                  | cons filler fillers => exact ⟨_, rfl⟩
                rw [← hrest]
                exact Fills.gap (least_le_length_iff.2 htake) (Text.spells_false_iff.2 rfl)
                  ((ih _ _).2 ⟨htakes, hrest⟩)

/-- The ways in which the expression of a text matches are the decompositions of the value. -/
theorem mem_ways_ofText {m : Markers} {text value : String} :
    fillers ∈ ways false (ofText m text).expression value.toList ↔
      m.Decomposes text value fillers := by
  obtain ⟨head, literals, hfragments, hlength, hof⟩ := ofText_eq m text
  have hliterals : (m.fragments text).map String.toList = head :: literals := by
    rw [Markers.fragments, hfragments, List.map_map]
    simp [Function.comp_def]
  have hiff : ∀ rest, Fills false (gapsOf (m.scan text.toList) literals) fillers rest ↔
      List.Forall₂ Occurrence.Takes (m.scan text.toList) fillers ∧
        head ++ rest = interlace (head :: literals) fillers :=
    fun _ => fills_gapsOf_iff hlength head
  rw [hof, expression, ways]
  constructor
  · intro h
    cases hdrop : dropLiteral? false head value.toList with
    | none => simp [hdrop] at h
    | some rest =>
        simp only [hdrop] at h
        have hvalue : value.toList = head ++ rest := dropLiteral?_false.1 hdrop
        obtain ⟨htakes, heq⟩ := (hiff rest).1 (mem_ways_piecesOf.1 h)
        exact ⟨htakes, by rw [hvalue, heq, hliterals]⟩
  · rintro ⟨htakes, hvalue⟩
    rw [hliterals] at hvalue
    obtain ⟨rest, hrest⟩ : ∃ rest, head ++ rest = interlace (head :: literals) fillers := by
      cases fillers with
      | nil => exact ⟨[], List.append_nil head⟩
      | cons filler fillers => exact ⟨_, rfl⟩
    have hdrop : dropLiteral? false head value.toList = some rest :=
      dropLiteral?_false.2 (by rw [hvalue, hrest])
    rw [hdrop]
    exact mem_ways_piecesOf.2 ((hiff rest).2 ⟨htakes, hrest⟩)

theorem capturesFrom_gapsOf (hlength : literals.length = wildcards.length) (index : Nat) :
    capturesFrom index (gapsOf wildcards literals) fillers =
      ((wildcards.zip fillers).zipIdx index).filterMap fun ((o, filler), index) =>
        o.aliasName.map fun name => ⟨index, String.ofList name, String.ofList filler⟩ := by
  induction wildcards generalizing literals fillers index with
  | nil =>
      obtain rfl := List.eq_nil_of_length_eq_zero hlength
      rfl
  | cons o wildcards ih =>
      cases literals with
      | nil => simp at hlength
      | cons literal literals =>
          cases fillers with
          | nil => rfl
          | cons filler fillers =>
              rw [gapsOf, capturesFrom, List.zip_cons_cons, List.zipIdx_cons, List.filterMap_cons,
                ih (Nat.succ.inj hlength)]
              obtain ⟨start, width, length, aliasName⟩ := o
              cases aliasName <;> rfl

theorem capturesFrom_ofText (m : Markers) (text : String) (fillers : List (List Char)) :
    capturesFrom 0 (ofText m text).gaps fillers = m.capturesOf text fillers := by
  obtain ⟨head, literals, -, hlength, hof⟩ := ofText_eq m text
  rw [hof]
  exact capturesFrom_gapsOf hlength 0

/-- What a text with wildcards captures is what the first decomposition gives its aliases. -/
theorem captures?_eq_some_iff {m : Markers} {text value : String} {captures : List Capture} :
    (ofText m text).captures? false value = some captures ↔
      ∃ fillers, m.DecomposesFirst text value fillers ∧ m.capturesOf text fillers = captures := by
  have hfirst : ∀ fillers, m.DecomposesFirst text value fillers ↔ m.Decomposes text value fillers ∧
      ∀ others, m.Decomposes text value others → others = fillers ∨ Before fillers others :=
    fun fillers => ⟨fun h => ⟨h.toDecomposes, h.first⟩, fun h => ⟨h.1, h.2⟩⟩
  rw [captures?, Option.map_eq_some_iff]
  simp only [fillers?_eq_some_iff, mem_ways_ofText, capturesFrom_ofText, hfirst]

/-- A value that can be decomposed has a first decomposition. -/
theorem exists_captures?_iff {m : Markers} {text value : String} :
    (∃ captures, (ofText m text).captures? false value = some captures) ↔
      ∃ fillers, m.Decomposes text value fillers := by
  constructor
  · rintro ⟨captures, hcaptures⟩
    obtain ⟨fillers, hfillers, -⟩ := captures?_eq_some_iff.1 hcaptures
    exact ⟨fillers, hfillers.toDecomposes⟩
  · rintro ⟨fillers, hfillers⟩
    rw [captures?, fillers?_eq_head?]
    cases hways : ways false (ofText m text).expression value.toList with
    | nil => exact absurd (mem_ways_ofText.2 hfillers) (by simp [hways])
    | cons first later => exact ⟨_, rfl⟩

/-- **What a text with wildcards means**, letter case counting. What it finds is what a
leftmost-first matcher finds for its expression. It matches a value just if the value is made up of
its fragments and of fillers between them, and its aliases capture the fillers of the first
decomposition. -/
theorem captures?_ofText (m : Markers) (text value : String) :
    (ofText m text).captures? false value =
        (ways false (ofText m text).expression value.toList).head?.map (m.capturesOf text) ∧
      ((∃ captures, (ofText m text).captures? false value = some captures) ↔
        ∃ fillers, m.Decomposes text value fillers) ∧
      ∀ captures, (ofText m text).captures? false value = some captures ↔
        ∃ fillers, m.DecomposesFirst text value fillers ∧
          m.capturesOf text fillers = captures := by
  refine ⟨?_, exists_captures?_iff, fun captures => captures?_eq_some_iff⟩
  rw [captures?, fillers?_eq_head?]
  simp only [funext (capturesFrom_ofText m text)]

end Pattern

end CodeSearch
