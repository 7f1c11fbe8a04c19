import CodeSearch.Proofs.Literals

/-!
# How texts with wildcards are written

A text is a literal and then wildcards, each with the literal after it. There is one way to take a
text apart like this: where its wildcards are depends on runs of markers, and whether a run has an
alias on what stands around it up to the next run. So a text that is put together from other names
has the same wildcards, at the same places but for the length of the names.

All this rests on a marker that can be no part of an alias.
-/

set_option autoImplicit false

namespace CodeSearch

/-! ## Aliases -/

/-- A marker **stands apart** if it is neither an underscore nor a letter or digit. -/
structure Markers.StandsApart (m : Markers) : Prop where
  underscore : m.marker ≠ '_'
  alphanum : m.marker.isAlphanum = false

theorem Markers.standsApart_default : Markers.StandsApart {} := ⟨by decide, by decide⟩

/-- The name of an alias consists of letters and digits. -/
structure IsAliasName (name : List Char) : Prop where
  ne_nil : name ≠ []
  alphanum : ∀ c ∈ name, c.isAlphanum = true

theorem isAliasName_iff {name : List Char} :
    IsAliasName name ↔ (!name.isEmpty && name.all Char.isAlphanum) = true := by
  rw [Bool.and_eq_true, Bool.not_eq_true', List.isEmpty_eq_false_iff, List.all_eq_true]
  exact ⟨fun h => ⟨h.ne_nil, h.alphanum⟩, fun h => ⟨h.1, h.2⟩⟩

instance (name : List Char) : Decidable (IsAliasName name) :=
  decidable_of_iff _ isAliasName_iff.symm

/-- An alias as it is written: its name, and whether an underscore closes it. -/
structure WrittenAlias where
  name : List Char
  closed : Bool

namespace WrittenAlias

/-- The characters after the name. -/
def closing (a : WrittenAlias) : List Char := if a.closed then ['_'] else []

/-- The characters of an alias. -/
def text (a : WrittenAlias) : List Char := '_' :: (a.name ++ a.closing)

/-- An alias is **read in front of** a text if no marker begins the text, nor anything that would be
read as a part of the alias. -/
structure ReadBefore (m : Markers) (a : WrittenAlias) (after : List Char) : Prop where
  name : IsAliasName a.name
  marker : after.head? ≠ some m.marker
  underscore : a.closed = false → after.head? ≠ some '_'
  alphanum : a.closed = false → ∀ c ∈ after.head?, c.isAlphanum = false

variable {m : Markers} {a : WrittenAlias} {after other : List Char}

/-- It is the next character alone that decides where an alias ends. -/
theorem ReadBefore.congr (h : a.ReadBefore m after) (hhead : other.head? = after.head?) :
    a.ReadBefore m other := by
  obtain ⟨hname, hmarker, hunderscore, halphanum⟩ := h
  rw [← hhead] at hmarker hunderscore halphanum
  exact ⟨hname, hmarker, hunderscore, halphanum⟩

theorem marker_not_mem_text (hm : m.StandsApart) (hname : IsAliasName a.name) :
    m.marker ∉ a.text := by
  intro hmem
  rcases List.mem_cons.1 hmem with heq | hmem
  · exact hm.underscore heq
  rcases List.mem_append.1 hmem with hmem | hmem
  · exact absurd (hname.alphanum _ hmem) (Bool.eq_false_iff.1 hm.alphanum)
  · rw [closing] at hmem
    split at hmem
    next => exact hm.underscore (List.mem_singleton.1 hmem)
    next => exact List.not_mem_nil hmem

end WrittenAlias

namespace Markers

variable {m : Markers} {literal text rest after name : List Char}

/-- A name is read up to the first character that can be no part of it. -/
theorem aliasAt?_span (hname : ∀ c ∈ name, c.isAlphanum = true)
    (hafter : ∀ c ∈ after.head?, c.isAlphanum = false) :
    m.aliasAt? ('_' :: (name ++ after)) =
      let closing := if after.head? = some '_' then 1 else 0
      if name.isEmpty || (after.drop closing).head? = some m.marker then none
      else some (name, 1 + name.length + closing) := by
  have htake : (name ++ after).takeWhile Char.isAlphanum = name := by
    rw [List.takeWhile_append_of_pos hname]
    cases after with
    | nil => simp
    | cons c after => simp [hafter c rfl]
  rw [aliasAt?, htake, List.drop_left]

/-- A text starts with the letters and digits up to its first other character. -/
theorem exists_span (text : List Char) : ∃ name after : List Char, text = name ++ after ∧
    (∀ c ∈ name, c.isAlphanum = true) ∧ ∀ c ∈ after.head?, c.isAlphanum = false := by
  refine ⟨text.takeWhile Char.isAlphanum, text.dropWhile Char.isAlphanum,
    List.takeWhile_append_dropWhile.symm, fun c hc => ?_, fun c hc => ?_⟩
  · exact List.all_eq_true.1 List.all_takeWhile c hc
  · have hhead := List.head?_dropWhile_not Char.isAlphanum text
    rwa [Option.mem_def.1 hc] at hhead

/-- An alias that is written is read. -/
theorem aliasAt?_text {a : WrittenAlias} (h : a.ReadBefore m after) :
    m.aliasAt? (a.text ++ after) = some (a.name, a.text.length) := by
  obtain ⟨name, closed⟩ := a
  have hne : name ≠ [] := h.name.ne_nil
  cases closed with
  | true =>
      have hunderscore : ∀ c ∈ ('_' :: after).head?, c.isAlphanum = false := by
        rintro c ⟨⟩
        decide
      have hspan := aliasAt?_span (m := m) h.name.alphanum hunderscore
      simp [WrittenAlias.text, WrittenAlias.closing, hspan, hne, h.marker, Nat.add_comm]
  | false =>
      have hspan := aliasAt?_span (m := m) h.name.alphanum (h.alphanum rfl)
      simp [WrittenAlias.text, WrittenAlias.closing, hspan, hne, h.marker, h.underscore rfl,
        Nat.add_comm]

/-- An alias that is read is written: an underscore that follows its name closes it. -/
theorem exists_written {found : List Char × Nat} (h : m.aliasAt? text = some found) :
    ∃ (a : WrittenAlias) (after : List Char),
      text = a.text ++ after ∧ a.ReadBefore m after ∧ found = (a.name, a.text.length) := by
  obtain ⟨rest, rfl⟩ : ∃ rest, text = '_' :: rest := by
    rw [aliasAt?.eq_def] at h
    split at h
    next rest => exact ⟨rest, rfl⟩
    next => cases h
  obtain ⟨name, after, rfl, hname, hafter⟩ := exists_span rest
  rw [aliasAt?_span hname hafter] at h
  by_cases hclosed : after.head? = some '_'
  · obtain ⟨after, rfl⟩ := List.head?_eq_some_iff.1 hclosed
    simp only [List.head?_cons, if_true, List.drop_one, List.tail_cons,
      Option.ite_none_left_eq_some, Bool.or_eq_true, List.isEmpty_iff, decide_eq_true_eq, not_or,
      Option.some.injEq] at h
    obtain ⟨⟨hne, hmarker⟩, rfl⟩ := h
    refine ⟨⟨name, true⟩, after, ?_, ⟨⟨hne, hname⟩, hmarker, nofun, nofun⟩, ?_⟩
    · simp [WrittenAlias.text, WrittenAlias.closing]
    · simp [WrittenAlias.text, WrittenAlias.closing, Nat.add_comm]
  · simp only [if_neg hclosed, List.drop_zero, Option.ite_none_left_eq_some, Bool.or_eq_true,
      List.isEmpty_iff, decide_eq_true_eq, not_or, Option.some.injEq] at h
    obtain ⟨⟨hne, hmarker⟩, rfl⟩ := h
    refine
      ⟨⟨name, false⟩, after, ?_, ⟨⟨hne, hname⟩, hmarker, fun _ => hclosed, fun _ => hafter⟩, ?_⟩
    · simp [WrittenAlias.text, WrittenAlias.closing]
    · simp [WrittenAlias.text, WrittenAlias.closing, Nat.add_comm]

/-- **The alias that a text starts with** is the one that is written there. -/
theorem aliasAt?_eq_some_iff {found : List Char × Nat} :
    m.aliasAt? text = some found ↔ ∃ (a : WrittenAlias) (after : List Char),
      text = a.text ++ after ∧ a.ReadBefore m after ∧ found = (a.name, a.text.length) := by
  constructor
  · exact exists_written
  · rintro ⟨a, after, rfl, hread, rfl⟩
    exact aliasAt?_text hread

/-- Whether an alias starts a text is settled in front of the first marker. -/
theorem aliasAt?_append_marker (hm : m.StandsApart) (literal later other : List Char) :
    m.aliasAt? (literal ++ m.marker :: later) = m.aliasAt? (literal ++ m.marker :: other) := by
  have hread : ∀ later other found, m.aliasAt? (literal ++ m.marker :: later) = some found →
      m.aliasAt? (literal ++ m.marker :: other) = some found := by
    intro later other found h
    obtain ⟨a, after, htext, hbefore, rfl⟩ := aliasAt?_eq_some_iff.1 h
    rcases List.append_eq_append_iff.1 htext with ⟨part, hpart, hmarker⟩ | ⟨part, rfl, rfl⟩
    · -- the alias ends in front of the marker, since it has none
      cases part with
      | nil => exact absurd (congrArg List.head? hmarker).symm hbefore.marker
      | cons c part =>
          obtain ⟨rfl, -⟩ := List.cons.inj hmarker
          refine absurd ?_ (WrittenAlias.marker_not_mem_text hm hbefore.name)
          rw [hpart]
          exact List.mem_append_right _ List.mem_cons_self
    · cases part with
      | nil => exact absurd rfl hbefore.marker
      | cons c part =>
          rw [List.append_assoc]
          exact aliasAt?_text (hbefore.congr rfl)
  cases hleft : m.aliasAt? (literal ++ m.marker :: later) with
  | some found => exact (hread later other found hleft).symm
  | none =>
      cases hright : m.aliasAt? (literal ++ m.marker :: other) with
      | none => rfl
      | some found => rw [hread other later found hright] at hleft; cases hleft

/-! ## The first wildcard of a text -/

theorem runs_replicate {width : Nat} (hwidth : 0 < width) :
    m.runs (List.replicate width m.marker) = [⟨0, width⟩] := by
  have hfrom : ∀ k before seen, m.runsFrom before seen (List.replicate k m.marker) =
      m.runsFrom (before + k) (seen + k) [] := by
    intro k
    induction k with
    | zero => exact fun _ _ => rfl
    | succ k ih =>
        intro before seen
        calc m.runsFrom before seen (List.replicate (k + 1) m.marker)
          _ = m.runsFrom (before + 1) (seen + 1) (List.replicate k m.marker) := if_pos rfl
          _ = m.runsFrom (before + 1 + k) (seen + 1 + k) [] := ih _ _
          _ = m.runsFrom (before + (k + 1)) (seen + (k + 1)) [] := by
            rw [Nat.add_assoc, Nat.add_assoc, Nat.add_comm 1]
  rw [runs, hfrom, runsFrom, if_neg (by omega)]
  simp

/-- The alias of a run that stands between two texts. -/
def aliasBetween? (m : Markers) (literal rest : List Char) : Option (List Char × Nat) :=
  if literal.getLast? = some '_' then none else m.aliasAt? rest

/-- **A text up to its first wildcard** and the rest of it are scanned one after the other. -/
theorem scan_wildcard {width : Nat} (hliteral : m.scan literal = [])
    (hlast : literal.getLast? ≠ some m.marker) (hwidth : width = 2 ∨ width = 3)
    (hrest : rest.head? ≠ some m.marker) :
    m.scan (literal ++ (List.replicate width m.marker ++ rest)) =
      ⟨literal.length, width, width + ((m.aliasBetween? literal rest).map Prod.snd).getD 0,
        (m.aliasBetween? literal rest).map Prod.fst⟩ ::
      (m.scan rest).map (Occurrence.shift (literal.length + width)) := by
  have hpos : 0 < width := by omega
  have hruns : m.wildcardRuns (literal ++ List.replicate width m.marker) =
      [⟨literal.length, width⟩] := by
    rw [wildcardRuns, runs_append (Or.inl hlast), runs_replicate hpos, List.filter_append]
    rw [scan_eq_map, List.map_eq_nil_iff, wildcardRuns] at hliteral
    rw [hliteral]
    rcases hwidth with rfl | rfl <;> simp
  rw [← List.append_assoc, scan_append (Or.inr hrest), hruns, List.map_singleton,
    List.length_append, List.length_replicate, List.singleton_append]
  congr 1
  rw [occurrence, aliasBetween?, List.append_assoc, List.take_left, List.drop_length_add_append,
    List.drop_left' List.length_replicate]
  dsimp only
  split
  next hfound => rw [hfound]; rfl
  next hfound => rw [hfound]; rfl

/-- A text with wildcards is taken apart at the first one. -/
theorem exists_first_wildcard (h : m.scan text ≠ []) :
    ∃ (literal : List Char) (width : Nat) (rest : List Char),
      text = literal ++ (List.replicate width m.marker ++ rest) ∧ m.scan literal = [] ∧
        literal.getLast? ≠ some m.marker ∧ (width = 2 ∨ width = 3) ∧
        rest.head? ≠ some m.marker := by
  rw [scan_eq_map, Ne, List.map_eq_nil_iff] at h
  obtain ⟨run, later, hruns⟩ := List.exists_cons_of_ne_nil h
  obtain ⟨hmem, hwidth⟩ :=
    List.mem_filter.1 (hruns ▸ List.mem_cons_self : run ∈ m.wildcardRuns text)
  rw [Bool.or_eq_true, beq_iff_eq, beq_iff_eq] at hwidth
  obtain ⟨literal, rest, hstands, hstart⟩ := mem_runs_iff.1 hmem
  refine ⟨literal, run.width, rest, hstands.text_eq, ?_, hstands.last, hwidth, hstands.head⟩
  rw [scan_eq_map, List.map_eq_nil_iff]
  cases hliteral : m.wildcardRuns literal with
  | nil => rfl
  | cons earlier _ =>
      -- a wildcard further in front would be the first one
      have hbound := runsFrom_bound (Nat.le_refl 0) (List.mem_filter.1
        (hliteral ▸ List.mem_cons_self : earlier ∈ m.wildcardRuns literal)).1
      rw [hstands.text_eq, wildcardRuns, runs_append (Or.inl hstands.last), List.filter_append]
        at hruns
      rw [wildcardRuns] at hliteral
      rw [hliteral, List.cons_append] at hruns
      obtain ⟨rfl, -⟩ := List.cons.inj hruns
      omega

end Markers

/-! ## Texts as they are written -/

/-- A wildcard as it is written, and the literal after it. -/
structure Slot where
  /-- The markers of the wildcard. -/
  width : Nat
  written? : Option WrittenAlias
  literal : List Char

namespace Slot

/-- The characters of the alias, if there is one. -/
def aliasText (s : Slot) : List Char := (s.written?.map WrittenAlias.text).getD []

/-- The name of the alias. -/
def aliasName (s : Slot) : Option (List Char) := s.written?.map WrittenAlias.name

/-- The wildcard where it stands. -/
def occurrence (start : Nat) (s : Slot) : Occurrence :=
  ⟨start, s.width, s.width + s.aliasText.length, s.aliasName⟩

/-- The gap that the wildcard is. -/
def gap (s : Slot) : Gap := ⟨if s.width == 3 then 1 else 0, s.aliasName, s.literal⟩

/-- The wildcard without its alias. -/
def bare (s : Slot) : Slot := { s with written? := none }

/-- The wildcard with another name in its alias. -/
def rename (f : List Char → List Char) (s : Slot) : Slot :=
  { s with written? := s.written?.map fun a => { a with name := f a.name } }

/-- The alias as it is read: its name, and how many characters it takes. -/
def found? (s : Slot) : Option (List Char × Nat) :=
  s.written?.map fun a => (a.name, a.text.length)

theorem occurrence_eq (start : Nat) (s : Slot) :
    s.occurrence start = ⟨start, s.width, s.width + (s.found?.map Prod.snd).getD 0,
      s.found?.map Prod.fst⟩ := by
  rw [occurrence, aliasText, aliasName, found?]
  cases s.written? <;> rfl

theorem marker_not_mem_aliasText {m : Markers} (s : Slot) (hm : m.StandsApart)
    (hname : ∀ a, s.written? = some a → IsAliasName a.name) : m.marker ∉ s.aliasText := by
  intro hmem
  rw [aliasText] at hmem
  cases hwritten : s.written? with
  | none => simp [hwritten] at hmem
  | some a =>
      rw [hwritten] at hmem
      exact WrittenAlias.marker_not_mem_text hm (hname a hwritten) hmem

theorem aliasName_rename (f : List Char → List Char) (s : Slot) :
    (s.rename f).aliasName = s.aliasName.map f := by
  rw [aliasName, aliasName, rename, Option.map_map, Option.map_map]
  rfl

/-- The wildcards where they stand, the first of them at a place. -/
def occurrencesFrom (start : Nat) : List Slot → List Occurrence
  | [] => []
  | s :: rest =>
      s.occurrence start ::
        occurrencesFrom ((s.occurrence start).stop + s.literal.length) rest

theorem occurrencesFrom_shift (k start : Nat) (slots : List Slot) :
    (occurrencesFrom start slots).map (Occurrence.shift k) = occurrencesFrom (start + k) slots := by
  induction slots generalizing start with
  | nil => rfl
  | cons s rest ih =>
      have hstop : (s.occurrence start).stop + s.literal.length + k =
          (s.occurrence (start + k)).stop + s.literal.length := by
        simp only [occurrence, Occurrence.stop]
        omega
      rw [occurrencesFrom, occurrencesFrom, List.map_cons, ih, hstop]
      rfl

end Slot

namespace Markers

/-- Wildcards with the literals after them, as they are written. -/
def write (m : Markers) : List Slot → List Char
  | [] => []
  | s :: rest => List.replicate s.width m.marker ++ (s.aliasText ++ (s.literal ++ write m rest))

/-- A literal and wildcards **spell** a text if it has these wildcards and no others when it is
written: none is in a literal, and each is read with the alias it is written with. -/
inductive Spells (m : Markers) : List Char → List Slot → Prop
  | literal {literal : List Char} (plain : m.scan literal = []) : Spells m literal []
  | wildcard {literal : List Char} {s : Slot} {rest : List Slot} (plain : m.scan literal = [])
      (last : literal.getLast? ≠ some m.marker) (width : s.width = 2 ∨ s.width = 3)
      (head : (s.literal ++ m.write rest).head? ≠ some m.marker)
      (named : ∀ a, s.written? = some a →
        literal.getLast? ≠ some '_' ∧ a.ReadBefore m (s.literal ++ m.write rest))
      (unnamed : s.written? = none → m.aliasBetween? literal (s.literal ++ m.write rest) = none)
      (later : Spells m s.literal rest) : Spells m literal (s :: rest)

variable {m : Markers} {literal text : List Char} {slots : List Slot}

/-- **Every text is spelled** by a literal and wildcards. -/
theorem exists_spells (m : Markers) (text : List Char) :
    ∃ literal slots, m.Spells literal slots ∧ text = literal ++ m.write slots := by
  have bounded : ∀ length, ∀ text : List Char, text.length < length →
      ∃ literal slots, m.Spells literal slots ∧ text = literal ++ m.write slots := by
    intro length
    induction length with
    | zero => intro text htext; omega
    | succ length ih =>
        intro text htext
        by_cases hscan : m.scan text = []
        · exact ⟨text, [], .literal hscan, (List.append_nil text).symm⟩
        obtain ⟨literal, width, rest, rfl, hplain, hlast, hwidth, hhead⟩ :=
          exists_first_wildcard hscan
        rw [List.length_append, List.length_append, List.length_replicate] at htext
        -- the alias, if there is one, belongs to the wildcard, and the rest is shorter
        cases hfound : m.aliasBetween? literal rest with
        | none =>
            obtain ⟨next, slots, hspells, rfl⟩ := ih rest (by omega)
            refine ⟨literal, ⟨width, none, next⟩ :: slots, ?_, rfl⟩
            refine .wildcard hplain hlast hwidth hhead (fun a ha => ?_) (fun _ => hfound) hspells
            exact absurd ha (Option.some_ne_none a).symm
        | some found =>
            rw [aliasBetween?, Option.ite_none_left_eq_some] at hfound
            obtain ⟨a, after, rfl, hread, rfl⟩ := aliasAt?_eq_some_iff.1 hfound.2
            rw [List.length_append] at htext
            obtain ⟨next, slots, hspells, rfl⟩ := ih after (by omega)
            refine ⟨literal, ⟨width, some a, next⟩ :: slots, ?_, rfl⟩
            refine
              .wildcard hplain hlast hwidth hread.marker (fun b hb => ?_) (fun hnone => ?_) hspells
            · obtain rfl := Option.some.inj hb
              exact ⟨hfound.1, hread⟩
            · exact absurd hnone (Option.some_ne_none a)
  exact bounded (text.length + 1) text (Nat.lt_succ_self _)

/-- A wildcard is read with the alias that it is written with. -/
theorem aliasBetween?_written {s : Slot} {rest : List Char}
    (named : ∀ a, s.written? = some a → literal.getLast? ≠ some '_' ∧ a.ReadBefore m rest)
    (unnamed : s.written? = none → m.aliasBetween? literal rest = none) :
    m.aliasBetween? literal (s.aliasText ++ rest) = s.found? := by
  rw [Slot.aliasText, Slot.found?]
  cases hwritten : s.written? with
  | none => exact unnamed hwritten
  | some a =>
      rw [aliasBetween?, if_neg (named a hwritten).1]
      exact aliasAt?_text (named a hwritten).2

namespace Spells

theorem isAliasName (h : m.Spells literal slots) :
    ∀ s ∈ slots, ∀ name ∈ s.aliasName, IsAliasName name := by
  induction h with
  | literal => exact fun _ hs => absurd hs List.not_mem_nil
  | wildcard _ _ _ _ hnamed _ _ ih =>
      refine List.forall_mem_cons.2 ⟨fun name hname => ?_, ih⟩
      obtain ⟨a, ha, rfl⟩ := Option.map_eq_some_iff.1 hname
      exact (hnamed a ha).2.name

/-- What is written begins with a marker. -/
theorem write_eq_cons {s : Slot} {rest : List Slot} (h : m.Spells literal (s :: rest)) :
    ∃ later, m.write (s :: rest) = m.marker :: later := by
  cases h with
  | wildcard _ _ hwidth =>
      obtain ⟨k, hk⟩ : ∃ k, s.width = k + 1 := ⟨s.width - 1, by omega⟩
      exact ⟨_, by rw [write, hk, List.replicate_succ, List.cons_append]⟩

/-- **A text that is spelled** has the wildcards that it is spelled with. -/
theorem scan_eq (hm : m.StandsApart) (h : m.Spells literal slots) :
    m.scan (literal ++ m.write slots) = Slot.occurrencesFrom literal.length slots := by
  induction h with
  | literal hplain =>
      rw [write, List.append_nil]
      exact hplain
  | @wildcard literal s rest hplain hlast hwidth hhead hnamed hunnamed _ ih =>
      have hmarker : m.marker ∉ s.aliasText :=
        s.marker_not_mem_aliasText hm fun a ha => (hnamed a ha).2.name
      have hafter : (s.aliasText ++ (s.literal ++ m.write rest)).head? ≠ some m.marker := by
        rw [List.head?_append]
        intro heq
        rcases Option.or_eq_some_iff.1 heq with hfirst | ⟨-, hsecond⟩
        · exact hmarker (List.mem_of_head? hfirst)
        · exact hhead hsecond
      have hstop : s.literal.length + s.aliasText.length + (literal.length + s.width) =
          (s.occurrence literal.length).stop + s.literal.length := by
        simp only [Slot.occurrence, Occurrence.stop]
        omega
      rw [write, scan_wildcard hplain hlast hwidth hafter, aliasBetween?_written hnamed hunnamed,
        scan_append_of_scan_eq_nil (scan_eq_nil_of_not_mem hmarker) (Or.inr hhead), ih,
        Slot.occurrencesFrom_shift, Slot.occurrencesFrom_shift, Slot.occurrencesFrom, hstop,
        s.occurrence_eq]

/-- Other names are read like those they replace. -/
theorem rename (hm : m.StandsApart) {f : List Char → List Char}
    (hf : ∀ name, IsAliasName name → IsAliasName (f name)) (h : m.Spells literal slots) :
    m.Spells literal (slots.map (Slot.rename f)) := by
  induction h with
  | literal hplain => exact .literal hplain
  | @wildcard literal s rest hplain hlast hwidth hhead hnamed hunnamed hlater ih =>
      -- both texts go on with the same literal, and then with a marker or not at all
      have hnext : (s.literal ++ m.write (rest.map (Slot.rename f))).head? =
            (s.literal ++ m.write rest).head? ∧
          m.aliasAt? (s.literal ++ m.write (rest.map (Slot.rename f))) =
            m.aliasAt? (s.literal ++ m.write rest) := by
        cases rest with
        | nil => exact ⟨rfl, rfl⟩
        | cons t rest =>
            obtain ⟨later, hwrite⟩ := hlater.write_eq_cons
            obtain ⟨other, hother⟩ := ih.write_eq_cons
            rw [List.map_cons, hwrite, hother, List.head?_append, List.head?_append]
            exact ⟨rfl, aliasAt?_append_marker hm _ _ _⟩
      refine .wildcard hplain hlast hwidth (hnext.1 ▸ hhead) (fun a ha => ?_) (fun hnone => ?_) ih
      · obtain ⟨b, hb, rfl⟩ := Option.map_eq_some_iff.1 ha
        obtain ⟨hlast, hread⟩ := hnamed b hb
        obtain ⟨hname, hmarker, hunderscore, halphanum⟩ := hread.congr hnext.1
        exact ⟨hlast, hf b.name hname, hmarker, hunderscore, halphanum⟩
      · have hbetween := hunnamed (Option.map_eq_none_iff.1 hnone)
        rw [aliasBetween?] at hbetween ⊢
        rw [Slot.rename, hnext.2]
        exact hbetween

end Spells

/-! ## Cutting a text at its wildcards -/

theorem segment_middle (front middle back : List Char) :
    segment (front ++ (middle ++ back)) front.length (front.length + middle.length) = middle := by
  rw [segment, List.drop_left, Nat.add_sub_cancel_left, List.take_left]

/-- What is written up to the next literal stands in front of it. -/
theorem append_write_cons (front literal : List Char) (s : Slot) (rest : List Slot) :
    front ++ (literal ++ m.write (s :: rest)) =
      (front ++ (literal ++ (List.replicate s.width m.marker ++ s.aliasText))) ++
        (s.literal ++ m.write rest) := by
  simp only [write, List.append_assoc]

theorem stop_occurrence (front literal : List Char) (s : Slot) :
    (s.occurrence (front.length + literal.length)).stop =
      (front ++ (literal ++ (List.replicate s.width m.marker ++ s.aliasText))).length := by
  simp only [Slot.occurrence, Occurrence.stop, List.length_append, List.length_replicate]
  omega

theorem fragmentsFrom_write (front literal : List Char) (slots : List Slot) :
    fragmentsFrom (front ++ (literal ++ m.write slots)) front.length
        (Slot.occurrencesFrom (front.length + literal.length) slots) =
      literal :: slots.map Slot.literal := by
  induction slots generalizing front literal with
  | nil => rw [Slot.occurrencesFrom, fragmentsFrom, write, List.append_nil, List.drop_left]; rfl
  | cons s rest ih =>
      have hstart : segment (front ++ (literal ++ m.write (s :: rest))) front.length
          (s.occurrence (front.length + literal.length)).start = literal :=
        segment_middle front literal _
      rw [Slot.occurrencesFrom, fragmentsFrom, hstart, append_write_cons, stop_occurrence, ih]
      rfl

theorem segment_run (front literal : List Char) (s : Slot) (rest : List Slot) :
    segment (front ++ (literal ++ m.write (s :: rest))) front.length
        (s.occurrence (front.length + literal.length)).runStop =
      literal ++ List.replicate s.width m.marker := by
  have hlength : (s.occurrence (front.length + literal.length)).runStop =
      front.length + (literal ++ List.replicate s.width m.marker).length := by
    rw [List.length_append, List.length_replicate, ← Nat.add_assoc]
    rfl
  rw [hlength, write, ← List.append_assoc literal, segment_middle]

theorem stripFrom_write (front literal : List Char) (slots : List Slot) :
    stripFrom (front ++ (literal ++ m.write slots)) front.length
        (Slot.occurrencesFrom (front.length + literal.length) slots) =
      literal ++ m.write (slots.map Slot.bare) := by
  induction slots generalizing front literal with
  | nil => rw [Slot.occurrencesFrom, stripFrom, List.drop_left]; rfl
  | cons s rest ih =>
      rw [Slot.occurrencesFrom, stripFrom, segment_run, append_write_cons, stop_occurrence, ih,
        List.append_assoc]
      rfl

end Markers

namespace Markers.Spells

variable {m : Markers} {literal : List Char} {slots : List Slot} {text : String}

/-- The fragments of a text are the literals it is spelled with. -/
theorem fragments_eq (hm : m.StandsApart) (h : m.Spells literal slots)
    (htext : text.toList = literal ++ m.write slots) :
    fragmentsFrom text.toList 0 (m.scan text.toList) = literal :: slots.map Slot.literal := by
  have hfragments := fragmentsFrom_write (m := m) [] literal slots
  rw [List.nil_append, List.length_nil, Nat.zero_add] at hfragments
  rw [htext, h.scan_eq hm, hfragments]

/-- Without the aliases a text has the same spelling but for them. -/
theorem stripAliases_eq (hm : m.StandsApart) (h : m.Spells literal slots)
    (htext : text.toList = literal ++ m.write slots) :
    m.stripAliases text = String.ofList (literal ++ m.write (slots.map Slot.bare)) := by
  have hstrip := stripFrom_write (m := m) [] literal slots
  rw [List.nil_append, List.length_nil, Nat.zero_add] at hstrip
  rw [stripAliases, htext, h.scan_eq hm, hstrip]

/-- A text denotes the pattern that it spells. -/
theorem ofText_eq (hm : m.StandsApart) (h : m.Spells literal slots)
    (htext : text.toList = literal ++ m.write slots) :
    Pattern.ofText m text = ⟨literal, slots.map Slot.gap⟩ := by
  have hgaps : ∀ start, Pattern.gapsOf (Slot.occurrencesFrom start slots)
      (slots.map Slot.literal) = slots.map Slot.gap := by
    clear h htext
    induction slots with
    | nil => exact fun _ => rfl
    | cons s rest ih =>
        intro start
        rw [Slot.occurrencesFrom, List.map_cons, List.map_cons, Pattern.gapsOf, ih]
        rfl
  rw [Pattern.ofText, h.fragments_eq hm htext, htext, h.scan_eq hm]
  dsimp only
  rw [hgaps]

/-- The first alias of a text is that of the first wildcard written with one. -/
theorem findSome?_classify (hm : m.StandsApart) (h : m.Spells literal slots)
    (htext : text.toList = literal ++ m.write slots) (context : WildcardContext) :
    (m.classify text context).findSome? Wildcard.aliasName =
      (slots.findSome? Slot.aliasName).map String.ofList := by
  have hnames : ∀ start, (Slot.occurrencesFrom start slots).findSome?
      (fun o => o.aliasName.map String.ofList) =
      (slots.findSome? Slot.aliasName).map String.ofList := by
    clear h htext
    induction slots with
    | nil => exact fun _ => rfl
    | cons s rest ih =>
        intro start
        rw [Slot.occurrencesFrom, List.findSome?_cons, List.findSome?_cons]
        cases hname : s.aliasName with
        | none => simp [Slot.occurrence, hname, ih]
        | some name => simp [Slot.occurrence, hname]
  simp only [classify, List.findSome?_map, htext, h.scan_eq hm]
  exact hnames literal.length

end Markers.Spells

end CodeSearch
