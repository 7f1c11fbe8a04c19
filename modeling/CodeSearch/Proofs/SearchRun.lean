import CodeSearch.Search
import Mathlib.Data.List.Infix

/-!
# Searches that end early

A search takes up its files one after another, and before each it may end: because it was told to
stop, or because it has found enough. What it has come to by then is what the search of the files
before would come to if nothing ended it, its **whole search**. Only the matches are cut to the
limit afterwards, and the flag tells that something was left out.

The limit is held against all matches found so far. Repetitions are among them, which the report
leaves out, and so a search may end with fewer matches than its limit though there are more.
-/

set_option autoImplicit false

namespace CodeSearch

/-! ## Repetitions -/

namespace Match

theorem dedupFrom_prefix_append (seen : List (List String × Nat × Nat)) (xs ys : List Match) :
    dedupFrom seen xs <+: dedupFrom seen (xs ++ ys) := by
  induction xs generalizing seen with
  | nil => exact List.nil_prefix
  | cons m rest ih =>
      rw [List.cons_append, dedupFrom, dedupFrom]
      split
      next => exact ih seen
      next => exact (List.prefix_cons_inj m).2 (ih (m.site :: seen))

/-- What is found later takes nothing back of what is reported. -/
theorem dedup_grows {xs ys : List Match} (h : xs <+: ys) : dedup xs <+: dedup ys := by
  obtain ⟨later, rfl⟩ := h
  exact dedupFrom_prefix_append [] xs later

/-- The first of some matches, as many as the limit allows. -/
def upTo (limit : Option Nat) (found : List Match) : List Match :=
  match limit with
  | some limit => found.take limit
  | none => found

end Match

/-! ## The state after some files -/

theorem searchFile_rawMatches (grammar : Grammar) (settings : MatchSettings) (file : SourceFile)
    (results : QueryResults) :
    (searchFile grammar settings file results).metrics.rawMatches =
      (searchFile grammar settings file results).found.length := by
  unfold searchFile
  dsimp only
  split
  next => rfl
  next =>
    split
    next => rfl
    next => split <;> rfl

/-- **A match in a file** is made of something that a usable query finds in the tree of the file. -/
theorem exists_found_of_mem_searchFile {grammar : Grammar} {settings : MatchSettings}
    {file : SourceFile} {results : QueryResults} {m : Match}
    (h : m ∈ (searchFile grammar settings file results).found) :
    ∃ root index query, grammar.parse file.content = .ok root ∧
      (index, query) ∈ usableQueries 0 results ∧
      ∃ found ∈ (traverse ⟨grammar, settings, file.content⟩ root query.node).found,
        m = (matchAt ⟨grammar, settings, file.content⟩ file.path index query found).1 := by
  unfold searchFile at h
  dsimp only at h
  split at h
  next => simp at h
  next =>
    split at h
    next => simp at h
    next =>
      split at h
      next => simp at h
      next root hroot =>
        simp only [List.flatMap_map, List.mem_flatMap] at h
        obtain ⟨⟨index, query⟩, hquery, h⟩ := h
        rw [matchesIn] at h
        simp only [List.map_map, List.mem_map] at h
        obtain ⟨found, hfound, rfl⟩ := h
        exact ⟨root, index, query, hroot, hquery, found, hfound, rfl⟩

namespace SearchState

variable (resolve : Resolver) (settings : MatchSettings) (queries : List String)

/-- The state after all of some files, whatever has been found. -/
def after (s : SearchState) (files : List SourceFile) : SearchState :=
  files.foldl (step resolve settings queries) s

theorem after_append (s : SearchState) (xs ys : List SourceFile) :
    s.after resolve settings queries (xs ++ ys) =
      (s.after resolve settings queries xs).after resolve settings queries ys :=
  List.foldl_append

/-- Looking up the queries of a grammar finds no matches and counts nothing. -/
theorem queriesFor_found (s : SearchState) (grammar : Grammar) :
    (s.queriesFor grammar settings queries).2.found = s.found ∧
      (s.queriesFor grammar settings queries).2.metrics = s.metrics := by
  unfold queriesFor
  split
  next => exact ⟨rfl, rfl⟩
  next => exact ⟨rfl, rfl⟩

/-- One more file adds matches at the end, and counts them. -/
theorem step_found (s : SearchState) (file : SourceFile) :
    ∃ new : List Match, (s.step resolve settings queries file).found = s.found ++ new ∧
      (s.step resolve settings queries file).metrics.rawMatches =
        s.metrics.rawMatches + new.length := by
  unfold step
  dsimp only
  split
  next => exact ⟨[], by simp [add], by simp [add, SearchMetrics.add]⟩
  next grammar _ =>
    obtain ⟨hfound, hmetrics⟩ := queriesFor_found settings queries
      (s.add { metrics := { filesSeen := 1 } }) grammar
    generalize (s.add { metrics := { filesSeen := 1 } }).queriesFor grammar settings queries =
      looked at hfound hmetrics ⊢
    refine ⟨(searchFile grammar settings file looked.1).found, ?_, ?_⟩
    · rw [add, hfound]
      simp [add]
    · rw [add, hmetrics, SearchMetrics.add, searchFile_rawMatches]
      simp [add, SearchMetrics.add]

/-- Further files add matches at the end, and count them. -/
theorem after_found (s : SearchState) (files : List SourceFile) :
    ∃ new : List Match, (s.after resolve settings queries files).found = s.found ++ new ∧
      (s.after resolve settings queries files).metrics.rawMatches =
        s.metrics.rawMatches + new.length := by
  induction files generalizing s with
  | nil => exact ⟨[], by simp [after], by simp [after]⟩
  | cons file rest ih =>
      obtain ⟨first, hfirst, hcount⟩ := step_found resolve settings queries s file
      obtain ⟨later, hlater, hcounts⟩ := ih (s.step resolve settings queries file)
      refine ⟨first ++ later, ?_, ?_⟩
      · rw [after, List.foldl_cons, ← after, hlater, hfirst, List.append_assoc]
      · rw [after, List.foldl_cons, ← after, hcounts, hcount, List.length_append, Nat.add_assoc]

/-- **A run stops somewhere**: it takes up the files before the first at which the search ends,
all of them if there is none. -/
theorem run_eq_after (config : SearchConfig) (stopAt : Option Nat) (index : Nat) (s : SearchState)
    (files : List SourceFile) :
    ∃ k ≤ files.length,
      s.run resolve config queries stopAt index files =
          (s.after resolve config queries (files.take k),
            if k < files.length then some (index + k) else none) ∧
        (∀ j < k, (s.after resolve config queries (files.take j)).ends config stopAt
          (index + j) = false) ∧
        (k < files.length → (s.after resolve config queries (files.take k)).ends config stopAt
          (index + k) = true) := by
  induction files generalizing index s with
  | nil => exact ⟨0, Nat.le_refl _, rfl, by simp, by simp⟩
  | cons file rest ih =>
      cases hends : s.ends config stopAt index with
      | true =>
          refine ⟨0, Nat.zero_le _, ?_, by simp, fun _ => hends⟩
          rw [run, if_pos hends]
          simp [after]
      | false =>
          obtain ⟨k, hk, hrun, hbefore, hat⟩ := ih (index + 1) (s.step resolve config queries file)
          have hshift : ∀ j, index + 1 + j = index + (j + 1) := by omega
          refine ⟨k + 1, Nat.succ_le_succ hk, ?_, ?_, ?_⟩
          · rw [run, if_neg (by simp [hends]), hrun, hshift]
            simp [after]
          · intro j hj
            cases j with
            | zero => exact hends
            | succ j => exact hshift j ▸ hbefore j (by omega)
          · intro hlt
            exact hshift k ▸ hat (Nat.lt_of_succ_lt_succ hlt)

end SearchState

/-! ## Whole searches -/

section Whole

variable (resolve : Resolver) (config : SearchConfig) (queries : List String)
  (files : List SourceFile)

/-- The search of all files that has no limit and is never told to stop. -/
def wholeSearch : SearchOutcome :=
  search resolve { config with maxResults := none } queries files none

/-- A search **ends at** file number `k` if it is told to stop by then, or if so many matches are
found in the files before, repetitions counted, as it may report. -/
def EndsAt (stopAt : Option Nat) (k : Nat) : Prop :=
  (∃ stop, stopAt = some stop ∧ stop ≤ k) ∨
    ∃ limit, config.maxResults = some limit ∧
      limit ≤ (wholeSearch resolve config queries (files.take k)).metrics.rawMatches

variable {resolve config queries files}

/-- A whole search in terms of the state after its files. -/
theorem wholeSearch_eq :
    wholeSearch resolve config queries files =
      let last := (SearchState.start queries.length).after resolve config queries files
      { found := Match.dedup last.found, errors := last.errors, hints := last.hints
        metrics := last.metrics, stoppedEarly := false, cut := none } := by
  obtain ⟨k, hk, hrun, -, hends⟩ := SearchState.run_eq_after resolve queries
    { config with maxResults := none } none 0 (.start queries.length) files
  have hall : k = files.length := by
    by_contra hne
    simpa [SearchState.ends] using hends (Nat.lt_of_le_of_ne hk hne)
  subst hall
  rw [wholeSearch, search, hrun]
  simp

/-- The raw matches of a whole search are all matches that its run came to. -/
theorem wholeSearch_rawMatches :
    (wholeSearch resolve config queries files).metrics.rawMatches =
      ((SearchState.start queries.length).after resolve config queries files).found.length := by
  obtain ⟨new, hfound, hcount⟩ := SearchState.after_found resolve config queries
    (SearchState.start queries.length) files
  rw [wholeSearch_eq]
  dsimp only
  rw [hfound, hcount]
  simp [SearchState.start]

theorem ends_iff_endsAt {stopAt : Option Nat} {k : Nat} :
    ((SearchState.start queries.length).after resolve config queries (files.take k)).ends config
      stopAt k = true ↔ EndsAt resolve config queries files stopAt k := by
  rw [SearchState.ends, EndsAt, wholeSearch_rawMatches, Bool.or_eq_true, Option.any_eq_true,
    Option.any_eq_true]
  simp only [decide_eq_true_eq]

/-- Whole searches of more files report more matches, the further ones last. -/
theorem wholeSearch_found_grows {xs ys : List SourceFile} (h : xs <+: ys) :
    (wholeSearch resolve config queries xs).found <+:
      (wholeSearch resolve config queries ys).found := by
  obtain ⟨later, rfl⟩ := h
  rw [wholeSearch_eq, wholeSearch_eq]
  refine Match.dedup_grows ?_
  obtain ⟨new, hnew, -⟩ := SearchState.after_found resolve config queries
    ((SearchState.start queries.length).after resolve config queries xs) later
  rw [SearchState.after_append, hnew]
  exact List.prefix_append _ _

end Whole

/-- **What a search comes to** is the whole search of the files before the first at which it ends,
with the matches cut to the limit. -/
theorem search_eq (resolve : Resolver) (config : SearchConfig) (queries : List String)
    (files : List SourceFile) (stopAt : Option Nat) :
    ∃ k ≤ files.length,
      let whole := wholeSearch resolve config queries (files.take k)
      let reported := Match.upTo config.maxResults whole.found
      search resolve config queries files stopAt =
          { whole with
            found := reported
            stoppedEarly := k < files.length || reported.length < whole.found.length
            cut := if k < files.length then some k else none } ∧
        (∀ j < k, ¬ EndsAt resolve config queries files stopAt j) ∧
        (k < files.length → EndsAt resolve config queries files stopAt k) := by
  obtain ⟨k, hk, hrun, hbefore, hends⟩ := SearchState.run_eq_after resolve queries config
    stopAt 0 (.start queries.length) files
  simp only [Nat.zero_add] at hrun hbefore hends
  refine ⟨k, hk, ?_, fun j hj hat => ?_, fun hlt => ends_iff_endsAt.1 (hends hlt)⟩
  · rw [search, hrun, wholeSearch_eq]
    cases config.maxResults <;> by_cases hlt : k < files.length <;>
      simp [Match.upTo, hlt]
  · rw [← ends_iff_endsAt, hbefore j hj] at hat
    exact absurd hat (by decide)

/-- **A search ends cleanly.** Whatever its limit and whenever it is told to stop, what it reports
is what the whole search of the files before the first at which it ends reports, cut to the limit.
It says that something was left out exactly if that is so: files, or matches. -/
theorem search_ends_cleanly (resolve : Resolver) (config : SearchConfig) (queries : List String)
    (files : List SourceFile) (stopAt : Option Nat) :
    ∃ k ≤ files.length,
      let outcome := search resolve config queries files stopAt
      let whole := wholeSearch resolve config queries (files.take k)
      outcome.errors = whole.errors ∧ outcome.hints = whole.hints ∧
        outcome.metrics = whole.metrics ∧
        outcome.found = Match.upTo config.maxResults whole.found ∧
        (outcome.stoppedEarly = true ↔
          k < files.length ∨ outcome.found.length < whole.found.length) ∧
        (∀ j < k, ¬ EndsAt resolve config queries files stopAt j) ∧
        (k < files.length → EndsAt resolve config queries files stopAt k) := by
  obtain ⟨k, hk, hsearch, hbefore, hends⟩ := search_eq resolve config queries files stopAt
  refine ⟨k, hk, ?_⟩
  dsimp only at hsearch ⊢
  rw [hsearch]
  refine ⟨rfl, rfl, rfl, rfl, ?_, hbefore, hends⟩
  simp only [Bool.or_eq_true, decide_eq_true_eq]

/-! ## What the limit leaves of the matches -/

/-- **What a limit reports** are always first matches of the whole search. They are as many as the
limit allows exactly if every start of the files with that many matches, repetitions counted, has
as many without repetitions, or all there are. -/
theorem found_eq_take_iff (resolve : Resolver) (config : SearchConfig) (queries : List String)
    (files : List SourceFile) (n : Nat) :
    let limited := search resolve { config with maxResults := some n } queries files none
    let all := search resolve { config with maxResults := none } queries files none
    let first (k : Nat) :=
      search resolve { config with maxResults := none } queries (files.take k) none
    limited.found <+: all.found.take n ∧
      (limited.found = all.found.take n ↔ ∀ k, n ≤ (first k).metrics.rawMatches →
        min n all.found.length ≤ (first k).found.length) := by
  obtain ⟨k, hk, hsearch, hbefore, hends⟩ := search_eq resolve
    { config with maxResults := some n } queries files none
  intro limited all first
  have hlimited : limited.found = (first k).found.take n := congrArg SearchOutcome.found hsearch
  have hgrows : ∀ i j, i ≤ j → (first i).found <+: (first j).found := fun i j hij =>
    wholeSearch_found_grows (List.take_prefix_take_left hij)
  have hall : (first files.length).found = all.found := by
    simp only [first, all, List.take_length]
  have hfirsts : limited.found <+: all.found.take n := by
    rw [hlimited, ← hall]
    exact (hgrows k files.length hk).take n
  refine ⟨hfirsts, ?_, ?_⟩
  · intro heq j hraw
    have hkj : k ≤ j := by
      by_contra hlt
      exact hbefore j (by omega) (Or.inr ⟨n, rfl, hraw⟩)
    have hlength := congrArg List.length (hlimited.symm.trans heq)
    have := (hgrows k j hkj).length_le
    rw [List.length_take, List.length_take] at hlength
    omega
  · intro hdistinct
    refine hfirsts.eq_of_length_le ?_
    rw [hlimited, List.length_take, List.length_take]
    rcases Nat.lt_or_ge k files.length with hlt | hge
    · obtain ⟨stop, hstop, -⟩ | ⟨limit, hlimit, hraw⟩ := hends hlt
      · exact absurd hstop (by simp)
      · obtain rfl : n = limit := Option.some.inj hlimit
        have := hdistinct k hraw
        omega
    · obtain rfl : k = files.length := Nat.le_antisymm hk hge
      rw [hall]

/-- A language of single words. -/
def wordGrammar : Grammar where
  name := "words"
  kinds := { identifiers := ["word"] }
  parse text := .ok ((Node.branch "text" .zero).withChildren [.leaf "word" text .zero])

/-- The limit counts what two queries both find twice: where one word is looked for two times in
two files and two matches may be reported, only that in the first file is. -/
theorem limit_counts_repetitions :
    ¬ ∀ (resolve : Resolver) (config : SearchConfig) (queries : List String)
      (files : List SourceFile) (n : Nat),
      (∀ p q g h, resolve p = some g → resolve q = some h → g.name = h.name → g = h) →
      (search resolve { config with maxResults := some n } queries files none).found =
        (search resolve { config with maxResults := none } queries files none).found.take n := by
  intro h
  have hfound := h (fun _ => some wordGrammar) {} ["x", "x"] [⟨"a", "x"⟩, ⟨"b", "x"⟩] 2
    (fun _ _ g h hg hh _ => (Option.some.inj hg).symm.trans (Option.some.inj hh))
  exact absurd (congrArg List.length hfound) (by decide +kernel)

end CodeSearch
