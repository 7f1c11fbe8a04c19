import CodeSearch.Proofs.Accounting
import Mathlib.Data.List.Perm.Basic

/-!
# The order of the queries

Queries may be given in any order. Each is found in the same places, and though another query may
be credited with a place that several have found, the places that are reported are the same, as are
all counts (`search_perm`). Two searches are compared file by file: what has been parsed for each
grammar, the sites found so far and the counts agree up to order, and one more file keeps it so.
-/

set_option autoImplicit false

namespace CodeSearch

/-! ## The places of matches -/

namespace Match

/-- Where a match stands: the path of its file as given, and the bytes. -/
def position (m : Match) : String × Nat × Nat := (m.path, m.span.startByte, m.span.endByte)

/-- The site at a position. Paths that lead to one file are one there. -/
def siteOf (position : String × Nat × Nat) : List String × Nat × Nat :=
  (Path.components position.1, position.2)

theorem position_eq_of_site_eq {m m' : Match} (hpath : m.path = m'.path) (h : m.site = m'.site) :
    m.position = m'.position := by
  rw [position, position, hpath, Prod.mk.injEq]
  exact ⟨rfl, (Prod.mk.inj h).2⟩

/-- The sites that are left are those that are not among the given ones. -/
theorem mem_sites_dedupFrom {seen : List (List String × Nat × Nat)} {found : List Match}
    {site : List String × Nat × Nat} :
    site ∈ (dedupFrom seen found).map Match.site ↔
      site ∈ found.map Match.site ∧ site ∉ seen := by
  induction found generalizing seen with
  | nil => simp [dedupFrom]
  | cons m rest ih =>
      rw [dedupFrom, List.map_cons, List.mem_cons]
      split
      next hseen =>
        have hseen : m.site ∈ seen := List.contains_iff_mem.1 hseen
        rw [ih]
        constructor
        · rintro ⟨hrest, hnew⟩
          exact ⟨Or.inr hrest, hnew⟩
        · rintro ⟨rfl | hrest, hnew⟩
          · exact absurd hseen hnew
          · exact ⟨hrest, hnew⟩
      next hseen =>
        have hseen : m.site ∉ seen := fun hmem => hseen (List.contains_iff_mem.2 hmem)
        rw [List.map_cons, List.mem_cons, ih, List.mem_cons, not_or]
        constructor
        · rintro (rfl | ⟨hrest, -, hnew⟩)
          · exact ⟨Or.inl rfl, hseen⟩
          · exact ⟨Or.inr hrest, hnew⟩
        · rintro ⟨hsite, hnew⟩
          by_cases hown : site = m.site
          · exact Or.inl hown
          · exact Or.inr ⟨hsite.resolve_left hown, hown, hnew⟩

theorem nodup_sites_dedupFrom (seen : List (List String × Nat × Nat)) (found : List Match) :
    ((dedupFrom seen found).map Match.site).Nodup := by
  induction found generalizing seen with
  | nil => exact List.nodup_nil
  | cons m rest ih =>
      rw [dedupFrom]
      split
      next => exact ih seen
      next =>
        rw [List.map_cons, List.nodup_cons]
        refine ⟨fun hmem => ?_, ih _⟩
        exact (mem_sites_dedupFrom.1 hmem).2 List.mem_cons_self

/-- Repetitions are dropped part by part, with what was found before in mind. -/
theorem dedupFrom_append (seen : List (List String × Nat × Nat)) (xs ys : List Match) :
    ∃ later, (∀ site, site ∈ later ↔ site ∈ xs.map Match.site ∨ site ∈ seen) ∧
      dedupFrom seen (xs ++ ys) = dedupFrom seen xs ++ dedupFrom later ys := by
  induction xs generalizing seen with
  | nil => exact ⟨seen, by simp, rfl⟩
  | cons m rest ih =>
      rw [List.cons_append, dedupFrom, dedupFrom]
      split
      next hseen =>
        obtain ⟨later, hlater, happend⟩ := ih seen
        refine ⟨later, fun site => ?_, happend⟩
        rw [hlater, List.map_cons, List.mem_cons, or_assoc]
        constructor
        · exact Or.inr
        · rintro (rfl | h)
          · exact Or.inr (List.contains_iff_mem.1 hseen)
          · exact h
      next =>
        obtain ⟨later, hlater, happend⟩ := ih (m.site :: seen)
        refine ⟨later, fun site => ?_, ?_⟩
        · rw [hlater, List.map_cons, List.mem_cons, List.mem_cons]
          tauto
        · rw [happend, List.cons_append]

theorem nodup_positions_dedupFrom (seen : List (List String × Nat × Nat)) (found : List Match) :
    ((dedupFrom seen found).map position).Nodup := by
  have hsites := nodup_sites_dedupFrom seen found
  refine List.Nodup.of_map siteOf ?_
  rw [List.map_map]
  exact hsites

/-- The positions in one file that are left are those whose sites are not among the given ones. -/
theorem mem_positions_dedupFrom {seen : List (List String × Nat × Nat)} {found : List Match}
    {path : String} (hfound : ∀ m ∈ found, m.path = path) {place : String × Nat × Nat} :
    place ∈ (dedupFrom seen found).map position ↔
      place ∈ found.map position ∧ siteOf place ∉ seen := by
  constructor
  · intro h
    obtain ⟨m, hm, rfl⟩ := List.mem_map.1 h
    exact ⟨List.mem_map_of_mem ((dedupFrom_sublist seen found).subset hm),
      (mem_sites_dedupFrom.1 (List.mem_map_of_mem hm)).2⟩
  · rintro ⟨h, hnew⟩
    obtain ⟨m, hm, rfl⟩ := List.mem_map.1 h
    obtain ⟨kept, hkept, hsite⟩ := List.mem_map.1
      (mem_sites_dedupFrom.2 ⟨List.mem_map_of_mem hm, hnew⟩)
    have hpath : kept.path = m.path :=
      (hfound kept ((dedupFrom_sublist seen found).subset hkept)).trans (hfound m hm).symm
    exact List.mem_map.2 ⟨kept, hkept, position_eq_of_site_eq hpath hsite⟩

/-- Matches in one file that stand at the same positions do so too once those at earlier sites and
repetitions are dropped. -/
theorem dedupFrom_perm {xs ys : List Match} {seen seen' : List (List String × Nat × Nat)}
    {path : String} (hxs : ∀ m ∈ xs, m.path = path) (hys : ∀ m ∈ ys, m.path = path)
    (h : (xs.map position).Perm (ys.map position)) (hseen : ∀ site, site ∈ seen ↔ site ∈ seen') :
    ((dedupFrom seen xs).map position).Perm ((dedupFrom seen' ys).map position) := by
  rw [List.perm_ext_iff_of_nodup (nodup_positions_dedupFrom seen xs)
    (nodup_positions_dedupFrom seen' ys)]
  intro place
  rw [mem_positions_dedupFrom hxs, mem_positions_dedupFrom hys, h.mem_iff, hseen]

end Match

/-! ## One file -/

theorem total_perm {counts others : List Nat} (h : counts.Perm others) :
    total counts = total others :=
  h.foldr_eq' (fun x _ y _ z => by omega) 0

section File

variable (cx : MatchContext) (path : String) (root : Node) (query : ParsedQuery)

/-- Where a query is found, and the violations met, do not depend on its place among the
queries. -/
theorem matchesIn_positions (i j : Nat) :
    (matchesIn cx path root i query).1.map Match.position =
        (matchesIn cx path root j query).1.map Match.position ∧
      (matchesIn cx path root i query).2 = (matchesIn cx path root j query).2 := by
  rw [matchesIn, matchesIn]
  simp only [List.map_map]
  exact ⟨rfl, rfl⟩

end File

section Together

variable (cx : MatchContext) (path : String) (root : Node)

/-- The positions at which some queries are found, one query after another. -/
theorem positions_matchesIn (queries : List (Nat × ParsedQuery)) :
    (((queries.map fun (index, query) => matchesIn cx path root index query).flatMap
        Prod.fst).map Match.position) =
      (queries.map Prod.snd).flatMap fun query =>
        (matchesIn cx path root 0 query).1.map Match.position := by
  rw [List.flatMap_map, List.flatMap_map, List.map_flatMap]
  exact List.flatMap_congr fun entry _ => (matchesIn_positions cx path root entry.2 entry.1 0).1

/-- The violations that some queries meet. -/
theorem violations_matchesIn (queries : List (Nat × ParsedQuery)) :
    ((queries.map fun (index, query) => matchesIn cx path root index query).map Prod.snd) =
      (queries.map Prod.snd).map fun query => (matchesIn cx path root 0 query).2 := by
  rw [List.map_map, List.map_map]
  exact List.map_congr_left fun entry _ => (matchesIn_positions cx path root entry.2 entry.1 0).2

end Together

theorem passesTokenFilter_perm (content : String) {tokenSets others : List (List String)}
    (h : tokenSets.Perm others) (ignoreCase : Bool) :
    passesTokenFilter content tokenSets ignoreCase =
      passesTokenFilter content others ignoreCase := by
  rw [passesTokenFilter, passesTokenFilter]
  exact h.any_eq

theorem path_of_mem_searchFile (grammar : Grammar) (settings : MatchSettings) (file : SourceFile)
    (results : QueryResults) :
    ∀ m ∈ (searchFile grammar settings file results).found, m.path = file.path := by
  intro m hm
  obtain ⟨root, index, query, -, -, found, -, rfl⟩ := exists_found_of_mem_searchFile hm
  rfl

/-- **One file** is found to match at the same positions, with the same counts, whatever the order
of the queries. -/
theorem searchFile_perm (grammar : Grammar) (settings : MatchSettings) (file : SourceFile)
    {results results' : QueryResults} (h : results.Perm results') :
    let left := searchFile grammar settings file results
    let right := searchFile grammar settings file results'
    (left.found.map Match.position).Perm (right.found.map Match.position) ∧
      left.metrics = right.metrics := by
  have husable : ((usableQueries 0 results).map Prod.snd).Perm
      ((usableQueries 0 results').map Prod.snd) := by
    rw [usableQueries_snd, usableQueries_snd]
    exact h.filterMap _
  have htokens : ((usableQueries 0 results).map (·.2.tokens)).Perm
      ((usableQueries 0 results').map (·.2.tokens)) := by
    have hmapped := husable.map ParsedQuery.tokens
    rwa [List.map_map, List.map_map] at hmapped
  have hnone : (usableQueries 0 results).isEmpty = (usableQueries 0 results').isEmpty := by
    rw [← List.isEmpty_map (f := Prod.snd), husable.isEmpty_eq, List.isEmpty_map]
  unfold searchFile
  dsimp only
  rw [hnone, passesTokenFilter_perm file.content htokens]
  split
  next => exact ⟨.refl _, rfl⟩
  next =>
    split
    next => exact ⟨.refl _, rfl⟩
    next =>
      split
      next => exact ⟨.refl _, rfl⟩
      next root _ =>
        have hfound := husable.flatMap_right fun query =>
          (matchesIn ⟨grammar, settings, file.content⟩ file.path root 0 query).1.map Match.position
        have hviolations := total_perm (husable.map fun query =>
          (matchesIn ⟨grammar, settings, file.content⟩ file.path root 0 query).2)
        rw [← positions_matchesIn, ← positions_matchesIn] at hfound
        rw [← violations_matchesIn, ← violations_matchesIn] at hviolations
        have hlength := hfound.length_eq
        rw [List.length_map, List.length_map] at hlength
        exact ⟨hfound, by rw [hlength, hviolations]⟩

/-! ## One file after another -/

/-- Two states of a search agree **up to the order of the queries**: for each grammar the same has
been parsed, matches stand at the same sites, and without repetitions at the same positions, and as
much has been counted. -/
structure SearchState.Reordered (s t : SearchState) : Prop where
  parsed : ∀ name, Option.Rel List.Perm (s.parsed.lookup name) (t.parsed.lookup name)
  sites : ∀ site, site ∈ s.found.map Match.site ↔ site ∈ t.found.map Match.site
  positions : ((Match.dedup s.found).map Match.position).Perm
    ((Match.dedup t.found).map Match.position)
  metrics : s.metrics = t.metrics

namespace SearchState.Reordered

variable {s t : SearchState}

/-- States that agree still do so once both have taken in reports on one file that agree. -/
theorem add (h : s.Reordered t) {left right : FileReport} {path : String}
    (hleft : ∀ m ∈ left.found, m.path = path) (hright : ∀ m ∈ right.found, m.path = path)
    (hfound : (left.found.map Match.position).Perm (right.found.map Match.position))
    (hmetrics : left.metrics = right.metrics) : (s.add left).Reordered (t.add right) where
  parsed := h.parsed
  sites site := by
    have hsites := (hfound.map Match.siteOf).mem_iff (a := site)
    rw [List.map_map, List.map_map] at hsites
    rw [SearchState.add, SearchState.add, List.map_append, List.map_append, List.mem_append,
      List.mem_append, h.sites site]
    exact or_congr_right hsites
  positions := by
    obtain ⟨seen, hseen, hs⟩ := Match.dedupFrom_append [] s.found left.found
    obtain ⟨seen', hseen', ht⟩ := Match.dedupFrom_append [] t.found right.found
    rw [SearchState.add, SearchState.add, Match.dedup, Match.dedup, hs, ht, List.map_append,
      List.map_append]
    refine h.positions.append (Match.dedupFrom_perm hleft hright hfound fun site => ?_)
    rw [hseen, hseen', h.sites site]
  metrics := by rw [SearchState.add, SearchState.add, h.metrics, hmetrics]

variable {resolve : Resolver} {settings : MatchSettings} {queries queries' : List String}

/-- Looking up the queries of a grammar gives the same results, up to order. -/
theorem queriesFor (h : s.Reordered t) (settings : MatchSettings)
    (hqueries : queries.Perm queries') (grammar : Grammar) :
    (s.queriesFor grammar settings queries).1.Perm (t.queriesFor grammar settings queries').1 ∧
      (s.queriesFor grammar settings queries).2.Reordered
        (t.queriesFor grammar settings queries').2 := by
  have hknown := h.parsed grammar.name
  rw [SearchState.queriesFor, SearchState.queriesFor]
  generalize s.parsed.lookup grammar.name = left at hknown ⊢
  generalize t.parsed.lookup grammar.name = right at hknown ⊢
  cases hknown with
  | some hresults => exact ⟨hresults, h⟩
  | none =>
      have hresults := hqueries.map (parseQuery grammar settings)
      refine ⟨hresults, fun name => ?_, h.sites, h.positions, h.metrics⟩
      rw [List.lookup_cons, List.lookup_cons]
      split
      next => exact .some hresults
      next => exact h.parsed name

/-- **One more file** keeps two states in agreement. -/
theorem step (h : s.Reordered t) (hqueries : queries.Perm queries') (file : SourceFile) :
    (s.step resolve settings queries file).Reordered
      (t.step resolve settings queries' file) := by
  have hnone : ∀ m ∈ ([] : List Match), m.path = file.path := by simp
  have hseen : (s.add { metrics := { filesSeen := 1 } }).Reordered
      (t.add { metrics := { filesSeen := 1 } }) := h.add hnone hnone (.refl _) rfl
  rw [SearchState.step, SearchState.step]
  cases resolve file.path with
  | none => exact hseen.add hnone hnone (.refl _) rfl
  | some grammar =>
      obtain ⟨hresults, hafter⟩ := hseen.queriesFor settings hqueries grammar
      obtain ⟨hfound, hmetrics⟩ := searchFile_perm grammar settings file hresults
      exact hafter.add (path_of_mem_searchFile grammar settings file _)
        (path_of_mem_searchFile grammar settings file _) hfound hmetrics

/-- **A run without a limit** keeps two states in agreement, whenever it is told to stop. -/
theorem run (h : s.Reordered t) (resolve : Resolver) (hqueries : queries.Perm queries')
    {config : SearchConfig} (hlimit : config.maxResults = none) (stopAt : Option Nat)
    (index : Nat) (files : List SourceFile) :
    (s.run resolve config queries stopAt index files).1.Reordered
      (t.run resolve config queries' stopAt index files).1 := by
  induction files generalizing s t index with
  | nil => exact h
  | cons file rest ih =>
      have hends : s.ends config stopAt index = t.ends config stopAt index := by
        rw [ends, ends, hlimit]
        rfl
      rw [SearchState.run, SearchState.run, hends]
      split
      next => exact h
      next => exact ih (h.step hqueries file) (index + 1)

end SearchState.Reordered

/-- **The order of the queries does not matter** to a search without a limit: without repetitions
its matches stand at the same positions, and everything is counted the same. -/
theorem search_perm (resolve : Resolver) (config : SearchConfig) (hlimit : config.maxResults = none)
    {queries queries' : List String} (h : queries.Perm queries') (files : List SourceFile)
    (stopAt : Option Nat) :
    let left := search resolve config queries files stopAt
    let right := search resolve config queries' files stopAt
    (left.found.map Match.position).Perm (right.found.map Match.position) ∧
      left.metrics = right.metrics := by
  have hstart : (SearchState.start queries.length).Reordered (.start queries'.length) :=
    ⟨fun _ => .none, fun _ => Iff.rfl, .refl _, rfl⟩
  obtain ⟨-, -, hpositions, hmetrics⟩ := hstart.run resolve h hlimit stopAt 0 files
  rw [search, search, hlimit]
  exact ⟨hpositions, hmetrics⟩

/-- Where two queries and a repetition of one meet in two files, either order of them reports the
same two places, though the first is credited to another query. -/
theorem search_perm_words :
    let files : List SourceFile := [⟨"a", "xy"⟩, ⟨"b", "xz"⟩]
    let resolve : Resolver := fun _ => some wordGrammar
    let left := search resolve {} ["xy", "x$$", "xy"] files none
    let right := search resolve {} ["x$$", "xy", "xy"] files none
    left.found.map Match.queryIndex = [0, 1] ∧ right.found.map Match.queryIndex = [0, 0] ∧
      (left.found.map Match.position).Perm (right.found.map Match.position) ∧
      left.metrics = right.metrics := by
  intro files resolve left right
  have h : ["xy", "x$$", "xy"].Perm ["x$$", "xy", "xy"] := by decide
  exact ⟨by decide +kernel, by decide +kernel, search_perm resolve {} rfl h files none⟩

end CodeSearch
