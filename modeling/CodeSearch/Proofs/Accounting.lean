import CodeSearch.Proofs.QueryTable

/-!
# What a search accounts for

A file that a search takes up meets one of four **fates**: it cannot be read, none of the queries
is accepted under its grammar, its text is passed over by the token filter, or it is searched. The
counts of a search are the numbers of files of each fate. Its errors are one for each file that
could not be read and one for each pair of a grammar that was used and a query rejected under it,
however many files have that grammar.
-/

set_option autoImplicit false

namespace CodeSearch

/-- What becomes of a file. -/
inductive Fate where
  /-- It has no grammar or does not parse. -/
  | failed (error : SearchError)
  /-- None of the queries is accepted under its grammar. -/
  | idle
  /-- The token filter passes it over. -/
  | filtered
  /-- It is searched. -/
  | searched
  deriving DecidableEq

/-- The error of a file that could not be read. -/
def Fate.error? : Fate → Option SearchError
  | failed error => some error
  | _ => none

/-- Each of some files either fails or meets one of the other fates. -/
theorem Fate.length_eq (fates : List Fate) :
    fates.length = fates.count filtered + fates.count searched +
      (fates.filterMap error?).length + fates.count idle := by
  induction fates with
  | nil => rfl
  | cons fate rest ih =>
      cases fate <;> simp [ih, List.filterMap_cons, error?] <;> omega

section Accounts

variable (resolve : Resolver) (settings : MatchSettings) (queries : List String)

/-- The queries that a grammar accepts. -/
def acceptedQueries (grammar : Grammar) : List ParsedQuery :=
  queries.filterMap fun text => (parseQuery grammar settings text).toOption

/-- The failures of the queries that a grammar rejects, in the order of the queries. -/
def rejections (grammar : Grammar) : List SearchFailure :=
  queries.zipIdx.filterMap fun (text, index) =>
    match parseQuery grammar settings text with
    | .ok _ => none
    | .error error => some (.ofQuery index grammar.name error)

/-- The fate of a file. -/
def fate (file : SourceFile) : Fate :=
  match resolve file.path with
  | none => .failed (.unsupportedFile file.path)
  | some grammar =>
      let accepted := acceptedQueries settings queries grammar
      if accepted.isEmpty then .idle
      else if !passesTokenFilter file.content (accepted.map (·.tokens)) settings.ignoreCase then
        .filtered
      else
        match grammar.parse file.content with
        | .error failure => .failed (.fileParse failure.message failure.location)
        | .ok _ => .searched

/-- The failure of a file that could not be read. -/
def fileFailure? (file : SourceFile) : Option SearchFailure :=
  (fate resolve settings queries file).error?.map (.ofFile file.path)

/-- The grammars of some files, each once. -/
def grammarsOf (files : List SourceFile) : List Grammar :=
  (files.filterMap fun file => resolve file.path).eraseDupsBy fun g h => g.name == h.name

variable {resolve settings queries}

/-! ## What one file adds -/

theorem queryFailures_eq (grammar : String) (index : Nat) (results : QueryResults) :
    queryFailures grammar index results = (results.zipIdx index).filterMap fun (result, index) =>
      match result with
      | .ok _ => none
      | .error error => some (.ofQuery index grammar error) := by
  induction results generalizing index with
  | nil => rfl
  | cons result rest ih => cases result <;> simp [queryFailures, List.zipIdx_cons, ih]

theorem queryFailures_resultsOf (grammar : Grammar) :
    queryFailures grammar.name 0 (resultsOf settings queries grammar) =
      rejections settings queries grammar := by
  rw [queryFailures_eq, resultsOf, List.zipIdx_map, List.filterMap_map]
  rfl

theorem usableQueries_snd (index : Nat) (results : QueryResults) :
    (usableQueries index results).map Prod.snd = results.filterMap Except.toOption := by
  induction results generalizing index with
  | nil => rfl
  | cons result rest ih =>
      cases result <;> simp [usableQueries, List.filterMap_cons, Except.toOption, ih]

theorem usableQueries_resultsOf (grammar : Grammar) :
    (usableQueries 0 (resultsOf settings queries grammar)).map Prod.snd =
      acceptedQueries settings queries grammar := by
  rw [usableQueries_snd, resultsOf, List.filterMap_map]
  rfl

/-- **One file** is counted under its fate, and reported if it could not be read. -/
theorem reportOf_accounts (file : SourceFile) :
    let report := reportOf resolve settings queries file
    let own := [fate resolve settings queries file]
    report.metrics.filesSeen = 1 ∧
      report.metrics.filesFiltered = own.count .filtered ∧
      report.metrics.filesParsed = own.count .searched ∧
      report.metrics.filesFailed = (own.filterMap Fate.error?).length ∧
      report.errors = (fileFailure? resolve settings queries file).toList := by
  unfold fileFailure? fate reportOf
  cases resolve file.path with
  | none => exact ⟨rfl, rfl, rfl, rfl, rfl⟩
  | some grammar =>
      have hqueries := @usableQueries_resultsOf settings queries grammar
      have hnone : (usableQueries 0 (resultsOf settings queries grammar)).isEmpty =
          (acceptedQueries settings queries grammar).isEmpty := by
        rw [← hqueries, List.isEmpty_map]
      have htokens : (usableQueries 0 (resultsOf settings queries grammar)).map (·.2.tokens) =
          (acceptedQueries settings queries grammar).map (·.tokens) := by
        rw [← hqueries, List.map_map]
        rfl
      dsimp only
      unfold searchFile
      dsimp only
      rw [hnone, htokens]
      split
      next => exact ⟨rfl, rfl, rfl, rfl, rfl⟩
      next =>
        split
        next => exact ⟨rfl, rfl, rfl, rfl, rfl⟩
        next => cases grammar.parse file.content <;> exact ⟨rfl, rfl, rfl, rfl, rfl⟩

/-! ## Grammars and what they reject -/

theorem mem_rejections {grammar : Grammar} {failure : SearchFailure} :
    failure ∈ rejections settings queries grammar ↔ ∃ index text error,
      queries[index]? = some text ∧ parseQuery grammar settings text = .error error ∧
        failure = .ofQuery index grammar.name error := by
  rw [rejections, List.mem_filterMap]
  constructor
  · rintro ⟨⟨text, index⟩, hmem, hfailure⟩
    rw [List.mem_zipIdx_iff_getElem?] at hmem
    dsimp only at hfailure
    cases hparse : parseQuery grammar settings text with
    | ok query => simp [hparse] at hfailure
    | error error => exact ⟨index, text, error, hmem, hparse, by simpa [hparse] using hfailure.symm⟩
  · rintro ⟨index, text, error, hmem, hparse, rfl⟩
    exact ⟨(text, index), List.mem_zipIdx_iff_getElem?.2 hmem, by simp [hparse]⟩

/-- A grammar rejects a query once. -/
theorem nodup_rejections (grammar : Grammar) : (rejections settings queries grammar).Nodup := by
  have hplaces : queries.zipIdx.Pairwise fun a b => a.2 ≠ b.2 := by
    rw [← List.pairwise_map, List.zipIdx_map_snd]
    exact List.nodup_range'
  refine List.pairwise_filterMap.2 (hplaces.imp fun {a b} hne failure ha other hb heq => hne ?_)
  subst heq
  have hindex : ∀ {p : String × Nat}, (match parseQuery grammar settings p.1 with
      | .ok _ => none
      | .error error => some (SearchFailure.ofQuery p.2 grammar.name error)) = some failure →
        failure.queryIndex = some p.2 := by
    intro p hp
    cases hparse : parseQuery grammar settings p.1 with
    | ok query => simp [hparse] at hp
    | error error =>
        obtain rfl : SearchFailure.ofQuery p.2 grammar.name error = failure := by
          simpa [hparse] using hp
        rfl
  exact Option.some.inj ((hindex ha).symm.trans (hindex hb))

/-- Elements of one key are dropped from the end of a list if its start has one. -/
theorem eraseDupsBy_append {α β : Type} [BEq β] [LawfulBEq β] (key : α → β) (xs ys : List α) :
    (xs ++ ys).eraseDupsBy (fun a b => key a == key b) =
      xs.eraseDupsBy (fun a b => key a == key b) ++
        (ys.filter fun a => !xs.any (key · == key a)).eraseDupsBy fun a b => key a == key b := by
  induction hn : xs.length using Nat.strong_induction_on generalizing xs ys with
  | _ n ih =>
      cases xs with
      | nil => simp [List.filter_true]
      | cons x rest =>
          rw [List.cons_append, List.eraseDupsBy_cons, List.eraseDupsBy_cons, List.filter_append,
            ih _ (by subst hn; exact Nat.lt_succ_of_le (List.length_filter_le _ _)) _ _ rfl,
            List.cons_append, List.filter_filter]
          -- what has the key of a dropped element has that of the head
          have hsame : ∀ a, (!(rest.filter fun b => decide ((key b == key x) = false)).any
              (key · == key a) && decide ((key a == key x) = false)) =
                !(x :: rest).any (key · == key a) := by
            intro a
            rw [Bool.eq_iff_iff]
            simp only [Bool.and_eq_true, Bool.not_eq_true', List.any_eq_false, List.mem_filter,
              List.any_cons, Bool.or_eq_false_iff, decide_eq_true_eq, beq_eq_false_iff_ne,
              beq_iff_eq]
            constructor
            · rintro ⟨hrest, hne⟩
              exact ⟨Ne.symm hne, fun b hb heq =>
                hrest b ⟨hb, fun hx => hne (heq.symm.trans hx)⟩ heq⟩
            · rintro ⟨hne, hrest⟩
              exact ⟨fun b hb => hrest b hb.1, Ne.symm hne⟩
          simp only [hsame]

theorem grammarsOf_append_singleton (files : List SourceFile) (file : SourceFile) :
    grammarsOf resolve (files ++ [file]) = grammarsOf resolve files ++
      (resolve file.path).toList.filter fun grammar => !usesGrammar resolve files grammar.name := by
  have hused : ∀ name, (files.filterMap fun file => resolve file.path).any (·.name == name) =
      usesGrammar resolve files name := by
    intro name
    rw [usesGrammar, List.any_filterMap]
    rfl
  rw [grammarsOf, grammarsOf, List.filterMap_append, eraseDupsBy_append Grammar.name]
  simp only [hused]
  cases hresolve : resolve file.path with
  | none => simp [hresolve]
  | some grammar =>
      cases hnew : usesGrammar resolve files grammar.name <;>
        simp [hresolve, hnew, List.eraseDupsBy_cons]

/-- The grammars of some files are used, and their names differ. -/
theorem grammarsOf_used (files : List SourceFile) :
    (∀ grammar ∈ grammarsOf resolve files, usesGrammar resolve files grammar.name = true) ∧
      (grammarsOf resolve files).Pairwise fun g h => g.name ≠ h.name := by
  induction files using List.reverseRecOn with
  | nil => simp [grammarsOf]
  | append_singleton files file ih =>
      obtain ⟨hused, hnames⟩ := ih
      rw [grammarsOf_append_singleton]
      constructor
      · intro grammar hmem
        rw [usesGrammar, List.any_append, Bool.or_eq_true]
        rcases List.mem_append.1 hmem with hmem | hmem
        · exact Or.inl (hused grammar hmem)
        · right
          simp only [List.mem_filter, Option.mem_toList] at hmem
          simp [Option.mem_def.1 hmem.1]
      · refine List.pairwise_append.2 ⟨hnames, ?_, fun g hg h hh hname => ?_⟩
        · cases resolve file.path with
          | none => exact List.Pairwise.nil
          | some grammar => exact (List.pairwise_singleton _ grammar).filter _
        · have hnot := (List.mem_filter.1 hh).2
          rw [← hname, hused g hg] at hnot
          exact absurd hnot (by decide)

/-- The grammar of a file is among those of the files. -/
theorem mem_grammarsOf (hnames : resolve.TellsApart) {files : List SourceFile} {file : SourceFile}
    {grammar : Grammar} (hmem : file ∈ files) (hresolve : resolve file.path = some grammar) :
    grammar ∈ grammarsOf resolve files := by
  induction files using List.reverseRecOn generalizing file with
  | nil => simp at hmem
  | append_singleton files last ih =>
      rw [grammarsOf_append_singleton, List.mem_append]
      rcases List.mem_append.1 hmem with hmem | hlast
      · exact Or.inl (ih hmem hresolve)
      · obtain rfl := List.mem_singleton.1 hlast
        cases hused : usesGrammar resolve files grammar.name with
        | false => exact Or.inr (List.mem_filter.2 ⟨by simp [hresolve], by simp [hused]⟩)
        | true =>
            obtain ⟨earlier, hearlier, hname⟩ := List.any_eq_true.1 hused
            obtain ⟨other, hother, hname⟩ := (Option.any_eq_true _ _).1 hname
            obtain rfl := hnames _ _ _ _ hother hresolve (beq_iff_eq.1 hname)
            exact Or.inl (ih hearlier hother)

/-- What the grammars of some files reject are different failures. -/
theorem nodup_flatMap_rejections (files : List SourceFile) :
    ((grammarsOf resolve files).flatMap (rejections settings queries)).Nodup := by
  refine List.nodup_flatMap.2 ⟨fun grammar _ => nodup_rejections grammar, ?_⟩
  refine (grammarsOf_used files).2.imp fun {g h} hne failure hg hh => hne ?_
  obtain ⟨_, _, _, -, -, rfl⟩ := mem_rejections.1 hg
  obtain ⟨_, _, _, -, -, heq⟩ := mem_rejections.1 hh
  exact Option.some.inj (congrArg SearchFailure.grammar heq)

/-- A query rejected under the grammar of one of some files is one of the failures of the files and
their grammars. -/
theorem count_rejection (hnames : resolve.TellsApart) {files : List SourceFile} {file : SourceFile}
    {grammar : Grammar} {index : Nat} {text : String} {error : SearchError} (hmem : file ∈ files)
    (hresolve : resolve file.path = some grammar) (htext : queries[index]? = some text)
    (hparse : parseQuery grammar settings text = .error error) :
    (files.filterMap (fileFailure? resolve settings queries) ++
      (grammarsOf resolve files).flatMap (rejections settings queries)).count
        (.ofQuery index grammar.name error) = 1 := by
  have hfiles : SearchFailure.ofQuery index grammar.name error ∉
      files.filterMap (fileFailure? resolve settings queries) := by
    intro h
    obtain ⟨other, -, hother⟩ := List.mem_filterMap.1 h
    obtain ⟨_, -, heq⟩ := Option.map_eq_some_iff.1 hother
    exact absurd (congrArg SearchFailure.grammar heq) (by simp [SearchFailure.ofQuery,
      SearchFailure.ofFile])
  rw [List.count_append, List.count_eq_zero_of_not_mem hfiles, Nat.zero_add]
  refine List.count_eq_one_of_mem (nodup_flatMap_rejections files) ?_
  exact List.mem_flatMap.2 ⟨grammar, mem_grammarsOf hnames hmem hresolve,
    mem_rejections.2 ⟨index, text, error, htext, hparse, rfl⟩⟩

/-! ## The accounts of a run -/

/-- A state **accounts for** some files if each of them is counted under its fate, and reported if
it failed, and if each grammar among theirs is known and what it rejects is reported once. -/
structure SearchState.AccountsFor (resolve : Resolver) (settings : MatchSettings)
    (queries : List String) (files : List SourceFile) (s : SearchState) : Prop where
  seen : s.metrics.filesSeen = files.length
  filtered : s.metrics.filesFiltered =
    (files.map (fate resolve settings queries)).count .filtered
  searched : s.metrics.filesParsed = (files.map (fate resolve settings queries)).count .searched
  failed : s.metrics.filesFailed =
    ((files.map (fate resolve settings queries)).filterMap Fate.error?).length
  errors : s.errors.Perm (files.filterMap (fileFailure? resolve settings queries) ++
    (grammarsOf resolve files).flatMap (rejections settings queries))
  grammars : ∀ name, s.knows name = usesGrammar resolve files name
  slots : s.hints.length = queries.length
  hints : ∀ slot ∈ s.hints, slot.Nodup

namespace SearchState

variable {files : List SourceFile} {s : SearchState}

theorem accountsFor_start :
    (start queries.length).AccountsFor resolve settings queries [] where
  seen := rfl
  filtered := rfl
  searched := rfl
  failed := rfl
  errors := List.Perm.nil
  grammars _ := rfl
  slots := by simp [start]
  hints slot h := by
    rw [List.eq_of_mem_replicate h]
    exact List.nodup_nil

theorem metrics_lookUp (file : SourceFile) :
    (s.lookUp resolve settings queries file).metrics = s.metrics := by
  rw [lookUp]
  cases resolve file.path with
  | none => rfl
  | some grammar => exact (queriesFor_found settings queries s grammar).2

/-- Looking up the queries for a file reports what its grammar rejects, unless that has been done
for an earlier file. -/
theorem errors_lookUp (h : s.AccountsFor resolve settings queries files) (file : SourceFile) :
    (s.lookUp resolve settings queries file).errors = s.errors ++
      ((resolve file.path).toList.filter fun grammar =>
        !usesGrammar resolve files grammar.name).flatMap (rejections settings queries) := by
  rw [lookUp]
  cases hresolve : resolve file.path with
  | none => simp
  | some grammar =>
      dsimp only
      rw [queriesFor_eq, h.grammars, queryFailures_resultsOf]
      cases hused : usesGrammar resolve files grammar.name <;> simp [hused]

theorem hints_lookUp (h : s.AccountsFor resolve settings queries files) (file : SourceFile) :
    ∀ slot ∈ (s.lookUp resolve settings queries file).hints, slot.Nodup := by
  rw [lookUp]
  cases resolve file.path with
  | none => exact h.hints
  | some grammar =>
      dsimp only
      rw [queriesFor_eq]
      split
      next => exact h.hints
      next =>
        intro slot hmem
        rw [← List.map_uncurry_zip_eq_zipWith, List.mem_map] at hmem
        obtain ⟨⟨hints, new⟩, hpair, rfl⟩ := hmem
        exact addHints_nodup (h.hints hints (List.of_mem_zip hpair).1) new

/-- **One more file** is accounted for after a step. -/
theorem AccountsFor.step (hs : s.Sound resolve settings queries)
    (h : s.AccountsFor resolve settings queries files) (file : SourceFile) :
    (s.step resolve settings queries file).AccountsFor resolve settings queries
      (files ++ [file]) := by
  obtain ⟨hseen, hfiltered, hsearched, hfailed, herrors⟩ :=
    @reportOf_accounts resolve settings queries file
  have hmetrics : (s.step resolve settings queries file).metrics =
      s.metrics.add (reportOf resolve settings queries file).metrics := by
    rw [step_eq hs, add, metrics_lookUp]
  have hlength := length_hints_step hs h.slots file
  have hknows := knows_step hs file
  constructor
  · rw [hmetrics, SearchMetrics.add, hseen, h.seen, List.length_append]
    rfl
  · rw [hmetrics, SearchMetrics.add, hfiltered, h.filtered, List.map_append, List.count_append]
    rfl
  · rw [hmetrics, SearchMetrics.add, hsearched, h.searched, List.map_append, List.count_append]
    rfl
  · rw [hmetrics, SearchMetrics.add, hfailed, h.failed, List.map_append, List.filterMap_append,
      List.length_append]
    rfl
  · rw [step_eq hs, add, herrors, errors_lookUp h, List.filterMap_append,
      grammarsOf_append_singleton, List.flatMap_append, List.append_assoc]
    generalize hfile : (fileFailure? resolve settings queries file).toList = own
    have hown : [file].filterMap (fileFailure? resolve settings queries) = own := by
      rw [← hfile, List.filterMap_cons]
      cases fileFailure? resolve settings queries file <;> rfl
    rw [hown]
    refine (h.errors.append_right _).trans ?_
    rw [List.append_assoc, List.append_assoc, ← List.append_assoc (List.flatMap _ _)]
    exact List.perm_append_comm.append_left _
  · intro name
    rw [hknows, h.grammars, usesGrammar, usesGrammar, List.any_append]
    simp
  · exact hlength
  · rw [step_eq hs]
    exact hints_lookUp h file

theorem AccountsFor.after (hnames : resolve.TellsApart) (hs : s.Sound resolve settings queries)
    (h : s.AccountsFor resolve settings queries files) (later : List SourceFile) :
    (s.after resolve settings queries later).AccountsFor resolve settings queries
      (files ++ later) := by
  induction later generalizing s files with
  | nil => rwa [List.append_nil]
  | cons file rest ih =>
      rw [← List.singleton_append, ← List.append_assoc]
      exact ih (hs.step hnames file) (h.step hs file)

end SearchState

end Accounts

theorem Match.dedupFrom_sublist (seen : List (List String × Nat × Nat)) (found : List Match) :
    (dedupFrom seen found).Sublist found := by
  induction found generalizing seen with
  | nil => exact List.Sublist.slnil
  | cons m rest ih =>
      rw [dedupFrom]
      split
      next => exact (ih seen).cons m
      next => exact (ih (m.site :: seen)).cons_cons m

theorem Match.upTo_sublist (limit : Option Nat) (found : List Match) :
    (upTo limit found).Sublist found := by
  cases limit with
  | none => exact List.Sublist.refl _
  | some limit => exact List.take_sublist _ _

theorem Match.length_upTo_le (limit : Option Nat) (found : List Match) :
    (upTo limit found).length ≤ found.length :=
  (upTo_sublist limit found).length_le

/-- **Everything is accounted for.** Where grammars are told apart by their names, each file that a
search takes up is counted under its fate. Its errors are one for each of them that failed and one
for each query rejected under a grammar that was used, however many files have that grammar. It
reports no more matches than it counted, and holds hints on each query, none of them twice. -/
theorem search_accounts (resolve : Resolver) (config : SearchConfig) (queries : List String)
    (hnames : resolve.TellsApart) (files : List SourceFile) (stopAt : Option Nat) :
    let outcome := search resolve config queries files stopAt
    let taken := files.take (outcome.cut.getD files.length)
    let fates := taken.map (fate resolve config queries)
    (outcome.metrics.filesSeen = outcome.metrics.filesFiltered + outcome.metrics.filesParsed +
        outcome.metrics.filesFailed + fates.count .idle ∧
      outcome.metrics.filesSeen = taken.length ∧
      outcome.metrics.filesFiltered = fates.count .filtered ∧
      outcome.metrics.filesParsed = fates.count .searched ∧
      outcome.metrics.filesFailed = (fates.filterMap Fate.error?).length) ∧
    (outcome.errors.Perm (taken.filterMap (fileFailure? resolve config queries) ++
        (grammarsOf resolve taken).flatMap (rejections config queries)) ∧
      ∀ file ∈ taken, ∀ grammar, resolve file.path = some grammar → ∀ index text error,
        queries[index]? = some text → parseQuery grammar config text = .error error →
        outcome.errors.count (.ofQuery index grammar.name error) = 1) ∧
    outcome.found.length ≤ outcome.metrics.rawMatches ∧
    outcome.hints.length = queries.length ∧ ∀ slot ∈ outcome.hints, slot.Nodup := by
  obtain ⟨k, hk, hsearch, -⟩ := search_eq resolve config queries files stopAt
  intro outcome taken fates
  have hcut : outcome.cut.getD files.length = k := by
    rw [show outcome.cut = _ from congrArg SearchOutcome.cut hsearch]
    by_cases hlt : k < files.length
    · simp [hlt]
    · simp [hlt]; omega
  have hsound : (SearchState.start queries.length).Sound resolve config queries :=
    SearchState.sound_start
  have haccounts := SearchState.accountsFor_start.after hnames hsound taken
  have hraw := @wholeSearch_rawMatches resolve config queries taken
  have houtcome : outcome =
      { wholeSearch resolve config queries taken with
        found := Match.upTo config.maxResults (wholeSearch resolve config queries taken).found
        stoppedEarly := outcome.stoppedEarly
        cut := outcome.cut } := by
    rw [show taken = files.take k by rw [← hcut], show outcome = _ from hsearch]
  rw [wholeSearch_eq] at hraw houtcome
  generalize hlast : (SearchState.start queries.length).after resolve config queries taken = last
    at haccounts hraw houtcome
  rw [List.nil_append] at haccounts
  have hmetrics : outcome.metrics = last.metrics := congrArg SearchOutcome.metrics houtcome
  have herrors : outcome.errors = last.errors := congrArg SearchOutcome.errors houtcome
  have hhints : outcome.hints = last.hints := congrArg SearchOutcome.hints houtcome
  have hfound : outcome.found = Match.upTo config.maxResults (Match.dedup last.found) :=
    congrArg SearchOutcome.found houtcome
  rw [hmetrics, herrors, hhints, hfound]
  refine ⟨⟨?_, haccounts.seen, haccounts.filtered, haccounts.searched, haccounts.failed⟩,
    ⟨haccounts.errors, fun file hmem grammar hresolve index text error htext hparse => ?_⟩, ?_,
    haccounts.slots, haccounts.hints⟩
  · rw [haccounts.seen, haccounts.filtered, haccounts.searched, haccounts.failed,
      ← Fate.length_eq, List.length_map]
  · rw [haccounts.errors.count_eq]
    exact count_rejection hnames hmem hresolve htext hparse
  · rw [show last.metrics.rawMatches = last.found.length from hraw]
    exact (Match.length_upTo_le _ _).trans (Match.dedupFrom_sublist [] last.found).length_le

/-- A file that is searched, one without a grammar, one that the token filter passes over and
another that is searched, with a query of nothing that is rejected once. -/
theorem search_accounts_words :
    let resolve : Resolver := fun path => if path = "b" then none else some wordGrammar
    let outcome := search resolve {} ["xy", ""]
      [⟨"a", "xy"⟩, ⟨"b", "xy"⟩, ⟨"c", "z"⟩, ⟨"d", "xy"⟩] none
    outcome.metrics.filesSeen = 4 ∧ outcome.metrics.filesFiltered = 1 ∧
      outcome.metrics.filesParsed = 2 ∧ outcome.errors.length = 2 ∧
      outcome.errors.count (.ofQuery 1 "words" .emptyQuery) = 1 := by
  intro resolve outcome
  have hword : ∀ {path grammar}, resolve path = some grammar → grammar = wordGrammar := by
    intro path grammar h
    by_cases hb : path = "b"
    · simp [resolve, hb] at h
    · exact (Option.some.inj (by simpa [resolve, hb] using h)).symm
  have hnames : resolve.TellsApart := fun _ _ _ _ hg hh _ => (hword hg).trans (hword hh).symm
  obtain ⟨⟨-, hseen, hfiltered, hparsed, -⟩, ⟨herrors, hrejected⟩, -⟩ := search_accounts resolve {}
    ["xy", ""] hnames [⟨"a", "xy"⟩, ⟨"b", "xy"⟩, ⟨"c", "z"⟩, ⟨"d", "xy"⟩] none
  exact ⟨hseen.trans (by decide +kernel), hfiltered.trans (by decide +kernel),
    hparsed.trans (by decide +kernel), herrors.length_eq.trans (by decide +kernel),
    hrejected ⟨"d", "xy"⟩ (by decide +kernel) wordGrammar rfl 1 "" .emptyQuery rfl rfl⟩

end CodeSearch
