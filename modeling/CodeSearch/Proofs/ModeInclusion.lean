import CodeSearch.Proofs.Displacement
import CodeSearch.Proofs.ExtraCode
import Mathlib.Data.List.Pairwise

/-!
# What the stricter modes find

What is found where all of the code or the order counts should be found where neither does as well.
But there the elements of a list of the query choose again, one after another, and one that takes an
element in front of its own may take it from another that needs it. So what is found is found again
as long as no element is displaced in that way. That can be seen from the lists alone where no
aliases are used.
-/

set_option autoImplicit false

namespace CodeSearch

/-! ## Aliases that are used twice -/

section UsedTwice

variable {cx : MatchContext} {query : Node}

/-- An alias is **used twice** in a query, at least. -/
def MatchContext.UsedTwice (cx : MatchContext) (query : Node) (a : Alias) : Prop :=
  2 ≤ (cx.aliases query).count a

instance (a : Alias) : Decidable (cx.UsedTwice query a) :=
  inferInstanceAs (Decidable (2 ≤ (cx.aliases query).count a))

/-- What occurs in what two elements of a list give occurs twice in what all give. -/
theorem pairwise_two_le_count {α β : Type} [DecidableEq β] (g : α → List β) (xs : List α) :
    xs.Pairwise fun x y => ∀ b ∈ g x, b ∈ g y → 2 ≤ (xs.flatMap g).count b := by
  induction xs with
  | nil => exact List.Pairwise.nil
  | cons x rest ih =>
      simp only [List.flatMap_cons, List.count_append]
      refine List.pairwise_cons.2 ⟨fun y hy b hx hmem => ?_, ih.imp fun h b hx hmem => ?_⟩
      · have hfirst := List.count_pos_iff.2 hx
        have hlater := List.count_pos_iff.2 (List.mem_flatMap.2 ⟨y, hy, hmem⟩)
        omega
      · have := h b hx hmem
        omega

/-- The aliases of a query are those in its text and those of the nodes right below it. -/
theorem MatchContext.aliases_eq (cx : MatchContext) (query : Node) :
    cx.aliases query = cx.ownAliases query ++ cx.aliasesOf query.offspring := by
  rw [MatchContext.aliases, Node.walk_eq, List.flatMap_cons, List.flatMap_assoc]
  rfl

theorem MatchContext.aliasesOf_offspring (cx : MatchContext) (query : Node) :
    cx.aliasesOf query.offspring =
      query.fields.flatMap fun entry => cx.aliasesOf entry.2.members := by
  rw [MatchContext.aliasesOf, Node.offspring, List.flatMap_assoc]
  rfl

/-- What is used twice in a list of a node is used twice in the node. -/
theorem count_aliasesOf_le {name : String} {field : Field} (h : query.field? name = some field)
    (a : Alias) : (cx.aliasesOf field.members).count a ≤ (cx.aliases query).count a := by
  obtain ⟨before, after, hfields, -⟩ := List.lookup_eq_some_iff.1 h
  rw [cx.aliases_eq, cx.aliasesOf_offspring, hfields, List.flatMap_append, List.flatMap_cons]
  simp only [List.count_append]
  omega

/-- What is used twice in a subtree is used twice in the tree. -/
theorem usedTwice_of_mem_walk {m : Node} (h : m ∈ query.walk) {a : Alias}
    (ha : cx.UsedTwice m a) : cx.UsedTwice query a := by
  induction query using Node.offspring_induction with
  | step query ih =>
      rcases Node.mem_walk.1 h with rfl | ⟨c, hc, hm⟩
      · exact ha
      · have htwice := ih c hc hm
        obtain ⟨before, after, hoffspring⟩ := List.append_of_mem hc
        rw [MatchContext.UsedTwice] at htwice ⊢
        rw [cx.aliases_eq, hoffspring, MatchContext.aliasesOf, List.flatMap_append,
          List.flatMap_cons]
        simp only [List.count_append]
        omega

theorem MatchContext.aliasesAt_subset (cx : MatchContext) (query : Node) (path : FieldPath) :
    cx.aliasesAt query path ⊆ cx.aliases query := by
  intro a ha
  rw [MatchContext.aliasesAt] at ha
  cases hfield : query.resolve path with
  | none => simp [hfield] at ha
  | some field =>
      rw [hfield] at ha
      obtain ⟨q, hq, ha⟩ := List.mem_flatMap.1 ha
      exact cx.aliases_subset (Node.mem_walk_of_resolve hfield hq) ha

theorem mem_aliasesAt {name : String} {a : Alias} :
    a ∈ cx.aliasesAt query [name] ↔
      ∃ field, query.field? name = some field ∧ a ∈ cx.aliasesOf field.members := by
  rw [MatchContext.aliasesAt, Node.resolve]
  cases query.field? name <;> simp

/-- An alias in the text of a node and in a field of it is used twice. -/
theorem usedTwice_of_own {name : String} {a : Alias} (hown : a ∈ cx.ownAliases query)
    (hfield : a ∈ cx.aliasesAt query [name]) : cx.UsedTwice query a := by
  obtain ⟨field, h, hfield⟩ := mem_aliasesAt.1 hfield
  have hmem : a ∈ cx.aliasesOf query.offspring := by
    rw [cx.aliasesOf_offspring]
    exact List.mem_flatMap.2 ⟨(name, field), Node.mem_fields_of_field? h, hfield⟩
  have hfirst := List.count_pos_iff.2 hown
  have hlater := List.count_pos_iff.2 hmem
  rw [MatchContext.UsedTwice, cx.aliases_eq, List.count_append]
  omega

/-- An alias in two fields of a node is used twice. -/
theorem usedTwice_of_fields {name other : String} (hne : name ≠ other) {a : Alias}
    (ha : a ∈ cx.aliasesAt query [name]) (ha' : a ∈ cx.aliasesAt query [other]) :
    cx.UsedTwice query a := by
  obtain ⟨field, h, ha⟩ := mem_aliasesAt.1 ha
  obtain ⟨field', h', ha'⟩ := mem_aliasesAt.1 ha'
  let Twice : String × Field → String × Field → Prop := fun x y =>
    ∀ a ∈ cx.aliasesOf x.2.members, a ∈ cx.aliasesOf y.2.members →
      2 ≤ (query.fields.flatMap fun entry => cx.aliasesOf entry.2.members).count a
  have : Std.Symm Twice := ⟨fun _ _ hxy a hy hx => hxy a hx hy⟩
  have hpairs : query.fields.Pairwise Twice := pairwise_two_le_count _ query.fields
  have htwice := hpairs.forall (Node.mem_fields_of_field? h) (Node.mem_fields_of_field? h')
    (fun heq => hne (congrArg Prod.fst heq)) a ha ha'
  rw [MatchContext.UsedTwice, cx.aliases_eq, cx.aliasesOf_offspring, List.count_append]
  omega

/-- An alias in two elements of a list is used twice. -/
theorem pairwise_usedTwice {name : String} {nodes : List Node}
    (h : query.field? name = some (.nodes nodes)) : nodes.Pairwise fun m n =>
      ∀ a ∈ cx.aliases m, a ∈ cx.aliases n → cx.UsedTwice query a :=
  (pairwise_two_le_count cx.aliases nodes).imp fun hmn a ha hmem =>
    (hmn a ha hmem).trans (count_aliasesOf_le h a)

end UsedTwice

/-! ## The places of a list in the first match -/

section Places

variable {cx : MatchContext} {file query : List Node} {b : Bindings}

/-- The place of the element of the file's list that an element of the query's is matched with. -/
def MatchContext.placeIn (cx : MatchContext) (file query : List Node) (b : Bindings) (i : Nat) :
    Nat :=
  if cx.config.mode = .exact then i
  else
    ((claimAll (validate cx) (choosingOrder cx query) (placed file) b).places.bind
      (·.lookup i)).getD i

/-- Lists that match where all of the code or the order counts: the elements of the query's are
matched with elements of the file's in the same order. -/
theorem exists_place_of_order (hmode : cx.config.mode ≠ .contained)
    (h : (validateList cx (validate cx) file query b).agrees = true) :
    (cx.comparable query).length ≤ (cx.comparable file).length ∧
      ∃ place : Fin (cx.comparable query).length → Fin (cx.comparable file).length,
        StrictMono place ∧ ∀ i : Fin (cx.comparable query).length,
          cx.placeIn (cx.comparable file) (cx.comparable query) b i = place i ∧
          ∃ c, ListLeads cx file query b ((cx.comparable file).get (place i))
            ((cx.comparable query).get i) c := by
  cases hcase : cx.config.mode with
  | contained => exact absurd hcase hmode
  | exact =>
      obtain ⟨place, hplace, hleads⟩ := exists_listLeads h
      rw [hcase] at hplace
      obtain ⟨hlength, hidentity⟩ := hplace
      refine ⟨Nat.le_of_eq hlength, place, fun i j hij => ?_, fun i => ⟨?_, hleads i⟩⟩
      · rw [Fin.lt_def, hidentity i, hidentity j]
        exact hij
      · rw [MatchContext.placeIn, if_pos hcase, hidentity i]
  | ordered =>
      have hne : cx.config.mode ≠ .exact := by simp [hcase]
      rw [validateList_eq, validateComparable_eq, if_neg hne] at h
      by_cases hlength : (cx.comparable file).length < (cx.comparable query).length
      · simp [hlength, Validation.reject] at h
      · rw [if_neg hlength] at h
        dsimp only at h
        cases hplaces : (claimAll (validate cx) (choosingOrder cx (cx.comparable query))
            (placed (cx.comparable file)) b).places with
        | none => simp [hplaces] at h
        | some places =>
            obtain ⟨place, -, hmono, hlookup, hclaimed⟩ := exists_place_of_claimAll hplaces
            have hincreasing : increasing (claimedPlaces places) = true := by
              simpa [hplaces, hcase] using h
            refine ⟨by omega, place, hmono hincreasing, fun i => ⟨?_, ?_⟩⟩
            · rw [MatchContext.placeIn, if_neg hne, hplaces, Option.bind_some, hlookup i]
              rfl
            · obtain ⟨c, hclaim⟩ := hclaimed i
              exact ⟨c, ListLeads.claim hne hclaim⟩

/-- **Lists match again** where neither further code nor the order counts, if the elements that were
matched do and the elements of the query are undisplaced. -/
theorem repeatable_validateList {env : Bindings} {shared : Alias → Prop}
    (hbefore : cx.grammar.rulesBefore = []) (hafter : cx.grammar.rulesAfter = [])
    (hmode : cx.config.mode ≠ .contained)
    (h : (validateList cx (validate cx) file query b).agrees = true)
    (hleads : ∀ f q c, ListLeads cx file query b f q c →
      Repeatable cx env shared (cx.aliases q) (validate (cx.withMode .contained) f q))
    (hnames : ∀ f ∈ file, ∃ core, cx.kinds.NameOf f core)
    (hundisplaced : cx.Undisplaced env shared (cx.comparable file) (cx.comparable query)
      (cx.placeIn (cx.comparable file) (cx.comparable query) b))
    (hapart : query.Pairwise fun m n => ∀ a ∈ cx.aliases m, a ∈ cx.aliases n → shared a) :
    Repeatable cx env shared (cx.aliasesOf query)
      (validateList (cx.withMode .contained) (validate (cx.withMode .contained)) file query) := by
  obtain ⟨hlength, place, hmono, hplace⟩ := exists_place_of_order hmode h
  have hrepeat : Repeatable cx env shared (cx.aliasesOf (cx.comparable query))
      (validateComparable (cx.withMode .contained) (validate (cx.withMode .contained))
        (cx.comparable file) (cx.comparable query)) := by
    refine repeatable_validateComparable hbefore hafter hlength ?_ ?_
      (fun f hf => hnames f (List.mem_filter.1 hf).1) hundisplaced
      (hapart.sublist List.filter_sublist)
    · rintro ⟨i, q⟩ hq ⟨j, q'⟩ hq' hij
      obtain ⟨hi, -⟩ := List.getElem?_eq_some_iff.1 (mem_placed.1 hq)
      obtain ⟨hj, -⟩ := List.getElem?_eq_some_iff.1 (mem_placed.1 hq')
      rw [(hplace ⟨i, hi⟩).1, (hplace ⟨j, hj⟩).1]
      exact hmono hij
    · rintro ⟨i, q⟩ hq
      obtain ⟨hi, rfl⟩ := List.getElem?_eq_some_iff.1 (mem_placed.1 hq)
      obtain ⟨heq, c, hc⟩ := hplace ⟨i, hi⟩
      refine ⟨_, mem_placed.2 ?_, hleads _ _ c hc⟩
      rw [heq]
      exact List.getElem?_eq_getElem _
  refine hrepeat.mono fun a ha => ?_
  obtain ⟨q, hq, ha⟩ := List.mem_flatMap.1 ha
  exact List.mem_flatMap.2 ⟨q, (List.mem_filter.1 hq).1, ha⟩

end Places

/-! ## Attempts that succeed again -/

section Attempts

variable {cx : MatchContext} {root : Node} {env : Bindings} {shared : Alias → Prop}

/-- The elements of the query are **undisplaced** in all lists that an attempt reaches. -/
def Attempt.Undisplaced (cx : MatchContext) (env : Bindings) (shared : Alias → Prop)
    (a : Attempt) : Prop :=
  ∀ pair b file query, a.Reaches cx pair b → a.file.resolve pair.1 = some (.nodes file) →
    a.query.resolve pair.2 = some (.nodes query) →
      cx.Undisplaced env shared (cx.comparable file) (cx.comparable query)
        (cx.placeIn (cx.comparable file) (cx.comparable query) b)

/-- The fields that an attempt leaves to agree do so again if the attempts that it leads to do. -/
theorem Attempt.repeatable_path (h : Rematch cx root env) (hmode : cx.config.mode ≠ .contained)
    {a : Attempt} (ha : (a.outcome cx).agrees = true) (hfile : a.file ∈ root.walk)
    (hshared : ∀ k, cx.UsedTwice a.query k → shared k) (hundisplaced : a.Undisplaced cx env shared)
    (hleads : ∀ a', a.Leads cx a' → Repeatable cx env shared (cx.aliases a'.query)
      (validate (cx.withMode .contained) a'.file a'.query))
    {path : FieldPath} {name : String} (hpair : (path, [name]) ∈ a.pairs cx) :
    Repeatable cx env shared (cx.aliasesAt a.query [name])
      (validatePath (cx.withMode .contained) (validate (cx.withMode .contained)) a.file a.query path
        [name]) := by
  have hgrammar := Grammar.bindsTexts_of_noRules h.before h.after
  obtain ⟨-, -, houtcome⟩ := Attempt.outcome_eq ha
  rw [houtcome] at ha
  obtain ⟨b, hreached⟩ := exists_reached (r := fun pair : FieldPath × FieldPath =>
    validatePath cx (validate cx) a.file a.query pair.1 pair.2) hpair (a.compared cx)
  obtain ⟨hagrees, -, -⟩ :=
    hreached.between (fun pair _ b => Attempt.pair_extends hgrammar a pair b) ha
  unfold validatePath at hagrees
  split at hagrees
  next f q hf hq =>
    have haliases : cx.aliasesAt a.query [name] = cx.aliases q := by
      rw [MatchContext.aliasesAt, hq]
      exact List.append_nil _
    have hpath : validatePath (cx.withMode .contained) (validate (cx.withMode .contained)) a.file
        a.query path [name] = validate (cx.withMode .contained) f q := by
      funext c
      rw [validatePath, hf, hq]
    rw [haliases, hpath]
    exact hleads ⟨f, q, b⟩ (Attempt.Leads.mk hreached hf hq (FieldLeads.node f q b))
  next fs qs hfs hqs =>
    have haliases : cx.aliasesAt a.query [name] = cx.aliasesOf qs := by
      rw [MatchContext.aliasesAt, hqs]
      rfl
    have hpath : validatePath (cx.withMode .contained) (validate (cx.withMode .contained)) a.file
        a.query path [name] =
          validateList (cx.withMode .contained) (validate (cx.withMode .contained)) fs qs := by
      funext c
      rw [validatePath, hfs, hqs]
    rw [haliases, hpath]
    refine repeatable_validateList h.before h.after hmode hagrees (fun f q c hc => ?_)
      (fun f hf => ?_) (hundisplaced _ b fs qs hreached hfs hqs) ?_
    · exact hleads ⟨f, q, c⟩ (Attempt.Leads.mk hreached hfs hqs (FieldLeads.nodes hc))
    · exact NodeKinds.exists_nameOf h.holds
        (Node.mem_walk_trans (Node.mem_walk_of_resolve hfs hf) hfile)
    · exact (pairwise_usedTwice hqs).imp fun hmn k hk hmem => hshared k (hmn k hk hmem)
  next => simp [Validation.reject] at hagrees

/-- The pairs of fields left to agree are those of different fields of the query, so that an alias
in two of them is used twice. -/
theorem Attempt.pairs_apart (hbefore : cx.grammar.rulesBefore = [])
    (hafter : cx.grammar.rulesAfter = []) {a : Attempt} (ha : (a.outcome cx).agrees = true)
    (hquery : (a.query.fields.map Prod.fst).Nodup) :
    (∀ pair ∈ a.pairs cx, ∃ name, pair.2 = [name]) ∧
      (a.pairs cx).Pairwise fun x y => ∀ k ∈ cx.aliasesAt a.query x.2,
        k ∈ cx.aliasesAt a.query y.2 → cx.UsedTwice a.query k := by
  obtain ⟨⟨names, hnames, hsnd⟩, -⟩ := a.pairs_keys hbefore hafter ha hquery
  refine ⟨fun pair hpair => ?_, ?_⟩
  · have hmem : pair.2 ∈ names.map ([·]) := hsnd ▸ List.mem_map_of_mem hpair
    obtain ⟨name, -, heq⟩ := List.mem_map.1 hmem
    exact ⟨name, heq.symm⟩
  · rw [← List.pairwise_map (f := Prod.snd) (R := fun x y : FieldPath =>
      ∀ k ∈ cx.aliasesAt a.query x, k ∈ cx.aliasesAt a.query y → cx.UsedTwice a.query k), hsnd,
      List.pairwise_map]
    exact hnames.imp fun hne k hx hy => usedTwice_of_fields hne hx hy

/-- An attempt that succeeds does so again if those that it leads to do: the comparison does, and
then the fields left to agree do in turn. -/
theorem Attempt.repeatable_of_leads (h : Rematch cx root env) (hmode : cx.config.mode ≠ .contained)
    {a : Attempt} (ha : (a.outcome cx).agrees = true) (henv : (a.outcome cx).bindings.Keeps env)
    (hfile : a.file ∈ root.walk) (hquery : (a.query.fields.map Prod.fst).Nodup)
    (hkeys : cx.config.mode = .exact → a.query.keys.Nodup)
    (hshared : ∀ k, cx.UsedTwice a.query k → shared k) (hundisplaced : a.Undisplaced cx env shared)
    (hleads : ∀ a', a.Leads cx a' → Repeatable cx env shared (cx.aliases a'.query)
      (validate (cx.withMode .contained) a'.file a'.query)) :
    Repeatable cx env shared (cx.aliases a.query)
      (validate (cx.withMode .contained) a.file a.query) := by
  refine ⟨validate_contained_local h.before h.after a.file a.query, fun b hb => ?_⟩
  have hgrammar := Grammar.bindsTexts_of_noRules h.before h.after
  obtain ⟨hagrees, hlength, -⟩ := Attempt.outcome_eq ha
  obtain ⟨hnames, hapart⟩ := Attempt.pairs_apart h.before h.after ha hquery
  obtain ⟨found, c, hcompare, hfound, hqueryKeys, hfileKeys, hcompatible⟩ :=
    compare_contained h hkeys (compare_agrees hagrees) hfile
      ((Attempt.compared_extends hgrammar ha).keeps.trans henv)
      fun k hk => hb.compatible (cx.ownAliases_subset a.query hk)
  have hrun : validate (cx.withMode .contained) a.file a.query b =
      Validation.inTurn ((a.pairs cx).map fun pair => validatePath (cx.withMode .contained)
        (validate (cx.withMode .contained)) a.file a.query pair.1 pair.2) c := by
    rw [validate_of_compare hcompare hfound (by rw [hqueryKeys, hfileKeys]; exact hlength),
      hqueryKeys, hfileKeys]
    rfl
  have hpaths : ∀ pair ∈ a.pairs cx, Repeatable cx env shared (cx.aliasesAt a.query pair.2)
      (validatePath (cx.withMode .contained) (validate (cx.withMode .contained)) a.file a.query
        pair.1 pair.2) := by
    rintro ⟨path, key⟩ hpair
    obtain ⟨name, rfl : key = [name]⟩ := hnames _ hpair
    exact Attempt.repeatable_path h hmode ha hfile hshared hundisplaced hleads hpair
  have hturn := Repeatable.inTurn hpaths
    (hapart.imp fun htwice k hx hy => hshared k (htwice k hx hy))
  have hsubset : ((a.pairs cx).flatMap fun pair => cx.aliasesAt a.query pair.2) ⊆
      cx.aliases a.query := by
    intro k hk
    obtain ⟨pair, -, hk⟩ := List.mem_flatMap.1 hk
    exact cx.aliasesAt_subset a.query pair.2 hk
  -- the comparison has only shared aliases in common with the fields
  have hlocal : Local (cx.ownAliases a.query) (compare (cx.withMode .contained) a.file a.query) :=
    @compare_local (cx.withMode .contained) h.before h.after a.file a.query
  have hready := (hb.subset hsubset).after hlocal
    (by rw [hcompare]; exact fun k hk _ => hcompatible k hk) fun k hk hmem => by
      obtain ⟨pair, hpair, hmem⟩ := List.mem_flatMap.1 hmem
      obtain ⟨name, heq⟩ := hnames pair hpair
      exact hshared k (usedTwice_of_own hk (heq ▸ hmem))
  rw [hcompare] at hready
  obtain ⟨hagrees', hcompatible'⟩ := hturn.succeeds c hready
  rw [hrun]
  refine ⟨hagrees', fun k hk hsharedk => ?_⟩
  by_cases hmem : k ∈ (a.pairs cx).flatMap fun pair => cx.aliasesAt a.query pair.2
  · exact hcompatible' k hmem hsharedk
  · refine MatchContext.Compatible.congr ?_ (hturn.locality.frame c k hmem)
    by_cases hown : k ∈ cx.ownAliases a.query
    · exact hcompatible k hown
    · have hsame := hlocal.frame b k hown
      rw [hcompare] at hsame
      exact ((hb k hk).1 hsharedk).congr hsame

/-- **An attempt that succeeds does so again** where neither further code nor the order counts, if
the elements of the query are undisplaced wherever it leads to: by induction on the height of the
query. -/
theorem Attempt.repeatable (h : Rematch cx root env) (hmode : cx.config.mode ≠ .contained)
    {a : Attempt} (ha : (a.outcome cx).agrees = true) (henv : (a.outcome cx).bindings.Keeps env)
    (hfile : a.file ∈ root.walk) (hquery : a.query.NamesDistinct)
    (hkeys : cx.config.mode = .exact → ∀ n ∈ a.query.walk, n.keys.Nodup)
    (hshared : ∀ k, cx.UsedTwice a.query k → shared k)
    (hundisplaced : ∀ a', TakesPart cx a a' → a'.Undisplaced cx env shared) :
    Repeatable cx env shared (cx.aliases a.query)
      (validate (cx.withMode .contained) a.file a.query) := by
  have hgrammar := Grammar.bindsTexts_of_noRules h.before h.after
  obtain ⟨file, query, b⟩ := a
  induction query using Node.height_induction generalizing file b with
  | step query ih =>
      have hself := Node.mem_walk_self query
      refine Attempt.repeatable_of_leads h hmode ha henv hfile (hquery query hself)
        (fun hexact => hkeys hexact query hself) hshared
        (hundisplaced _ Relation.ReflTransGen.refl) fun a' hleads => ?_
      obtain ⟨hfile', hquery', hheight⟩ := hleads.mem
      obtain ⟨hsucceeds, -, hend⟩ := hleads.between hgrammar ha
      exact ih a'.query hheight a'.file a'.bindings hsucceeds (hend.keeps.trans henv)
        (Node.mem_walk_trans hfile' hfile) (hquery.of_mem_walk hquery')
        (fun hexact n hn => hkeys hexact n (Node.mem_walk_trans hn hquery'))
        (fun k hk => hshared k (usedTwice_of_mem_walk hquery' hk))
        fun a'' htakes => hundisplaced a'' (Relation.ReflTransGen.head hleads htakes)

end Attempts

/-! ## When elements are undisplaced -/

section Undisplaced

variable {cx : MatchContext} {env : Bindings} {shared : Alias → Prop}

/-- Where all of the code counts, elements that stand in the order in which they choose are
undisplaced. -/
theorem undisplaced_of_mayPrecede (hmode : cx.config.mode = .exact) {file query : List Node}
    (h : query.Pairwise fun m n => cx.mayPrecede m n = true) (b : Bindings) :
    cx.Undisplaced env shared file query (cx.placeIn file query b) := by
  have hplace : ∀ i, cx.placeIn file query b i = i := fun i => by
    rw [MatchContext.placeIn, if_pos hmode]
  rintro ⟨i, q⟩ hq ⟨j, f⟩ - hlt -
  rw [hplace] at hlt
  obtain ⟨hi, rfl⟩ := List.getElem?_eq_some_iff.1 (mem_placed.1 hq)
  -- the element in whose place it is chooses first
  have hj : j < query.length := hlt.trans hi
  refine Or.inl ⟨(j, query[j]), mem_placed.2 (List.getElem?_eq_getElem hj), hplace j, ?_⟩
  exact List.pairwise_iff_getElem.1 h j i hj hi hlt

/-- What is claimed for a query without aliases does not depend on the bindings. -/
theorem placeIn_of_noAliases (hbefore : cx.grammar.rulesBefore = [])
    (hafter : cx.grammar.rulesAfter = []) {file query : List Node}
    (hnone : cx.aliasesOf query = []) (b c : Bindings) :
    cx.placeIn file query b = cx.placeIn file query c := by
  have hlocal : Local [] fun b =>
      ((claimAll (validate cx) (choosingOrder cx query) (placed file) b).places,
        (claimAll (validate cx) (choosingOrder cx query) (placed file) b).bindings) := by
    refine claimAll_local fun q hq f _ => ?_
    rw [← hnone]
    exact (validate_local hbefore hafter f.2 q.2).mono fun a ha =>
      List.mem_flatMap.2 ⟨q.2, mem_of_mem_choosingOrder hq, ha⟩
  have hsame : (claimAll (validate cx) (choosingOrder cx query) (placed file) b).places =
      (claimAll (validate cx) (choosingOrder cx query) (placed file) c).places :=
    (hlocal.same b c (by simp [Bindings.SameOn])).1
  funext i
  rw [MatchContext.placeIn, MatchContext.placeIn, hsame]

/-- Elements are undisplaced as far as matching from no bindings tells, which can be computed. -/
def MatchContext.UndisplacedAtFirst (cx : MatchContext) (file query : List Node) : Prop :=
  ∀ q ∈ placed query, ∀ f ∈ placed file, f.1 < cx.placeIn file query .empty q.1 →
    (validate (cx.withMode .contained) f.2 q.2 .empty).agrees = true →
      (∃ q' ∈ placed query, cx.placeIn file query .empty q'.1 = f.1 ∧
          cx.mayPrecede q'.2 q.2 = true) ∨
        ∀ q' ∈ placed query, cx.placeIn file query .empty q'.1 = f.1 → cx.IsTreeWildcard q'.2

instance (file query : List Node) : Decidable (cx.UndisplacedAtFirst file query) :=
  inferInstanceAs (Decidable (∀ q ∈ placed query, ∀ f ∈ placed file,
    f.1 < cx.placeIn file query .empty q.1 →
      (validate (cx.withMode .contained) f.2 q.2 .empty).agrees = true →
        (∃ q' ∈ placed query, cx.placeIn file query .empty q'.1 = f.1 ∧
            cx.mayPrecede q'.2 q.2 = true) ∨
          ∀ q' ∈ placed query, cx.placeIn file query .empty q'.1 = f.1 → cx.IsTreeWildcard q'.2))

/-- Without aliases that tells all. -/
theorem MatchContext.UndisplacedAtFirst.undisplaced (hbefore : cx.grammar.rulesBefore = [])
    (hafter : cx.grammar.rulesAfter = []) {file query : List Node}
    (hnone : cx.aliasesOf query = []) (h : cx.UndisplacedAtFirst file query) (b : Bindings) :
    cx.Undisplaced env shared file query (cx.placeIn file query b) := by
  rw [placeIn_of_noAliases hbefore hafter hnone b .empty]
  rintro q hq f hf hlt ⟨c, -, hclaims⟩
  have hlocal : Local [] fun b => (validate (cx.withMode .contained) f.2 q.2 b).result := by
    rw [← hnone]
    exact (validate_contained_local hbefore hafter f.2 q.2).mono fun a ha =>
      List.mem_flatMap.2 ⟨q.2, List.mem_of_getElem? (mem_placed.1 hq), ha⟩
  have hagrees : (validate (cx.withMode .contained) f.2 q.2 c).agrees =
      (validate (cx.withMode .contained) f.2 q.2 .empty).agrees :=
    (hlocal.same c .empty (by simp [Bindings.SameOn])).1
  refine (h q hq f hf hlt (hagrees ▸ hclaims)).imp_right fun hwildcards => ⟨?_, hwildcards⟩
  simp [hnone]

/-- The lists of nodes in a tree. -/
def Node.lists (n : Node) : List (List Node) :=
  n.walk.flatMap fun m => m.fields.filterMap fun entry =>
    match entry.2 with
    | .nodes nodes => some nodes
    | _ => none

theorem Node.mem_lists_of_resolve {n : Node} {path : FieldPath} {nodes : List Node}
    (h : n.resolve path = some (.nodes nodes)) : nodes ∈ n.lists := by
  obtain ⟨m, hm, name, hfield⟩ := Node.exists_field?_of_resolve h
  exact List.mem_flatMap.2 ⟨m, hm, List.mem_filterMap.2 ⟨(name, .nodes nodes),
    Node.mem_fields_of_field? hfield, rfl⟩⟩

theorem Node.lists_subset {m n : Node} (h : m ∈ n.walk) : m.lists ⊆ n.lists := by
  intro nodes hnodes
  obtain ⟨d, hd, hnodes⟩ := List.mem_flatMap.1 hnodes
  exact List.mem_flatMap.2 ⟨d, Node.mem_walk_trans hd h, hnodes⟩

theorem Node.mem_walk_of_mem_lists {n q : Node} {nodes : List Node} (h : nodes ∈ n.lists)
    (hq : q ∈ nodes) : q ∈ n.walk := by
  obtain ⟨m, hm, hnodes⟩ := List.mem_flatMap.1 h
  obtain ⟨⟨name, field⟩, hfield, heq⟩ := List.mem_filterMap.1 hnodes
  cases field with
  | node _ => simp at heq
  | token _ => simp at heq
  | nodes children =>
      obtain rfl := Option.some.inj heq
      have hoffspring : q ∈ m.offspring := List.mem_flatMap.2 ⟨(name, .nodes children), hfield, hq⟩
      exact Node.mem_walk_trans
        (Node.mem_walk_of_mem_offspring hoffspring (Node.mem_walk_self q)) hm

/-- The elements of a query without aliases are undisplaced wherever an attempt leads to if they
are in all lists, as far as matching from no bindings tells. -/
theorem Attempt.undisplaced_of_noAliases (hbefore : cx.grammar.rulesBefore = [])
    (hafter : cx.grammar.rulesAfter = []) {a : Attempt} (ha : (a.outcome cx).agrees = true)
    (hnone : cx.aliases a.query = [])
    (h : ∀ file ∈ a.file.lists, ∀ query ∈ a.query.lists,
      cx.UndisplacedAtFirst (cx.comparable file) (cx.comparable query))
    (a' : Attempt) (ha' : TakesPart cx a a') : a'.Undisplaced cx env shared := by
  intro pair b file query _ hfile hquery
  obtain ⟨-, hfilewalk, hquerywalk, -, -⟩ :=
    ha'.between (Grammar.bindsTexts_of_noRules hbefore hafter) ha
  have hlist := Node.lists_subset hquerywalk (Node.mem_lists_of_resolve hquery)
  refine (h file (Node.lists_subset hfilewalk (Node.mem_lists_of_resolve hfile)) query
    hlist).undisplaced hbefore hafter (List.eq_nil_iff_forall_not_mem.2 fun k hk => ?_) b
  obtain ⟨q, hq, hk⟩ := List.mem_flatMap.1 hk
  have hmem := cx.aliases_subset
    (Node.mem_walk_of_mem_lists hlist (List.mem_filter.1 hq).1) hk
  simp [hnone] at hmem

end Undisplaced

/-! ## What is found in a tree -/

section Search

variable {cx : MatchContext} {root query : Node} {found : Found}

/-- What is found is found again in its place where neither further code nor the order counts. -/
theorem exists_found_contained (hbefore : cx.grammar.rulesBefore = [])
    (hafter : cx.grammar.rulesAfter = []) (hmode : cx.config.mode ≠ .contained)
    (hroot : root.NamesDistinct) (hquery : query.NamesDistinct)
    (hkeys : cx.config.mode = .exact → ∀ n ∈ query.walk, n.keys.Nodup)
    (hdefaults : cx.config.mode = .exact → cx.kinds.DefaultsApart)
    (hholds : cx.kinds.HoldsNames root) (hfound : found ∈ (traverse cx root query).found)
    (hundisplaced : ∀ a, Attempt.TakesPart cx ⟨found.node, query, .empty⟩ a →
      a.Undisplaced cx found.bindings (cx.UsedTwice query)) :
    ∃ found' ∈ (traverse (cx.withMode .contained) root query).found,
      found'.node = found.node ∧ found'.place = found.place := by
  have hgrammar := Grammar.bindsTexts_of_noRules hbefore hafter
  rw [found_traverse] at hfound
  obtain ⟨⟨place, n⟩, hvisit, hfound⟩ := List.mem_filterMap.1 hfound
  obtain ⟨hagrees, rfl⟩ := foundAt_eq_some.1 hfound
  have hn := Node.mem_walk_of_visit hvisit
  have hrematch : Rematch cx root (Attempt.outcome cx ⟨n, query, .empty⟩).bindings :=
    { before := hbefore
      after := hafter
      defaults := hdefaults
      names := hroot
      holds := hholds
      trees := ((validate_extends hgrammar n query .empty).mono fun m hm =>
        Node.mem_walk_trans hm hn).treesAmong (Bindings.empty_treesAmong _) }
  have hrepeat := Attempt.repeatable hrematch hmode hagrees (Bindings.Keeps.refl _) hn hquery hkeys
    (fun k hk => hk) hundisplaced
  obtain ⟨hagain, -⟩ := hrepeat.succeeds .empty fun a _ =>
    ⟨fun _ => MatchContext.compatible_of_unbound (Bindings.unbound_empty a),
      fun _ => Bindings.unbound_empty a⟩
  refine ⟨⟨n, place, (Attempt.outcome (cx.withMode .contained) ⟨n, query, .empty⟩).bindings⟩, ?_,
    rfl, rfl⟩
  rw [found_traverse]
  exact List.mem_filterMap.2 ⟨(place, n), hvisit, foundAt_eq_some.2 ⟨hagain, rfl⟩⟩

/-- **What is found exactly is found with further code**, without rules of the grammar: a node that
is found where all of the code counts is found where neither further code nor the order counts, if
no element of the query is displaced there. Names with default values must have their names and be
nothing else, and no node of the query may have a field under the key of its text. -/
theorem found_contained_of_exact (hbefore : cx.grammar.rulesBefore = [])
    (hafter : cx.grammar.rulesAfter = []) (hmode : cx.config.mode = .exact)
    (hroot : root.NamesDistinct) (hkeys : ∀ n ∈ query.walk, n.keys.Nodup)
    (hdefaults : cx.kinds.DefaultsApart) (hholds : cx.kinds.HoldsNames root)
    (hfound : found ∈ (traverse cx root query).found)
    (hundisplaced : ∀ a, Attempt.TakesPart cx ⟨found.node, query, .empty⟩ a →
      a.Undisplaced cx found.bindings (cx.UsedTwice query)) :
    ∃ found' ∈ (traverse (cx.withMode .contained) root query).found,
      found'.node = found.node ∧ found'.place = found.place :=
  exists_found_contained hbefore hafter (by simp [hmode]) hroot
    (fun n hn => (List.nodup_append.1 (hkeys n hn)).1) (fun _ => hkeys) (fun _ => hdefaults) hholds
    hfound hundisplaced

/-- The search for calls in a mode. -/
def callSearch (mode : Mode) : MatchContext := ⟨callGrammar, { mode }, ""⟩

/-- Of a wildcard for subtrees and a name, the name chooses first and takes the place of the
wildcard, which goes on with the place of the name. -/
theorem found_contained_of_exact_movedWildcard :
    ∃ found ∈ (traverse (callSearch .exact) (callOn ["y", "y"]) (callOn ["$$$", "y"])).found,
      ∃ found' ∈ (traverse ((callSearch .exact).withMode .contained)
          (callOn ["y", "y"]) (callOn ["$$$", "y"])).found,
        found'.node = found.node ∧ found'.place = found.place := by
  have ha : (Attempt.outcome (callSearch .exact)
      ⟨callOn ["y", "y"], callOn ["$$$", "y"], .empty⟩).agrees = true := by
    decide +kernel
  obtain ⟨found, hfound, hnode⟩ := exists_found_of_agrees ha
  refine ⟨found, hfound, found_contained_of_exact rfl rfl rfl (by decide) (by decide) (by decide)
    (by decide) hfound ?_⟩
  rw [hnode]
  exact Attempt.undisplaced_of_noAliases rfl rfl ha (by decide +kernel) (by decide +kernel)

/-- Of two names with wildcards, the second has more literal text and chooses first: it takes the
first argument, which is the only one that the first matches. -/
theorem contained_misses_exact :
    ¬ ∀ (cx : MatchContext) (root query : Node), cx.grammar.rulesBefore = [] →
      cx.grammar.rulesAfter = [] → cx.config.mode = .exact → cx.kinds.defaultValues = [] →
      root.NamesDistinct → (∀ n ∈ query.walk, n.keys.Nodup) →
      ∀ found ∈ (traverse cx root query).found,
        ∃ found' ∈ (traverse (cx.withMode .contained) root query).found,
          found'.place = found.place := by
  intro h
  have ha : (Attempt.outcome (callSearch .exact)
      ⟨callOn ["yyx", "yyz"], callOn ["$$x", "yy$$"], .empty⟩).agrees = true := by
    decide +kernel
  obtain ⟨found, hfound, -⟩ := exists_found_of_agrees ha
  obtain ⟨found', hfound', -⟩ := h _ _ _ rfl rfl rfl rfl (by decide) (by decide) found
    hfound
  have hnone : (traverse ((callSearch .exact).withMode .contained)
      (callOn ["yyx", "yyz"]) (callOn ["$$x", "yy$$"])).found.length = 0 := by
    decide +kernel
  rw [List.length_eq_zero_iff.1 hnone] at hfound'
  simp at hfound'

/-- Nothing is lost of a query whose lists stand in the order in which their elements choose, as
those without wildcards for names do. -/
theorem found_contained_of_mayPrecede (hbefore : cx.grammar.rulesBefore = [])
    (hafter : cx.grammar.rulesAfter = []) (hmode : cx.config.mode = .exact)
    (hroot : root.NamesDistinct) (hkeys : ∀ n ∈ query.walk, n.keys.Nodup)
    (hdefaults : cx.kinds.DefaultsApart) (hholds : cx.kinds.HoldsNames root)
    (hlists : ∀ list ∈ query.lists,
      (cx.comparable list).Pairwise fun m n => cx.mayPrecede m n = true)
    (hfound : found ∈ (traverse cx root query).found) :
    ∃ found' ∈ (traverse (cx.withMode .contained) root query).found,
      found'.node = found.node ∧ found'.place = found.place := by
  have hgrammar := Grammar.bindsTexts_of_noRules hbefore hafter
  refine exists_found_contained hbefore hafter (by simp [hmode]) hroot
    (fun n hn => (List.nodup_append.1 (hkeys n hn)).1) (fun _ => hkeys) (fun _ => hdefaults) hholds
    hfound fun a ha pair b _ list _ _ hlist => ?_
  obtain ⟨-, -, hquery, -, -⟩ := ha.between hgrammar (isMatch_of_traverse hfound).2.1
  exact undisplaced_of_mayPrecede hmode
    (hlists list (Node.lists_subset hquery (Node.mem_lists_of_resolve hlist))) b

/-- **What is found in order is found in any order**, without rules of the grammar: a node that is
found where the order counts is found where it does not, if no element of the query is displaced
there. Names with default values must have their names. -/
theorem found_contained_of_ordered (hbefore : cx.grammar.rulesBefore = [])
    (hafter : cx.grammar.rulesAfter = []) (hmode : cx.config.mode = .ordered)
    (hroot : root.NamesDistinct) (hquery : query.NamesDistinct) (hholds : cx.kinds.HoldsNames root)
    (hfound : found ∈ (traverse cx root query).found)
    (hundisplaced : ∀ a, Attempt.TakesPart cx ⟨found.node, query, .empty⟩ a →
      a.Undisplaced cx found.bindings (cx.UsedTwice query)) :
    ∃ found' ∈ (traverse (cx.withMode .contained) root query).found,
      found'.node = found.node ∧ found'.place = found.place :=
  exists_found_contained hbefore hafter (by simp [hmode]) hroot hquery (by simp [hmode])
    (by simp [hmode]) hholds hfound hundisplaced

/-- The first call, with its arguments swapped, is taken in the place of the second where the order
does not count. -/
theorem found_contained_of_ordered_swappedArguments :
    ∃ found ∈ (traverse (callSearch .ordered)
        (bodyOf [callOn ["b", "a"], callOn ["a", "b"]]) (bodyOf [callOn ["a", "b"]])).found,
      ∃ found' ∈ (traverse ((callSearch .ordered).withMode .contained)
          (bodyOf [callOn ["b", "a"], callOn ["a", "b"]]) (bodyOf [callOn ["a", "b"]])).found,
        found'.node = found.node ∧ found'.place = found.place := by
  have ha : (Attempt.outcome (callSearch .ordered) ⟨bodyOf [callOn ["b", "a"], callOn ["a", "b"]],
      bodyOf [callOn ["a", "b"]], .empty⟩).agrees = true := by
    decide +kernel
  obtain ⟨found, hfound, hnode⟩ := exists_found_of_agrees ha
  refine ⟨found, hfound, found_contained_of_ordered rfl rfl rfl (by decide) (by decide) (by decide)
    hfound ?_⟩
  rw [hnode]
  exact Attempt.undisplaced_of_noAliases rfl rfl ha (by decide +kernel) (by decide +kernel)

/-- The first call of `f` has its arguments swapped and is claimed where the order does not count;
but the argument that this binds is none of the call of `h`. -/
theorem contained_misses_ordered :
    ¬ ∀ (cx : MatchContext) (root query : Node), cx.grammar.rulesBefore = [] →
      cx.grammar.rulesAfter = [] → cx.config.mode = .ordered → cx.kinds.defaultValues = [] →
      root.NamesDistinct → query.NamesDistinct →
      ∀ found ∈ (traverse cx root query).found,
        ∃ found' ∈ (traverse (cx.withMode .contained) root query).found,
          found'.place = found.place := by
  intro h
  let root := bodyOf [callOn ["f", "b", "a", "y"], callOn ["f", "a", "b", "z"], callOn ["h", "z"]]
  let query := bodyOf [callOn ["f", "a", "b", "$$_x"], callOn ["h", "$$_x"]]
  have ha : (Attempt.outcome (callSearch .ordered) ⟨root, query, .empty⟩).agrees = true := by
    decide +kernel
  obtain ⟨found, hfound, -⟩ := exists_found_of_agrees ha
  obtain ⟨found', hfound', -⟩ := h _ root query rfl rfl rfl rfl (by decide) (by decide) found
    hfound
  have hnone :
      (traverse ((callSearch .ordered).withMode .contained) root query).found.length = 0 := by
    decide +kernel
  rw [List.length_eq_zero_iff.1 hnone] at hfound'
  simp at hfound'

end Search

end CodeSearch
