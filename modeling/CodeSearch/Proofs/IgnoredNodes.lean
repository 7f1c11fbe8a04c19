import CodeSearch.Proofs.DefaultValues
import CodeSearch.Proofs.ModeInclusion
import CodeSearch.Proofs.Pruning
import CodeSearch.Proofs.SideBySide

/-!
# Ignored nodes do not matter

Two trees match alike if they are the same but for ignored nodes, wherever these stand. There are
two limits. A field that holds nothing but ignored nodes is still a field, and only where further
code is ignored may it as well be missing, if it is optional. And an alias for subtrees compares
them as they are, ignored nodes included. So if it is used twice, then the ignored nodes must not
be what makes two subtrees equal or not.
-/

set_option autoImplicit false

namespace CodeSearch

/-! ## Queries that ask alike -/

/-- Two queries are the same but for ignored nodes, and an alias that is used twice in what they ask
for is shared. If fields of the file may be lacking, then further code is ignored, and the queries
do not ask for lists without a node that is compared. -/
structure AskedAlike (cx : MatchContext) (lacking : Bool) (shared : Alias → Prop)
    (query query' : Node) : Prop where
  same : SameButIgnored cx false query query'
  distinct : query.NamesDistinct
  extra : lacking = true → cx.config.mode.allowsExtra = true
  lists : lacking = true → ∀ nodes ∈ (cx.pruned false query).lists, nodes ≠ []
  twice : ∀ a, cx.UsedTwice (cx.pruned false query) a → shared a

section

variable {cx : MatchContext} {lacking : Bool} {shared : Alias → Prop} {query query' : Node}

namespace AskedAlike

/-- A child of a query under a name, and the one it is paired with, ask alike. -/
theorem of_child (h : AskedAlike cx lacking shared query query') {name : String} {field : Field}
    {c c' : Node} (hfield : query.field? name = some field) (hc : c ∈ field.members)
    (hmem : cx.pruned false c ∈ (cx.prunedField false field).members)
    (hpruned : cx.pruned false c = cx.pruned false c') : AskedAlike cx lacking shared c c' := by
  have hasked : (cx.pruned false query).field? name = some (cx.prunedField false field) := by
    rw [MatchContext.field?_pruned_false, hfield]
    rfl
  have hoffspring : cx.pruned false c ∈ (cx.pruned false query).offspring :=
    Node.mem_offspring_of_field? hasked hmem
  have hwalk : cx.pruned false c ∈ (cx.pruned false query).walk :=
    Node.mem_walk_of_mem_offspring hoffspring (Node.mem_walk_self _)
  exact
    { same := ⟨hpruned, by simp, by simp⟩
      distinct := h.distinct.of_mem_offspring (Node.mem_offspring_of_field? hfield hc)
      extra := h.extra
      lists := fun hl nodes hnodes => h.lists hl nodes (Node.lists_subset hwalk hnodes)
      twice := fun a ha => h.twice a (usedTwice_of_mem_walk hwalk ha) }

end AskedAlike

end

/-! ## Comparing -/

section

variable {cx : MatchContext} {lacking : Bool} {shared : Alias → Prop} {f f' q q' : Node}

/-- Where all keys of a query are kept in a node, ignored nodes do not count among its keys. -/
theorem countedKeys_pruned (hextra : lacking = true → cx.config.mode.allowsExtra = true)
    (hdistinct : lacking = true → (f.fields.map Prod.fst).Nodup)
    (hkept : ∀ key ∈ q.keys, key ≠ textKey → (cx.keptField? lacking f key).isSome = true) :
    countedKeys cx f q = countedKeys cx (cx.pruned lacking f) q := by
  cases lacking with
  | false => rw [countedKeys, countedKeys, MatchContext.kind_pruned, cx.keys_pruned]
  | true =>
      have hkeys : (cx.pruned true f).keys =
          (f.fields.filter fun entry => cx.keeps true f entry.1 entry.2).map Prod.fst ++
            if f.text.isSome then [textKey] else [] := by
        rw [Node.keys, cx.fields_pruned, MatchContext.text_pruned, List.map_map]
        rfl
      have hall : f.keys = f.fields.map Prod.fst ++ if f.text.isSome then [textKey] else [] := rfl
      rw [countedKeys, countedKeys, if_pos (hextra rfl), if_pos (hextra rfl),
        MatchContext.kind_pruned, hkeys, hall, List.filter_append, List.filter_append]
      refine congrArg (· ++ _) ?_
      rw [List.filter_map, List.filter_map, List.filter_filter]
      refine congrArg (List.map Prod.fst) (List.filter_congr fun entry hentry => ?_)
      -- a field that is left out is optional and not asked for
      cases hkeeps : cx.keeps true f entry.1 entry.2 with
      | true => simp
      | false =>
          have hfield : f.field? entry.1 = some entry.2 :=
            Node.field?_of_mem_fields (hdistinct rfl) hentry
          have hlacks : cx.mayLack f.kind entry.1 entry.2 = true := by
            simpa [MatchContext.keeps] using hkeeps
          simp only [MatchContext.mayLack, Bool.and_eq_true, bne_iff_ne] at hlacks
          have hnot : entry.1 ∉ q.keys := fun hmem => by
            have hsome := hkept _ hmem hlacks.1.2
            simp [MatchContext.keptField?, hfield, hkeeps, Option.filter] at hsome
          simp [hnot, hlacks.1.1]

variable (hf : SameButIgnored cx lacking f f') (hq : AskedAlike cx lacking shared q q')

include hf hq

/-- Under a key of the query that is kept, two nodes compare alike. -/
theorem compareKey_sides {keys : List String} {key : String}
    (hkept : key ≠ textKey → (cx.keptField? lacking f key).isSome = true) :
    compareKey cx f q keys key = compareKey cx f' q' keys key := by
  rw [compareKey, compareKey, hf.kind, hf.text, hq.same.kind, hq.same.text]
  split
  next => rfl
  next =>
    split
    next => rfl
    next hne =>
      have hfile := hf.keptField?_rel key
      have hquery := hq.same.field?_rel key
      have hsome := hkept hne
      cases hleft : cx.keptField? lacking f key with
      | none => simp [hleft] at hsome
      | some left =>
          cases hright : cx.keptField? lacking f' key with
          | none =>
              rw [hleft, hright] at hfile
              cases hfile
          | some right =>
              rw [hleft, hright] at hfile
              rw [MatchContext.keptField?_eq_some hleft, MatchContext.keptField?_eq_some hright]
              generalize q.field? key = asked at hquery ⊢
              generalize q'.field? key = asked' at hquery ⊢
              cases hfile with
              | some hfile =>
                  cases hquery with
                  | none => rfl
                  | some hquery => cases hfile <;> cases hquery <;> rfl

/-- Where all keys of the query are kept, two nodes compare alike key by key. -/
theorem compareFields_sides
    (hkept : ∀ key ∈ q.keys, key ≠ textKey → (cx.keptField? lacking f key).isSome = true) :
    ∃ agrees names, names.Nodup ∧ compareFields cx f q = .sameFields f agrees names ∧
      compareFields cx f' q' = .sameFields f' agrees names := by
  have hkeys : q'.keys = q.keys := hq.same.keys.symm
  have hkept' : ∀ key ∈ q.keys, key ≠ textKey → (cx.keptField? lacking f' key).isSome = true :=
    fun key hkey hne => hf.isSome_keptField? key ▸ hkept key hkey hne
  have hcounted : countedKeys cx f' q' = countedKeys cx f q := by
    rw [countedKeys_pruned (f := f) hq.extra (fun hl => hf.left hl f (Node.mem_walk_self f)) hkept,
      hf.pruned, countedKeys_pruned (f := f') hq.extra
        (fun hl => hf.right hl f' (Node.mem_walk_self f')) (by rwa [hkeys])]
    simp only [countedKeys, hkeys]
  have hsettled : (q.keys.map fun key =>
        (key, compareKey cx f' q' (countedKeys cx f q) key)) =
      q.keys.map fun key => (key, compareKey cx f q (countedKeys cx f q) key) :=
    List.map_congr_left fun key hkey =>
      congrArg (Prod.mk key) (compareKey_sides hf hq (hkept key hkey)).symm
  have hkinds : cx.kinds.sameKind q'.kind f'.kind = cx.kinds.sameKind q.kind f.kind := by
    rw [hq.same.kind, hf.kind]
  have hnodup : ∀ agrees names, compareFields cx f q = .sameFields f agrees names →
      names.Nodup := by
    intro agrees names heq
    obtain ⟨names', hsublist, hqueryKeys⟩ := compareFields_queryKeys cx f q
    rw [heq] at hqueryKeys
    rw [List.map_injective_iff.2 List.singleton_injective hqueryKeys]
    exact (hq.distinct q (Node.mem_walk_self q)).sublist hsublist
  have hsame : ∃ agrees names, compareFields cx f q = .sameFields f agrees names ∧
      compareFields cx f' q' = .sameFields f' agrees names := by
    rw [compareFields, compareFields]
    simp only [hkeys, hcounted, hkinds, hsettled]
    split
    next => exact ⟨false, [], rfl, rfl⟩
    next => exact ⟨_, _, rfl, rfl⟩
  obtain ⟨agrees, names, hleft, hright⟩ := hsame
  exact ⟨agrees, names, hnodup _ _ hleft, hleft, hright⟩

end

/-! ## Matching -/

/-- An alias may be met again: one of texts, and one of subtrees if counterparts are equal alike. -/
def MayRecur (cx : MatchContext) (root root' : Node) : Alias → Prop
  | .text _ => True
  | .tree _ => EqualAlike cx root root'

/-- What an alias stands for in matches side by side: counterparts, and only if all are equal alike
may it be met again. -/
def Interchangeable (cx : MatchContext) (root root' m m' : Node) : Prop :=
  EqualAlike cx root root' ∧ Counterpart cx root root' m m'

section

variable {cx : MatchContext} {lacking : Bool} {shared : Alias → Prop}
  {root root' f f' q q' : Node}

/-- Matches two fields. -/
def validateFields (cx : MatchContext) (v : Validator) : Field → Field → Bindings → Validation
  | .node f, .node q => v f q
  | .nodes fs, .nodes qs => validateList cx v fs qs
  | _, _ => .reject

theorem validatePath_singleton (v : Validator) (f q : Node) (name : String) (b : Bindings) :
    validatePath cx v f q [name] [name] b =
      match f.field? name, q.field? name with
      | some left, some asked => validateFields cx v left asked b
      | _, _ => .reject b := by
  rw [validatePath, Node.resolve, Node.resolve]
  cases f.field? name with
  | none => rfl
  | some left =>
      cases q.field? name with
      | none => cases left <;> rfl
      | some asked => cases left <;> cases asked <;> rfl

/-- A field that is not kept matches none that is asked for. -/
theorem validatePath_of_not_kept (hextra : lacking = true → cx.config.mode.allowsExtra = true)
    (hlists : lacking = true → ∀ nodes ∈ (cx.pruned false q).lists, nodes ≠ []) {name : String}
    (h : cx.keptField? lacking f name = none) (v : Validator) (b : Bindings) :
    (validatePath cx v f q [name] [name] b).bindings? = none := by
  rw [validatePath_singleton]
  cases hfile : f.field? name with
  | none => rfl
  | some field =>
      cases hquery : q.field? name with
      | none => rfl
      | some asked =>
          obtain ⟨hl, hlacks⟩ := MatchContext.holdsIgnored_of_not_kept h hfile
          rw [MatchContext.mayLack, Bool.and_eq_true] at hlacks
          cases field <;> cases asked <;> try rfl
          case nodes.nodes fs qs =>
            -- the list asked for has a node that is compared, which finds nothing to claim
            have hempty : cx.comparable fs = [] := List.isEmpty_iff.1 hlacks.2
            have hlist : (cx.comparable qs).map (cx.pruned false) ≠ [] := by
              have hpruned : (cx.pruned false q).resolve [name] =
                  some (.nodes ((cx.comparable qs).map (cx.pruned false))) := by
                show (cx.pruned false q).field? name = _
                rw [MatchContext.field?_pruned_false, hquery, Option.map_some,
                  MatchContext.prunedField, MatchContext.prunedList_eq]
              exact hlists hl _ (Node.mem_lists_of_resolve hpruned)
            have hmode : cx.config.mode ≠ .exact := by
              intro hmode
              have := hextra hl
              simp [hmode, Mode.allowsExtra] at this
            have hlength : 0 < (cx.comparable qs).length :=
              List.length_pos_iff.2 fun hnil => hlist (by rw [hnil]; rfl)
            show (validateList cx v fs qs b).bindings? = none
            rw [validateList_eq, SideBySide.bindings?_validateComparable hmode, hempty,
              List.length_nil, if_pos hlength]
          all_goals simp [MatchContext.holdsIgnored] at hlacks

/-- Nodes match side by side: counterparts of the files with what queries ask alike, up to some
height of the queries. -/
def MatchSides (cx : MatchContext) (lacking : Bool) (root root' : Node) (height : Nat) : Prop :=
  ∀ f f' q q', Counterpart cx root root' f f' →
    AskedAlike cx lacking (MayRecur cx root root') q q' → q.height < height →
      SideBySide (Interchangeable cx root root') (MayRecur cx root root')
        (cx.aliases (cx.pruned false q)) (fun b => (validate cx f q b).bindings?)
        fun b => (validate cx f' q' b).bindings?

/-- Two fields match side by side if what they hold does. -/
theorem validateFields_sides {left right asked asked' : Field} {name : String}
    (hq : AskedAlike cx lacking (MayRecur cx root root') q q')
    (hasked : q.field? name = some asked)
    (hfile : FieldsPaired cx (Counterpart cx root root') left right)
    (hquery : FieldsPaired cx (fun a b => cx.pruned false a = cx.pruned false b) asked asked')
    (hlower : MatchSides cx lacking root root' q.height) :
    SideBySide (Interchangeable cx root root') (MayRecur cx root root')
      (cx.aliasesAt (cx.pruned false q) [name])
      (fun b => (validateFields cx (validate cx) left asked b).bindings?)
      fun b => (validateFields cx (validate cx) right asked' b).bindings? := by
  have hpruned : (cx.pruned false q).resolve [name] = some (cx.prunedField false asked) := by
    show (cx.pruned false q).field? name = _
    rw [MatchContext.field?_pruned_false, hasked]
    rfl
  have hheight : ∀ c ∈ asked.members, c.height < q.height := fun c hc =>
    Node.height_lt_of_resolve (show q.resolve [name] = some asked from hasked) hc
  rw [MatchContext.aliasesAt, hpruned]
  cases hfile <;> cases hquery <;> try exact SideBySide.reject
  case node.node f f' hf c c' hc =>
    have hmem : c ∈ (Field.node c).members := List.mem_singleton.2 rfl
    refine (hlower f f' c c' hf (hq.of_child hasked hmem (List.mem_singleton.2 rfl) hc)
      (hheight c hmem)).mono ?_
    exact List.subset_append_left _ _
  case nodes.nodes fs fs' hfs qs qs' hqs =>
    have hlist : cx.prunedField false (.nodes qs) =
        .nodes ((cx.comparable qs).map (cx.pruned false)) := by
      rw [MatchContext.prunedField, MatchContext.prunedList_eq]
    rw [hlist] at hpruned
    have hpairs : List.Forall₂ (fun c c' =>
        AskedAlike cx lacking (MayRecur cx root root') c c' ∧ c.height < q.height)
        (cx.comparable qs) (cx.comparable qs') := by
      refine List.forall₂_iff_zip.2 ⟨hqs.length_eq, fun {c c'} hpair => ?_⟩
      have hc : c ∈ cx.comparable qs := (List.of_mem_zip hpair).1
      have hmem : c ∈ (Field.nodes qs).members := (List.mem_filter.1 hc).1
      refine ⟨hq.of_child hasked hmem ?_ ((List.forall₂_iff_zip.1 hqs).2 hpair), hheight c hmem⟩
      rw [hlist]
      exact List.mem_map_of_mem hc
    have hapart : (cx.comparable qs).Pairwise fun c d =>
        ∀ a ∈ cx.aliases (cx.pruned false c), a ∈ cx.aliases (cx.pruned false d) →
          MayRecur cx root root' a :=
      (List.pairwise_map.1 (pairwise_usedTwice hpruned)).imp fun h a ha hmem =>
        hq.twice a (h a ha hmem)
    refine (SideBySide.validateComparable hfs hpairs (fun c c' h => ?_)
      (fun f f' c c' hf h => hlower f f' c c' hf h.1 h.2) hapart).mono ?_
    · rw [Specificity.ofNode, Specificity.ofNode, h.1.same.kind, h.1.same.text]
    · rw [hlist, Option.map_some, Option.getD_some, MatchContext.aliasesOf, Field.members,
        List.flatMap_map]
      exact List.Subset.refl _

/-- The fields of one name match side by side if what they hold does. -/
theorem validatePath_sides (hroot : SameButIgnored cx lacking root root')
    (hf : Counterpart cx root root' f f') (hq : AskedAlike cx lacking (MayRecur cx root root') q q')
    (hlower : MatchSides cx lacking root root' q.height) (name : String) :
    SideBySide (Interchangeable cx root root') (MayRecur cx root root')
      (cx.aliasesAt (cx.pruned false q) [name])
      (fun b => (validatePath cx (validate cx) f q [name] [name] b).bindings?)
      fun b => (validatePath cx (validate cx) f' q' [name] [name] b).bindings? := by
  have hfile := hroot.field?_counterparts hf name
  have hquery := hq.same.field?_rel name
  cases hleft : cx.keptField? lacking f name <;> cases hright : cx.keptField? lacking f' name <;>
    rw [hleft, hright] at hfile
  case none.none =>
    simp only [validatePath_of_not_kept hq.extra hq.lists hleft,
      validatePath_of_not_kept hq.extra (hq.same.pruned ▸ hq.lists) hright]
    exact .reject
  case none.some => cases hfile
  case some.none => cases hfile
  case some.some left right =>
    simp only [validatePath_singleton, MatchContext.keptField?_eq_some hleft,
      MatchContext.keptField?_eq_some hright]
    cases hasked : q.field? name <;> cases hasked' : q'.field? name <;>
      rw [hasked, hasked'] at hquery
    case none.none => exact .reject
    case none.some => cases hquery
    case some.none => cases hquery
    case some.some asked asked' =>
      cases hfile with
      | some hfile =>
          cases hquery with
          | some hquery => exact validateFields_sides hq hasked hfile hquery hlower

/-- The fields left to agree match side by side. -/
theorem validateKeys_sides (hroot : SameButIgnored cx lacking root root')
    (hf : Counterpart cx root root' f f') (hq : AskedAlike cx lacking (MayRecur cx root root') q q')
    (hlower : MatchSides cx lacking root root' q.height) (agrees : Bool) {names : List String}
    (hnames : names.Nodup) :
    SideBySide (Interchangeable cx root root') (MayRecur cx root root')
      (names.flatMap fun name => cx.aliasesAt (cx.pruned false q) [name])
      (fun b => (validateKeys cx (validate cx) f q (.sameFields f agrees names) b).bindings?)
      fun b => (validateKeys cx (validate cx) f' q' (.sameFields f' agrees names) b).bindings? := by
  have hkeys : ∀ f q b, validateKeys cx (validate cx) f q (.sameFields f agrees names) b =
      Validation.inTurn (names.map fun name =>
        validatePath cx (validate cx) f q [name] [name]) b := by
    intro f q b
    rw [validateKeys_eq, if_pos (by simp [Comparison.sameFields])]
    show Validation.inTurn (((names.map ([·])).zip (names.map ([·]))).map _) b = _
    rw [List.zip_map', List.map_map]
    rfl
  simp only [hkeys]
  refine SideBySide.inTurn (List.forall₂_same.2 fun name _ => ?_) ?_
  · exact validatePath_sides hroot hf hq hlower name
  · exact hnames.imp fun hne a ha hmem => hq.twice a (usedTwice_of_fields hne ha hmem)

/-! ## The aliases that a comparison meets -/

/-- The captures of a pattern are met on both sides, wherever its aliases are met again. -/
theorem captures_sides (pattern value : String) :
    SideBySide (Interchangeable cx root root') (MayRecur cx root root')
      ((Pattern.ofText cx.markers pattern).aliasNames.map .text)
      (fun b => b.useAll? cx (((cx.captures? pattern value).getD []).map .ofCapture))
      fun b => b.useAll? cx (((cx.captures? pattern value).getD []).map .ofCapture) := by
  cases hfits : cx.captures? pattern value with
  | none => exact .accept
  | some captures =>
      refine (SideBySide.useAll_captures (fun _ => trivial) captures).mono fun a ha => ?_
      obtain ⟨capture, hcapture, rfl⟩ := List.mem_map.1 ha
      exact List.mem_map_of_mem (Pattern.aliasName_mem_of_captures? hfits hcapture)

/-- The aliases in the text of a query are met on both sides. -/
theorem ownUses_sides (hroot : SameButIgnored cx lacking root root')
    (hf : Counterpart cx root root' f f') (hq : SameButIgnored cx false q q') :
    SideBySide (Interchangeable cx root root') (MayRecur cx root root') (cx.ownAliases q)
      (fun b => b.useAll? cx (compareFreely cx f q).2)
      fun b => b.useAll? cx (compareFreely cx f' q').2 := by
  have hsame := hroot.of_counterpart hf
  cases hname : cx.nameWildcard? q with
  | some name =>
      cases htree : cx.markers.isNodeTree name with
      | true =>
          rw [MatchContext.ownAliases_of_isNodeTree hname htree]
          simp only [compareFreely, hq.nameWildcard?, hname, htree, if_true]
          cases cx.treeAlias? name with
          | none => exact .accept
          | some aliasName =>
              simp only [Option.toList_some, List.map_cons, List.map_nil, Bindings.useAll?_cons]
              exact (SideBySide.use_tree (fun m n h => h.1 m n f f' h.2 hf)
                fun hequal => ⟨hequal, hf⟩).bind .accept (by simp)
      | false =>
          rw [MatchContext.ownAliases_of_name hname htree]
          simp only [compareFreely, hq.nameWildcard?, hname, htree, Bool.false_eq_true, if_false,
            hsame.fileName?]
          cases cx.fileName? f with
          | none => exact .accept
          | some value => exact captures_sides name value
  | none =>
      cases hstring : cx.stringWildcard? f q with
      | some pattern =>
          rw [MatchContext.ownAliases_of_string hname hstring]
          simp only [compareFreely, hq.nameWildcard?, hname, hsame.stringWildcard? hq, hstring,
            hsame.sanitized]
          exact captures_sides pattern _
      | none =>
          simp only [compareFreely, hq.nameWildcard?, hname, hsame.stringWildcard? hq, hstring]
          exact .accept

/-! ## What a comparison leaves to agree -/

/-- Two nodes **cannot match**: their comparison fails, or what it leaves to agree does. -/
def CannotMatch (cx : MatchContext) (f q : Node) : Prop :=
  (compareFreely cx f q).1.agrees = true →
    ∀ b, (validateKeys cx (validate cx) f q (compareFreely cx f q).1 b).bindings? = none

/-- Steps of which one fails from any bindings. -/
theorem bindings?_inTurn_eq_none {steps : List (Bindings → Validation)}
    {step : Bindings → Validation} (hmem : step ∈ steps) (h : ∀ b, (step b).bindings? = none)
    (b : Bindings) : (Validation.inTurn steps b).bindings? = none := by
  induction steps generalizing b with
  | nil => simp at hmem
  | cons first rest ih =>
      rw [Validation.inTurn, Validation.bindings?_andThen]
      rcases List.mem_cons.1 hmem with rfl | hmem
      · rw [h b]
        rfl
      · cases (first b).bindings? with
        | none => rfl
        | some c => exact ih hmem c

/-- A comparison key by key with a key that is not kept comes to nothing. -/
theorem bindings?_compareFields_eq_none
    (hextra : lacking = true → cx.config.mode.allowsExtra = true)
    (hlists : lacking = true → ∀ nodes ∈ (cx.pruned false q).lists, nodes ≠ []) {key : String}
    (hkey : key ∈ q.keys) (hne : key ≠ textKey) (hkept : cx.keptField? lacking f key = none)
    (h : (compareFields cx f q).agrees = true) (v : Validator) (b : Bindings) :
    (validateKeys cx v f q (compareFields cx f q) b).bindings? = none := by
  obtain ⟨hagree, names, heq, hnames⟩ := compareFields_agrees h
  obtain ⟨left, right, hleft, hright, -⟩ := hagree.fields key hkey hne
  have hholds : right.holdsNodes = true := by
    have hlacks := (MatchContext.holdsIgnored_of_not_kept hkept hright).2
    cases right with
    | token _ => simp [MatchContext.mayLack, MatchContext.holdsIgnored] at hlacks
    | node _ => rfl
    | nodes _ => rfl
  have hmem : key ∈ names := (hnames key).2 ⟨hkey, hne, left, right, hleft, hright, Or.inr hholds⟩
  rw [heq, validateKeys_eq, if_pos (by simp [Comparison.sameFields])]
  exact bindings?_inTurn_eq_none
    (List.mem_map.2 ⟨([key], [key]), mem_pairs_sameFields hmem, rfl⟩)
    (validatePath_of_not_kept hextra hlists hkept v) b

/-- Two nodes have a type or not alike if their counterparts do. -/
theorem sameTyping_sides (hf : SameButIgnored cx lacking f f')
    (hq : AskedAlike cx lacking shared q q') : cx.sameTyping f' q' = cx.sameTyping f q := by
  rw [MatchContext.sameTyping, MatchContext.sameTyping]
  split
  next field hmode _ =>
    have hl : lacking = false := Bool.eq_false_iff.2 fun hl => by
      have := hq.extra hl
      simp [hmode, Mode.allowsExtra] at this
    subst hl
    have hfile := hf.isSome_keptField? field
    have hquery := hq.same.isSome_keptField? field
    simp only [MatchContext.keptField?_false] at hfile hquery
    rw [hfile, hquery]
  next => rfl

/-- Two nodes leave the same fields to agree as their counterparts do, or neither pair can match. -/
def LeaveAlike (cx : MatchContext) (f q f' q' : Node) : Prop :=
  (∃ agrees names, names.Nodup ∧ (compareFreely cx f q).1 = .sameFields f agrees names ∧
      (compareFreely cx f' q').1 = .sameFields f' agrees names) ∨
    CannotMatch cx f q ∧ CannotMatch cx f' q'

/-- A comparison that looks at the nodes alone leaves no field to agree. -/
theorem LeaveAlike.closed {agrees : Bool} (hleft : (compareFreely cx f q).1 = .closed f agrees)
    (hright : (compareFreely cx f' q').1 = .closed f' agrees) : LeaveAlike cx f q f' q' :=
  Or.inl ⟨agrees, [], List.nodup_nil, hleft, hright⟩

/-- Without wildcards, two nodes leave the same to agree as their counterparts do, or neither pair
can match. -/
theorem leaveAlike_of_noWildcard (hafter : cx.grammar.rulesAfter = [])
    (hf : SameButIgnored cx lacking f f') (hq : AskedAlike cx lacking shared q q')
    (hname : cx.nameWildcard? q = none) (hstring : cx.stringWildcard? f q = none) :
    LeaveAlike cx f q f' q' := by
  have hname' := hq.same.nameWildcard?.trans hname
  have hstring' := (hf.stringWildcard? hq.same).trans hstring
  have hleft : (compareFreely cx f q).1 = (comparePlain cx f q .empty).1 := by
    simp only [compareFreely, hname, hstring]
  have hright : (compareFreely cx f' q').1 = (comparePlain cx f' q' .empty).1 := by
    simp only [compareFreely, hname', hstring']
  rw [comparePlain_of_noWildcard hafter hname hstring] at hleft
  rw [comparePlain_of_noWildcard hafter hname' hstring'] at hright
  have hany : cx.isAnyNumber q' = cx.isAnyNumber q := by
    rw [MatchContext.isAnyNumber, MatchContext.isAnyNumber, hq.same.kind, hq.same.text]
  have hwhole : cx.isWholeFile f' q' = cx.isWholeFile f q := by
    rw [MatchContext.isWholeFile, MatchContext.isWholeFile, hq.same.kind, hf.kind]
  rw [hany, hwhole, ← hf.kind] at hright
  cases hnumber : cx.isAnyNumber q with
  | true =>
      simp only [hnumber, if_true] at hleft hright
      exact .closed hleft hright
  | false =>
      cases hfile : cx.isWholeFile f q with
      | true =>
          simp only [hnumber, hfile, Bool.false_eq_true, if_false, if_true] at hleft hright
          exact Or.inl ⟨true, [childrenField], List.nodup_singleton _, hleft, hright⟩
      | false =>
          simp only [hnumber, hfile, Bool.false_eq_true, if_false] at hleft hright
          by_cases hkept : ∀ key ∈ q.keys, key ≠ textKey →
              (cx.keptField? lacking f key).isSome = true
          · rw [LeaveAlike, hleft, hright]
            exact Or.inl (compareFields_sides hf hq hkept)
          · -- a key that is not kept lets the match fail on both sides
            simp only [not_forall, Bool.not_eq_true, Option.isSome_eq_false_iff,
              Option.isNone_iff_eq_none] at hkept
            obtain ⟨key, hkey, hne, hnone⟩ := hkept
            have hnone' : cx.keptField? lacking f' key = none := by
              have hsome := hf.isSome_keptField? key
              rw [hnone] at hsome
              simpa using hsome.symm
            refine Or.inr ⟨fun hagrees => ?_, fun hagrees => ?_⟩
            · rw [hleft] at hagrees ⊢
              exact bindings?_compareFields_eq_none hq.extra hq.lists hkey hne hnone hagrees
                (validate cx)
            · rw [hright] at hagrees ⊢
              exact bindings?_compareFields_eq_none hq.extra (hq.same.pruned ▸ hq.lists)
                (hq.same.keys ▸ hkey) hne hnone' hagrees (validate cx)

/-- **Two nodes leave the same fields to agree** as their counterparts do, or neither pair can
match. -/
theorem compareFreely_sides (hafter : cx.grammar.rulesAfter = [])
    (hf : SameButIgnored cx lacking f f') (hq : AskedAlike cx lacking shared q q') :
    LeaveAlike cx f q f' q' := by
  have hnames : (q.fields.map Prod.fst).Nodup := hq.distinct q (Node.mem_walk_self q)
  cases hname : cx.nameWildcard? q with
  | some name =>
      have hname' := hq.same.nameWildcard?.trans hname
      cases htree : cx.markers.isNodeTree name with
      | true =>
          refine @LeaveAlike.closed cx f f' q q' true ?_ ?_
          · simp only [compareFreely, hname, htree, if_true]
          · simp only [compareFreely, hname', htree, if_true]
      | false =>
          rw [LeaveAlike]
          simp only [compareFreely, hname, hname', htree, Bool.false_eq_true, if_false,
            hf.fileName?, sameTyping_sides hf hq, ← hq.same.childFields]
          exact Or.inl ⟨_, _, hnames.sublist (List.filter_sublist.map Prod.fst), rfl, rfl⟩
  | none =>
      cases hstring : cx.stringWildcard? f q with
      | some pattern =>
          have hname' := hq.same.nameWildcard?.trans hname
          have hstring' := (hf.stringWildcard? hq.same).trans hstring
          have hright : (compareFreely cx f' q').1 = .closed f'
              (cx.captures? pattern ((cx.sanitized f).getD "")).isSome := by
            simp only [compareFreely, hname', hstring', hf.sanitized]
          exact .closed (by simp only [compareFreely, hname, hstring]) hright
      | none => exact leaveAlike_of_noWildcard hafter hf hq hname hstring

/-! ## Matching at every depth -/

/-- What comes of going on from a comparison, read off from the comparison without checks. -/
theorem bindings?_validateFound_comparePlain (hafter : cx.grammar.rulesAfter = []) (v : Validator)
    (f q : Node) (b : Bindings) :
    (validateFound cx v f q (comparePlain cx f q b)).bindings? =
      (Comparison.bindings? (comparePlain cx f q b)).bind fun c =>
        (validateKeys cx v f q (compareFreely cx f q).1 c).bindings? := by
  rw [bindings?_validateFound]
  cases hbound : Comparison.bindings? (comparePlain cx f q b) with
  | none => rfl
  | some c =>
      obtain ⟨-, hfound⟩ := comparePlain_follows hafter (fun a => Bindings.SameAt.refl b a) f q
      rw [hfound (Comparison.agrees_of_bindings? hbound)]

theorem CannotMatch.bindings?_eq_none (hafter : cx.grammar.rulesAfter = [])
    (h : CannotMatch cx f q) (b : Bindings) :
    (validateFound cx (validate cx) f q (comparePlain cx f q b)).bindings? = none := by
  rw [bindings?_validateFound_comparePlain hafter]
  cases hbound : Comparison.bindings? (comparePlain cx f q b) with
  | none => rfl
  | some c =>
      obtain ⟨-, hfound⟩ := comparePlain_follows hafter (fun a => Bindings.SameAt.refl b a) f q
      have hagrees := Comparison.agrees_of_bindings? hbound
      exact h (hfound hagrees ▸ hagrees) c

/-- Nodes match side by side by the steps after the one for default values. -/
theorem validatePlain_sides (hafter : cx.grammar.rulesAfter = [])
    (hroot : SameButIgnored cx lacking root root') (hf : Counterpart cx root root' f f')
    (hq : AskedAlike cx lacking (MayRecur cx root root') q q')
    (hlower : MatchSides cx lacking root root' q.height) :
    SideBySide (Interchangeable cx root root') (MayRecur cx root root')
      (cx.aliases (cx.pruned false q))
      (fun b => (validateFound cx (validate cx) f q (comparePlain cx f q b)).bindings?)
      fun b => (validateFound cx (validate cx) f' q' (comparePlain cx f' q' b)).bindings? := by
  rcases compareFreely_sides hafter (hroot.of_counterpart hf) hq with
    ⟨agrees, names, hnames, hleft, hright⟩ | ⟨hleft, hright⟩
  · have hown : cx.ownAliases (cx.pruned false q) = cx.ownAliases q := by
      simp only [MatchContext.ownAliases, MatchContext.nameWildcard?, MatchContext.sanitized,
        MatchContext.kind_pruned, MatchContext.text_pruned]
    have hcompared : SideBySide (Interchangeable cx root root') (MayRecur cx root root')
        (cx.ownAliases (cx.pruned false q))
        (fun b => Comparison.bindings? (comparePlain cx f q b))
        fun b => Comparison.bindings? (comparePlain cx f' q' b) := by
      have huses : SideBySide (Interchangeable cx root root') (MayRecur cx root root')
          (cx.ownAliases (cx.pruned false q))
          (fun b => if agrees then b.useAll? cx (compareFreely cx f q).2 else none)
          fun b => if agrees then b.useAll? cx (compareFreely cx f' q').2 else none := by
        cases agrees with
        | false => exact .reject
        | true => exact hown ▸ ownUses_sides hroot hf hq.same
      refine huses.congr (fun b => ?_) fun b => ?_
      · have h := (comparePlain_follows hafter (fun a => Bindings.SameAt.refl b a) f q).1
        rwa [hleft] at h
      · have h := (comparePlain_follows hafter (fun a => Bindings.SameAt.refl b a) f' q').1
        rwa [hright] at h
    simp only [bindings?_validateFound_comparePlain hafter, hleft, hright]
    refine (hcompared.bind (validateKeys_sides hroot hf hq hlower agrees hnames)
      fun a ha hmem => ?_).mono ?_
    · obtain ⟨name, -, hmem⟩ := List.mem_flatMap.1 hmem
      exact hq.twice a (usedTwice_of_own ha hmem)
    · refine List.append_subset.2 ⟨cx.ownAliases_subset _, fun a ha => ?_⟩
      obtain ⟨name, -, ha⟩ := List.mem_flatMap.1 ha
      exact cx.aliasesAt_subset _ _ ha
  · simp only [hleft.bindings?_eq_none hafter, hright.bindings?_eq_none hafter]
    exact .reject

/-- A name of a query matches a name with a default value just if it matches the name. -/
theorem bindings?_validateFound_value (hbefore : cx.grammar.rulesBefore = [])
    (hafter : cx.grammar.rulesAfter = []) {name : String}
    (hfield : valueField? cx f.kind q = some name) (v : Validator) (b : Bindings) :
    (validateFound cx v f q (compare cx f q b)).bindings? =
      (f.child? name).bind fun c => (validateFound cx v c q (compare cx c q b)).bindings? := by
  rw [validateFound_defaultValue hbefore hafter hfield]
  cases f.child? name <;> rfl

/-- **Nodes match side by side** at every depth. -/
theorem matchSides (hbefore : cx.grammar.rulesBefore = []) (hafter : cx.grammar.rulesAfter = [])
    (hroot : SameButIgnored cx lacking root root') (height : Nat) :
    MatchSides cx lacking root root' height := by
  induction height with
  | zero => exact fun _ _ _ _ _ _ h => absurd h (Nat.not_lt_zero _)
  | succ height ih =>
      intro f f' q q' hf hq hheight
      have hlower : MatchSides cx lacking root root' q.height := fun g g' c c' hg hc hlt =>
        ih g g' c c' hg hc (by omega)
      have hfield : ∀ kind, valueField? cx kind q' = valueField? cx kind q := fun kind => by
        rw [valueField?, valueField?, hq.same.kind]
      simp only [validate_eq]
      induction f using Node.offspring_induction generalizing f' with
      | step f inner =>
          have hkind := (hroot.of_counterpart hf).kind
          cases hvalue : valueField? cx f.kind q with
          | none =>
              have hvalue' : valueField? cx f'.kind q' = none := by rw [hfield, ← hkind, hvalue]
              simp only [compare_eq, hbefore, Rule.first?, hvalue, hvalue']
              exact validatePlain_sides hafter hroot hf hq hlower
          | some name =>
              have hvalue' : valueField? cx f'.kind q' = some name := by
                rw [hfield, ← hkind, hvalue]
              simp only [bindings?_validateFound_value hbefore hafter hvalue,
                bindings?_validateFound_value hbefore hafter hvalue']
              have hchild := hroot.child?_counterparts hf name
              cases hleft : f.child? name <;> cases hright : f'.child? name <;>
                rw [hleft, hright] at hchild
              case none.none => exact .reject
              case none.some => cases hchild
              case some.none => cases hchild
              case some.some c c' =>
                cases hchild with
                | some hchild => exact inner c (Node.mem_offspring_of_child? hleft) c' hchild

/-- **Ignored nodes do not matter.** Without rules of the grammar, a query has one verdict on two
files that are the same but for ignored nodes, and so have two such queries, in every mode. An alias
for subtrees may be used twice only if the ignored nodes are not what makes two nodes of a file
equal, or not. If fields may be lacking, so that lists of nothing but ignored nodes are the same as
no field at all, then only optional ones are, further code has to be ignored, and the query must not
ask for a list without a node that is compared. -/
theorem validate_sameButIgnored (hbefore : cx.grammar.rulesBefore = [])
    (hafter : cx.grammar.rulesAfter = []) {file file' query query' : Node}
    (hfile : SameButIgnored cx lacking file file') (hquery : SameButIgnored cx false query query')
    (hdistinct : query.NamesDistinct)
    (hextra : lacking = true → cx.config.mode.allowsExtra = true)
    (hlists : lacking = true → ∀ nodes ∈ (cx.pruned false query).lists, nodes ≠ [])
    (htwice : ∀ name, cx.UsedTwice (cx.pruned false query) (.tree name) →
      EqualAlike cx file file') :
    (validate cx file query .empty).agrees = (validate cx file' query' .empty).agrees := by
  have hasked : AskedAlike cx lacking (MayRecur cx file file') query query' :=
    { same := hquery
      distinct := hdistinct
      extra := hextra
      lists := hlists
      twice := fun a ha => by
        cases a with
        | text name => trivial
        | tree name => exact htwice name ha }
  have hrun := matchSides hbefore hafter hfile (query.height + 1) file file' query query' .root
    hasked (Nat.lt_succ_self _) [] (by simp) .empty .empty fun a _ => Bindings.pairedAt_empty a
  dsimp only [Validation.bindings?] at hrun
  cases hleft : (validate cx file query .empty).agrees <;>
    cases hright : (validate cx file' query' .empty).agrees <;>
    simp only [hleft, hright, if_true, Bool.false_eq_true, if_false] at hrun ⊢
  case false.true => cases hrun
  case true.false => cases hrun

end

/-- A call on some names, with a comment in front of them. -/
def commentedCall (names : List String) : Node :=
  (Node.branch "call" .zero).withChildren
    (.leaf "comment" "why" .zero :: names.map fun name => .leaf "name" name .zero)

/-- Two statements. -/
def pairOf (first second : Node) : Node :=
  (Node.branch "body" .zero).withChildren [first, second]

/-- The calls of names, with comments that do not count, and notes on a call that it may lack. -/
def notedGrammar : Grammar :=
  { commentGrammar with isOptional := fun kind name => kind == "call" && name == "notes" }

/-- Comments in a file and in a query, and notes of nothing but a comment, do not keep a query from
being found. -/
theorem validate_sameButIgnored_comments :
    SameButIgnored ⟨notedGrammar, { mode := .contained }, ""⟩ true
        (pairOf (callOn ["g"])
          ((commentedCall ["f", "x"]).withList "notes" [.leaf "comment" "note" .zero]))
        (pairOf (callOn ["g"]) (callOn ["f", "x"])) ∧
      SameButIgnored ⟨notedGrammar, { mode := .contained }, ""⟩ false
        (pairOf (callOn ["g"]) (commentedCall ["$$$_a"]))
        (pairOf (callOn ["g"]) (callOn ["$$$_a"])) ∧
      (validate ⟨notedGrammar, { mode := .contained }, ""⟩
        (pairOf (callOn ["g"])
          ((commentedCall ["f", "x"]).withList "notes" [.leaf "comment" "note" .zero]))
        (pairOf (callOn ["g"]) (commentedCall ["$$$_a"])) .empty).agrees = true := by
  have hfile : SameButIgnored ⟨notedGrammar, { mode := .contained }, ""⟩ true
      (pairOf (callOn ["g"])
        ((commentedCall ["f", "x"]).withList "notes" [.leaf "comment" "note" .zero]))
      (pairOf (callOn ["g"]) (callOn ["f", "x"])) :=
    ⟨rfl, fun _ => by decide, fun _ => by decide⟩
  have hquery : SameButIgnored ⟨notedGrammar, { mode := .contained }, ""⟩ false
      (pairOf (callOn ["g"]) (commentedCall ["$$$_a"]))
      (pairOf (callOn ["g"]) (callOn ["$$$_a"])) :=
    ⟨rfl, by simp, by simp⟩
  refine ⟨hfile, hquery, ?_⟩
  rw [validate_sameButIgnored rfl rfl hfile hquery (by decide) (fun _ => rfl)
    (fun _ => by decide +kernel) fun name htwice => ?_]
  · decide +kernel
  · -- no alias is used twice
    have haliases : MatchContext.aliases ⟨notedGrammar, { mode := .contained }, ""⟩
        (MatchContext.pruned ⟨notedGrammar, { mode := .contained }, ""⟩ false
          (pairOf (callOn ["g"]) (commentedCall ["$$$_a"]))) = [.tree "a"] := by decide +kernel
    rw [MatchContext.UsedTwice, haliases] at htwice
    exact absurd (htwice.trans List.count_le_length) (by decide)

/-- A comment in the second of two equal calls keeps them from standing for one alias. And in a call
without arguments it makes a list of arguments, which a query without one does not match where all
of the code counts. -/
theorem ignoredNodes_show :
    (SameButIgnored ⟨commentGrammar, { mode := .exact }, ""⟩ false
        (pairOf (callOn ["f", "x"]) (callOn ["f", "x"]))
        (pairOf (callOn ["f", "x"]) (commentedCall ["f", "x"])) ∧
      (validate ⟨commentGrammar, { mode := .exact }, ""⟩
        (pairOf (callOn ["f", "x"]) (callOn ["f", "x"]))
        (pairOf (.leaf "name" "$$$_a" .zero) (.leaf "name" "$$$_a" .zero)) .empty).agrees = true ∧
      (validate ⟨commentGrammar, { mode := .exact }, ""⟩
        (pairOf (callOn ["f", "x"]) (commentedCall ["f", "x"]))
        (pairOf (.leaf "name" "$$$_a" .zero) (.leaf "name" "$$$_a" .zero)) .empty).agrees = false) ∧
    (validate ⟨commentGrammar, { mode := .exact }, ""⟩ (.branch "call" .zero) (.branch "call" .zero)
      .empty).agrees = true ∧
    (validate ⟨commentGrammar, { mode := .exact }, ""⟩ (commentedCall []) (.branch "call" .zero)
      .empty).agrees = false := by
  refine ⟨⟨⟨rfl, by simp, by simp⟩, ?_, ?_⟩, ?_, ?_⟩
  all_goals decide +kernel

end CodeSearch
