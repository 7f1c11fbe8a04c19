import CodeSearch.Proofs.Locality
import CodeSearch.Proofs.Soundness

/-!
# Extra code

Where further code is ignored, nodes may be inserted into a list of the file and the query still
matches, but not always: an element of the query takes the first element that it matches, an
inserted one perhaps, and what it binds is never given up. So either the inserted nodes match
nothing that is looked for in the list, or what is bound there must not matter elsewhere.
-/

set_option autoImplicit false

namespace CodeSearch

/-! ## Lists with further nodes -/

/-- A list with further nodes of some sort **inserted** at any places. -/
inductive Inserted (P : Node → Prop) : List Node → List Node → Prop
  | nil : Inserted P [] []
  | keep (n : Node) {xs ys : List Node} (h : Inserted P xs ys) : Inserted P (n :: xs) (n :: ys)
  | extra {n : Node} (hn : P n) {xs ys : List Node} (h : Inserted P xs ys) :
      Inserted P xs (n :: ys)

namespace Inserted

variable {P : Node → Prop} {xs ys : List Node}

theorem mono {Q : Node → Prop} (h : Inserted P xs ys) (hPQ : ∀ n, P n → Q n) :
    Inserted Q xs ys := by
  induction h with
  | nil => exact Inserted.nil
  | keep n _ ih => exact ih.keep n
  | extra hn _ ih => exact ih.extra (hPQ _ hn)

theorem sublist (h : Inserted P xs ys) : xs.Sublist ys := by
  induction h with
  | nil => exact List.Sublist.slnil
  | keep n _ ih => exact ih.cons_cons n
  | extra _ _ ih => exact ih.cons _

/-- Nodes that are left out do not count as inserted. -/
theorem filter (h : Inserted P xs ys) (p : Node → Bool) :
    Inserted (fun n => P n ∧ p n = true) (xs.filter p) (ys.filter p) := by
  induction h with
  | nil => exact Inserted.nil
  | @keep n xs ys _ ih =>
      rw [List.filter_cons, List.filter_cons]
      split
      next => exact ih.keep n
      next => exact ih
  | @extra n hn xs ys _ ih =>
      rw [List.filter_cons]
      split
      next hp => exact ih.extra ⟨hn, hp⟩
      next => exact ih

/-- A search that no inserted node meets finds the same node. -/
theorem find?_eq {p : Node → Bool} (h : Inserted P xs ys) (hp : ∀ n, P n → p n = false) :
    ys.find? p = xs.find? p := by
  induction h with
  | nil => rfl
  | keep n _ ih => rw [List.find?_cons, List.find?_cons, ih]
  | extra hn _ ih => rw [List.find?_cons, hp _ hn, ih]

/-- A node that is taken out is none of those inserted. -/
theorem eraseP {p : Node → Bool} (h : Inserted P xs ys) (hp : ∀ n, P n → p n = false) :
    Inserted P (xs.eraseP p) (ys.eraseP p) := by
  induction h with
  | nil => exact Inserted.nil
  | @keep n xs ys h ih =>
      rw [List.eraseP_cons, List.eraseP_cons]
      cases p n with
      | true => exact h
      | false => exact ih.keep n
  | extra hn _ ih =>
      rw [List.eraseP_cons, hp _ hn]
      exact ih.extra hn

end Inserted

/-! ## A node with another list -/

namespace Node

theorem insertField_fst {name : String} (value : Field) {fields : List (String × Field)}
    (h : (fields.lookup name).isSome = true) :
    (insertField name value fields).map Prod.fst = fields.map Prod.fst := by
  induction fields with
  | nil => simp at h
  | cons entry rest ih =>
      obtain ⟨key, old⟩ := entry
      rw [insertField]
      split
      next => rfl
      next hne =>
        rw [List.lookup_cons, beq_false_of_ne (Ne.symm hne)] at h
        rw [List.map_cons, List.map_cons, ih h]

theorem insertField_childFields {name : String} {value old : Field}
    {fields : List (String × Field)} (h : fields.lookup name = some old)
    (hnodes : value.holdsNodes = old.holdsNodes) :
    ((insertField name value fields).filter (·.2.holdsNodes)).map Prod.fst =
      (fields.filter (·.2.holdsNodes)).map Prod.fst := by
  induction fields with
  | nil => simp at h
  | cons entry rest ih =>
      obtain ⟨key, field⟩ := entry
      rw [insertField]
      split
      next heq =>
        subst heq
        obtain rfl : field = old := by simpa using h
        rw [List.filter_cons, List.filter_cons, hnodes]
        split <;> rfl
      next hne =>
        rw [List.lookup_cons, beq_false_of_ne (Ne.symm hne)] at h
        rw [List.filter_cons, List.filter_cons]
        split
        next => rw [List.map_cons, List.map_cons, ih h]
        next => exact ih h

end Node

section Compare

variable {cx : MatchContext} {file : Node} {name : String} {old new : List Node}

/-- The node with another list in one of its fields. -/
def Node.withList (n : Node) (name : String) (nodes : List Node) : Node :=
  n.setField name (.nodes nodes)

@[simp] theorem Node.kind_withList (n : Node) (name : String) (nodes : List Node) :
    (n.withList name nodes).kind = n.kind := rfl

@[simp] theorem Node.text_withList (n : Node) (name : String) (nodes : List Node) :
    (n.withList name nodes).text = n.text := rfl

theorem Node.keys_withList (h : file.field? name = some (.nodes old)) :
    (file.withList name new).keys = file.keys := by
  have hname : (file.fields.lookup name).isSome = true := by
    rw [Node.field?] at h
    rw [h]
    rfl
  have hfst := Node.insertField_fst (.nodes new) hname
  show (Node.insertField name (.nodes new) file.fields).map Prod.fst ++ _ = _
  rw [hfst]
  rfl

theorem Node.childFields_withList (h : file.field? name = some (.nodes old)) :
    (file.withList name new).childFields = file.childFields :=
  Node.insertField_childFields h rfl

theorem Node.field?_withList_self (n : Node) (name : String) (nodes : List Node) :
    (n.withList name nodes).field? name = some (.nodes nodes) :=
  Node.field?_setField_self n name (.nodes nodes)

theorem Node.field?_withList_of_ne (n : Node) {name other : String} (nodes : List Node)
    (h : other ≠ name) : (n.withList name nodes).field? other = n.field? other :=
  Node.field?_setField_of_ne n (.nodes nodes) h

theorem Node.isSome_field?_withList (h : file.field? name = some (.nodes old)) (key : String) :
    ((file.withList name new).field? key).isSome = (file.field? key).isSome := by
  by_cases hkey : key = name
  · rw [hkey, Node.field?_withList_self, h]
    rfl
  · rw [Node.field?_withList_of_ne _ _ hkey]

theorem Node.child?_withList (h : file.field? name = some (.nodes old)) (key : String) :
    (file.withList name new).child? key = file.child? key := by
  rw [Node.child?, Node.child?]
  by_cases hkey : key = name
  · rw [hkey, Node.field?_withList_self, h]
    rfl
  · rw [Node.field?_withList_of_ne _ _ hkey]

/-- No path but that to the list itself leads anywhere else. -/
theorem Node.resolve_withList (h : file.field? name = some (.nodes old)) {path : FieldPath}
    (hpath : path ≠ [name]) : (file.withList name new).resolve path = file.resolve path := by
  cases path with
  | nil => rfl
  | cons key rest =>
      cases rest with
      | nil => exact Node.field?_withList_of_ne _ _ fun hkey => hpath (by rw [hkey])
      | cons next rest => rw [Node.resolve, Node.resolve, Node.child?_withList h]

theorem compareKey_withList (h : file.field? name = some (.nodes old)) (query : Node)
    (fileKeys : List String) (key : String) :
    compareKey cx (file.withList name new) query fileKeys key =
      compareKey cx file query fileKeys key := by
  unfold compareKey
  by_cases hkey : key = name
  · -- a list is no token, whatever its elements
    rw [hkey, Node.field?_withList_self, h]
    cases query.field? name with
    | none => rfl
    | some field => cases field <;> rfl
  · rw [Node.field?_withList_of_ne _ _ hkey]
    rfl

theorem compareFields_withList (h : file.field? name = some (.nodes old)) (query : Node) :
    compareFields cx (file.withList name new) query = compareFields cx file query := by
  have hcounted : countedKeys cx (file.withList name new) query = countedKeys cx file query := by
    rw [countedKeys, countedKeys, Node.keys_withList h]
    rfl
  unfold compareFields
  rw [hcounted]
  simp only [compareKey_withList h, Comparison.closed, Comparison.sameFields,
    Node.childFields_withList h, Node.kind_withList]

theorem compareIdentifier_withList (h : file.field? name = some (.nodes old)) {query : Node}
    {text : String} (htree : cx.markers.isNodeTree text = false) (b : Bindings) :
    compareIdentifier cx (file.withList name new) query text b =
      compareIdentifier cx file query text b := by
  have hno : ¬ cx.markers.isNodeTree text = true := by simp [htree]
  rw [compareIdentifier, if_neg hno, compareIdentifier, if_neg hno]
  simp only [Comparison.sameFields, Node.childFields_withList h, Node.isSome_field?_withList h,
    Node.kind_withList, Node.text_withList]
  rfl

/-- **What is in a list does not count in a comparison** of a node with one that is no wildcard
for subtrees. -/
theorem compare_withList (hbefore : cx.grammar.rulesBefore = [])
    (hafter : cx.grammar.rulesAfter = []) (h : file.field? name = some (.nodes old))
    {query : Node} (hquery : ∀ text, cx.nameWildcard? query = some text →
      valueField? cx file.kind query = none → cx.markers.isNodeTree text = false)
    (b : Bindings) :
    compare cx (file.withList name new) query b = compare cx file query b := by
  rw [compare_eq, compare_eq]
  simp only [hbefore, Rule.first?, Node.kind_withList, Node.child?_withList h,
    Node.childFields_withList h]
  cases hfield : valueField? cx file.kind query with
  | some field => rfl
  | none =>
      unfold comparePlain
      rw [compareWildcard?_eq, compareWildcard?_eq]
      cases hname : cx.nameWildcard? query with
      | some text => exact compareIdentifier_withList h (hquery text hname hfield) b
      | none =>
          have hstring : cx.stringWildcard? (file.withList name new) query =
              cx.stringWildcard? file query := rfl
          have hsanitized : cx.sanitized (file.withList name new) = cx.sanitized file := rfl
          have hwhole : cx.isWholeFile (file.withList name new) query =
              cx.isWholeFile file query := rfl
          simp only [hstring, hsanitized, hwhole, hafter, Rule.first?, compareFields_withList h,
            Comparison.closed, Comparison.sameFields, Node.childFields_withList h,
            Node.kind_withList]
          cases cx.stringWildcard? file query <;> rfl

end Compare

/-! ## The fields that are left to agree -/

section Keys

variable {cx : MatchContext} {file query : Node} {b c : Bindings} {found : Comparison}

/-- Of keys with their outcomes, only those left to agree are kept. -/
theorem filterMap_deferred_sublist {g : String → KeyMatch} {f : String × KeyMatch → Option String}
    (hf : ∀ key, f (key, .deferred) = some key)
    (hsettled : ∀ key outcome, outcome ≠ .deferred → f (key, outcome) = none)
    (keys : List String) {late : List String} (hlate : ∀ key ∈ late, g key ≠ .deferred) :
    (((keys ++ late).map fun key => (key, g key)).filterMap f).Sublist keys := by
  induction keys with
  | nil =>
      refine List.sublist_nil.2 (List.filterMap_eq_nil_iff.2 fun entry hentry => ?_)
      obtain ⟨key, hkey, rfl⟩ := List.mem_map.1 hentry
      exact hsettled key _ (hlate key hkey)
  | cons key rest ih =>
      rw [List.cons_append, List.map_cons, List.filterMap_cons]
      by_cases hkey : g key = .deferred
      · rw [hkey, hf]
        exact ih.cons_cons key
      · rw [hsettled key _ hkey]
        exact ih.cons key

/-- The comparison key by key leaves no field to agree twice. -/
theorem compareFields_queryKeys (cx : MatchContext) (file query : Node) :
    ∃ names : List String, names.Sublist (query.fields.map Prod.fst) ∧
      (compareFields cx file query).queryKeys = names.map ([·]) := by
  unfold compareFields
  dsimp only
  split
  next => exact ⟨[], List.nil_sublist _, rfl⟩
  next =>
    generalize countedKeys cx file query = fileKeys
    refine ⟨_, ?_, rfl⟩
    -- the key of texts, which stands after the names of the fields, is not left to agree
    refine filterMap_deferred_sublist (fun _ => rfl) (fun key outcome hne => ?_) _ ?_
    · cases outcome with
      | deferred => exact absurd rfl hne
      | compared _ => rfl
      | lacking => rfl
    · intro key hkey
      have htext : key = textKey := by
        split at hkey
        next => exact List.mem_singleton.1 hkey
        next => simp at hkey
      rw [htext, compareKey]
      split <;> simp

theorem AgreePlainly.keys (hafter : cx.grammar.rulesAfter = [])
    (hquery : (query.fields.map Prod.fst).Nodup) (h : AgreePlainly cx file query b found c) :
    found.fileKeys = found.queryKeys ∧
      ∃ names : List String, names.Nodup ∧ found.queryKeys = names.map ([·]) := by
  cases h with
  | anyTree => exact ⟨rfl, [], List.nodup_nil, rfl⟩
  | tree => exact ⟨rfl, [], List.nodup_nil, rfl⟩
  | name => exact ⟨rfl, query.childFields, hquery.sublist (List.filter_sublist.map _), rfl⟩
  | string => exact ⟨rfl, [], List.nodup_nil, rfl⟩
  | number => exact ⟨rfl, [], List.nodup_nil, rfl⟩
  | block => exact ⟨rfl, [childrenField], List.nodup_singleton _, rfl⟩
  | rule hname hstring hany hrule hagrees => simp [hafter, Rule.first?] at hrule
  | fields hname hstring hany hrule hagrees =>
      obtain ⟨names, hsublist, hkeys⟩ := compareFields_queryKeys cx file query
      obtain ⟨-, names', heq, -⟩ := compareFields_agrees hagrees
      refine ⟨?_, names, hquery.sublist hsublist, hkeys⟩
      rw [heq]
      rfl

/-- Without rules of the grammar, each field of the query is left to agree at most once, and a
field of the file node itself with the field of the query of the same name. -/
theorem Agree.keys (hbefore : cx.grammar.rulesBefore = []) (hafter : cx.grammar.rulesAfter = [])
    (hquery : (query.fields.map Prod.fst).Nodup) (h : Agree cx file query b found c) :
    (∃ names : List String, names.Nodup ∧ found.queryKeys = names.map ([·])) ∧
      ∀ pair ∈ found.fileKeys.zip found.queryKeys, ∀ name, pair.1 = [name] → pair.2 = [name] := by
  induction h with
  | rule hrule hagrees => simp [hbefore, Rule.first?] at hrule
  | @value file query inner b b₁ c field found hrule hfield hinner h ih =>
      refine ⟨(ih hquery).1, ?_⟩
      rintro ⟨path, key⟩ hpair name hname
      -- the path goes on below the name, so it has more than one step
      obtain ⟨rest, hrest, rfl⟩ := List.mem_map.1 (List.of_mem_zip hpair).1
      have hne := agree_fileKeys_ne_nil hbefore hafter h rest hrest
      exact absurd (List.cons.inj hname).2 hne
  | plain hrule hfield h =>
      obtain ⟨heq, hnames⟩ := h.keys hafter hquery
      refine ⟨hnames, ?_⟩
      rintro ⟨path, key⟩ hpair name hname
      rw [heq, List.zip_eq_zipWith, List.zipWith_self, List.mem_map] at hpair
      obtain ⟨key', -, hkey⟩ := hpair
      obtain ⟨rfl, rfl⟩ := Prod.mk.inj hkey
      exact hname

/-- The pairs of fields that an attempt leaves to agree: different fields of the query, one in each
pair. -/
theorem Attempt.pairs_keys (hbefore : cx.grammar.rulesBefore = [])
    (hafter : cx.grammar.rulesAfter = []) {a : Attempt} (ha : (a.outcome cx).agrees = true)
    (hquery : (a.query.fields.map Prod.fst).Nodup) :
    (∃ names : List String, names.Nodup ∧ (a.pairs cx).map Prod.snd = names.map ([·])) ∧
      ∀ pair ∈ a.pairs cx, ∀ name, pair.1 = [name] → pair.2 = [name] := by
  obtain ⟨hagrees, hlength, -⟩ := Attempt.outcome_eq ha
  obtain ⟨⟨names, hnodup, hnames⟩, hpaths⟩ := (compare_agrees hagrees).keys hbefore hafter hquery
  exact ⟨⟨names, hnodup, (List.map_snd_zip (Nat.le_of_eq hlength)).trans hnames⟩, hpaths⟩

end Keys

/-! ## Lists of the query against more of the file -/

namespace MatchContext

/-- A node is nothing that is looked for in a list of the query: either it is not compared, or no
element matches it, whatever the aliases stand for. -/
def MatchesNone (cx : MatchContext) (query : List Node) (n : Node) : Prop :=
  cx.grammar.isComparable n = true →
    ∀ q ∈ cx.comparable query, ∀ b, (validate cx n q b).agrees = false

/-- **No alias is shared** that stands for nothing yet: none is used in two of the nodes, or in one
of them and among the others. -/
structure NoneShared (cx : MatchContext) (b : Bindings) (nodes : List Node)
    (others : List Alias) : Prop where
  among : ∀ a, b.Unbound a → nodes.Pairwise fun m n => a ∈ cx.aliases m → a ∉ cx.aliases n
  beside : ∀ a, b.Unbound a → a ∈ others → ∀ n ∈ nodes, a ∉ cx.aliases n

theorem NoneShared.others_subset {cx : MatchContext} {b : Bindings} {nodes : List Node}
    {others fewer : List Alias} (h : cx.NoneShared b nodes others) (hsubset : fewer ⊆ others) :
    cx.NoneShared b nodes fewer :=
  ⟨h.among, fun a ha hmem => h.beside a ha (hsubset hmem)⟩

theorem NoneShared.perm {cx : MatchContext} {b : Bindings} {nodes order : List Node}
    {others : List Alias} (h : cx.NoneShared b nodes others) (hperm : order.Perm nodes) :
    cx.NoneShared b order others :=
  ⟨fun a ha => (hperm.pairwise_iff fun hmn hn hm => hmn hm hn).2 (h.among a ha),
    fun a ha hmem n hn => h.beside a ha hmem n (hperm.mem_iff.1 hn)⟩

/-- The aliases in the fields of a node but one. -/
def aliasesBeside (cx : MatchContext) (n : Node) (name : String) : List Alias :=
  (n.fields.filter fun entry => entry.1 != name).flatMap fun entry =>
    cx.aliasesOf entry.2.members

end MatchContext

section Lists

variable {cx : MatchContext}

/-- Elements that claim what they claimed before, though nodes that they do not match have been
inserted among the free ones. -/
theorem claimAll_inserted {v : Validator} {aliases : List Alias} {order free free' : List Placed}
    {b c : Bindings} (hlocal : ∀ q ∈ order, ∀ f, Local aliases fun b => (v f q.2 b).result)
    (hfree : Inserted (fun n => ∀ q ∈ order, ∀ b, (v n q.2 b).agrees = false)
      (free.map Prod.snd) (free'.map Prod.snd))
    (hsame : b.SameOn c aliases) (h : (claimAll v order free b).places.isSome = true) :
    (claimAll v order free' c).places.isSome = true ∧
      (claimAll v order free b).bindings.SameOn (claimAll v order free' c).bindings aliases := by
  induction order generalizing free free' b c with
  | nil => exact ⟨rfl, hsame⟩
  | cons head rest ih =>
      obtain ⟨place, query⟩ := head
      obtain ⟨entry, hentry⟩ := exists_find?_of_claimAll h
      obtain ⟨hhead, hrest⟩ := List.forall_mem_cons.1 hlocal
      -- the two bindings agree on what matches, so the same node is claimed
      have hagrees : (fun e : Placed => (v e.2 query b).agrees) =
          fun e => (v e.2 query c).agrees := by
        funext e
        exact ((hhead e.2).same b c hsame).1
      have hnone : ∀ n, (∀ q ∈ (place, query) :: rest, ∀ b, (v n q.2 b).agrees = false) →
          (v n query c).agrees = false := fun n hn => hn _ List.mem_cons_self c
      have hfind := hfree.find?_eq hnone
      rw [List.find?_map, List.find?_map] at hfind
      obtain ⟨entry', hentry', hnode⟩ : ∃ entry', (free'.find? fun e => (v e.2 query c).agrees) =
          some entry' ∧ entry'.2 = entry.2 := by
        rw [hagrees] at hentry
        refine Option.map_eq_some_iff.1 (hfind.trans ?_)
        rw [Function.comp_def, hentry]
        rfl
      obtain ⟨hplaces, hbindings⟩ := claimAll_of_find? place rest hentry
      obtain ⟨hplaces', hbindings'⟩ := claimAll_of_find? place rest hentry'
      rw [hplaces, Option.isSome_map] at h
      rw [hplaces', Option.isSome_map, hbindings, hbindings', hnode]
      refine ih hrest ?_ ((hhead entry.2).same b c hsame).2 h
      have herase := hfree.eraseP hnone
      rw [List.eraseP_map, List.eraseP_map] at herase
      rw [hagrees]
      exact (herase.mono fun n hn q hq => hn q (List.mem_cons_of_mem _ hq))

/-- Whatever an element matches, it leaves the aliases as they agree that it does not share. -/
theorem sameOn_of_noneShared (hbefore : cx.grammar.rulesBefore = [])
    (hafter : cx.grammar.rulesAfter = []) {query f g : Node} {b c : Bindings}
    {aliases : List Alias} (hshared : ∀ a ∈ aliases, b.Unbound a → a ∉ cx.aliases query)
    (hsame : b.SameOn c aliases) :
    (validate cx f query b).bindings.SameOn (validate cx g query c).bindings aliases := by
  have hgrammar := Grammar.bindsTexts_of_noRules hbefore hafter
  intro a ha
  by_cases hmem : a ∈ cx.aliases query
  · -- an alias of the query that is used elsewhere too has its meaning already
    have hb : ¬ b.Unbound a := fun hunbound => hshared a ha hunbound hmem
    have hc : ¬ c.Unbound a := fun hunbound => hb ((hsame a ha).symm.unbound hunbound)
    exact (((validate_extends hgrammar f query b).keeps.sameAt hb).symm.trans (hsame a ha)).trans
      ((validate_extends hgrammar g query c).keeps.sameAt hc)
  · exact (((validate_local hbefore hafter f query).frame b a hmem).symm.trans (hsame a ha)).trans
      ((validate_local hbefore hafter g query).frame c a hmem)

/-- Elements that share no alias find something to claim among more. -/
theorem claimAll_sublist (hbefore : cx.grammar.rulesBefore = [])
    (hafter : cx.grammar.rulesAfter = []) {others : List Alias} {order free free' : List Placed}
    {b c : Bindings} (hfree : (free.map Prod.snd).Sublist (free'.map Prod.snd))
    (hshared : cx.NoneShared b (order.map Prod.snd) others)
    (hsame : b.SameOn c (cx.aliasesOf (order.map Prod.snd) ++ others))
    (h : (claimAll (validate cx) order free b).places.isSome = true) :
    (claimAll (validate cx) order free' c).places.isSome = true ∧
      (claimAll (validate cx) order free b).bindings.SameOn
        (claimAll (validate cx) order free' c).bindings others := by
  induction order generalizing free free' b c with
  | nil => exact ⟨rfl, hsame.subset (List.subset_append_right _ _)⟩
  | cons head rest ih =>
      obtain ⟨place, query⟩ := head
      obtain ⟨entry, hentry⟩ := exists_find?_of_claimAll h
      have hquery : b.SameOn c (cx.aliases query) := hsame.subset fun a ha =>
        List.mem_append_left _ (List.mem_flatMap.2 ⟨query, List.mem_cons_self, ha⟩)
      have hagrees : (fun e : Placed => (validate cx e.2 query b).agrees) =
          fun e => (validate cx e.2 query c).agrees := by
        funext e
        exact ((validate_local hbefore hafter e.2 query).same b c hquery).1
      -- what is found among the free elements is among the more of them as well
      obtain ⟨entry', hentry'⟩ : ∃ entry',
          (free'.find? fun e => (validate cx e.2 query c).agrees) = some entry' := by
        rw [hagrees] at hentry
        have hmem := hfree.subset (List.mem_map.2 ⟨entry, List.mem_of_find?_eq_some hentry, rfl⟩)
        obtain ⟨e, he, hnode⟩ := List.mem_map.1 hmem
        refine Option.isSome_iff_exists.1 (List.find?_isSome.2 ⟨e, he, ?_⟩)
        have hmatches : (validate cx entry.2 query c).agrees = true :=
          List.find?_some (p := fun e : Placed => (validate cx e.2 query c).agrees) hentry
        rwa [hnode]
      obtain ⟨hplaces, hbindings⟩ := claimAll_of_find? place rest hentry
      obtain ⟨hplaces', hbindings'⟩ := claimAll_of_find? place rest hentry'
      rw [hplaces, Option.isSome_map] at h
      rw [hplaces', Option.isSome_map, hbindings, hbindings']
      have hgrammar := Grammar.bindsTexts_of_noRules hbefore hafter
      have hkeeps := (validate_extends hgrammar entry.2 query b).keeps
      refine ih ?_ ⟨fun a ha => ?_, fun a ha hmem n hn => ?_⟩ ?_ h
      · have herase := hfree.eraseP (p := fun n => (validate cx n query c).agrees)
        rw [List.eraseP_map, List.eraseP_map] at herase
        rw [hagrees]
        exact herase
      · exact (List.pairwise_cons.1 (hshared.among a (hkeeps.unbound ha))).2
      · exact hshared.beside a (hkeeps.unbound ha) hmem n (List.mem_cons_of_mem _ hn)
      · refine sameOn_of_noneShared hbefore hafter (fun a ha hunbound => ?_)
          (hsame.subset (List.append_subset.2 ⟨?_, List.subset_append_right _ _⟩))
        · rcases List.mem_append.1 ha with ha | ha
          · obtain ⟨n, hn, ha⟩ := List.mem_flatMap.1 ha
            exact fun hmem => (List.pairwise_cons.1 (hshared.among a hunbound)).1 n hn hmem ha
          · exact hshared.beside a hunbound ha query List.mem_cons_self
        · intro a ha
          obtain ⟨n, hn, ha⟩ := List.mem_flatMap.1 ha
          exact List.mem_append_left _
            (List.mem_flatMap.2 ⟨n, List.mem_cons_of_mem _ hn, ha⟩)

/-- **Lists that match go on matching with further nodes** in the file's, if these match nothing
that is looked for or no alias is shared. -/
theorem validateList_extra (hbefore : cx.grammar.rulesBefore = [])
    (hafter : cx.grammar.rulesAfter = []) (hmode : cx.config.mode = .contained)
    {file file' query : List Node} {others : List Alias} {b c : Bindings}
    (hfile : file.Sublist file') (hextra : Inserted (cx.MatchesNone query) file file' ∨
      cx.NoneShared b (cx.comparable query) others)
    (hsame : b.SameOn c (cx.aliasesOf query ++ others))
    (h : (validateList cx (validate cx) file query b).agrees = true) :
    (validateList cx (validate cx) file' query c).agrees = true ∧
      (validateList cx (validate cx) file query b).bindings.SameOn
        (validateList cx (validate cx) file' query c).bindings others := by
  rw [validateList_eq] at h
  rw [validateList_eq, validateList_eq]
  obtain ⟨hlength, hclaims, -, hbindings⟩ :=
    validateComparable_contained hmode (validate cx) (Or.inl h)
  have hcomparable : (cx.comparable file).Sublist (cx.comparable file') := hfile.filter _
  have horder : ((choosingOrder cx (cx.comparable query)).map Prod.snd).Perm
      (cx.comparable query) := by
    have hperm := (choosingOrder_perm cx (cx.comparable query)).map Prod.snd
    rwa [placed_snd] at hperm
  have haliases : ∀ q ∈ choosingOrder cx (cx.comparable query),
      cx.aliases q.2 ⊆ cx.aliasesOf query := fun q hq a ha =>
    List.mem_flatMap.2 ⟨q.2, (List.mem_filter.1 (mem_of_mem_choosingOrder hq)).1, ha⟩
  have hclaims' : (claimAll (validate cx) (choosingOrder cx (cx.comparable query))
        (placed (cx.comparable file')) c).places.isSome = true ∧
      (claimAll (validate cx) (choosingOrder cx (cx.comparable query))
        (placed (cx.comparable file)) b).bindings.SameOn
      (claimAll (validate cx) (choosingOrder cx (cx.comparable query))
        (placed (cx.comparable file')) c).bindings others := by
    rcases hextra with hinserted | hshared
    · have hlocal : ∀ q ∈ choosingOrder cx (cx.comparable query), ∀ f,
          Local (cx.aliasesOf query ++ others) fun b => (validate cx f q.2 b).result :=
        fun q hq f => (validate_local hbefore hafter f q.2).mono
          (List.subset_append_of_subset_left others (haliases q hq))
      have hfree : Inserted (fun n => ∀ q ∈ choosingOrder cx (cx.comparable query), ∀ b,
            (validate cx n q.2 b).agrees = false)
          ((placed (cx.comparable file)).map Prod.snd)
          ((placed (cx.comparable file')).map Prod.snd) := by
        rw [placed_snd, placed_snd]
        exact (hinserted.filter cx.grammar.isComparable).mono fun n hn q hq =>
          hn.1 hn.2 q.2 (mem_of_mem_choosingOrder hq)
      obtain ⟨hall, hlast⟩ := claimAll_inserted hlocal hfree hsame hclaims
      exact ⟨hall, hlast.subset (List.subset_append_right _ _)⟩
    · refine claimAll_sublist hbefore hafter ?_ (hshared.perm horder) ?_ hclaims
      · rw [placed_snd, placed_snd]
        exact hcomparable
      · refine hsame.subset (List.append_subset.2 ⟨fun a ha => ?_, List.subset_append_right _ _⟩)
        obtain ⟨q, hq, ha⟩ := List.mem_flatMap.1 ha
        exact List.mem_append_left _ (List.mem_flatMap.2
          ⟨q, (List.mem_filter.1 (horder.mem_iff.1 hq)).1, ha⟩)
  obtain ⟨-, -, hagrees', hbindings'⟩ := validateComparable_contained hmode (validate cx)
    (Or.inr ⟨hlength.trans hcomparable.length_le, hclaims'.1⟩)
  refine ⟨hagrees', ?_⟩
  rw [hbindings, hbindings']
  exact hclaims'.2

end Lists

/-! ## Nodes against nodes with more code -/

section Nodes

variable {cx : MatchContext} {file query : Node} {name : String} {old new : List Node}

/-- A wildcard for subtrees matches every node as long as nothing is bound. -/
theorem agrees_of_isNodeTree (hbefore : cx.grammar.rulesBefore = []) (n : Node) {text : String}
    (hvalue : valueField? cx n.kind query = none) (hname : cx.nameWildcard? query = some text)
    (htree : cx.markers.isNodeTree text = true) :
    (validate cx n query .empty).agrees = true := by
  have hcompare : (compare cx n query .empty).1 = .closed n true := by
    rw [compare_eq]
    simp only [hbefore, Rule.first?, hvalue]
    rw [comparePlain_of_name hname, compareIdentifier_tree htree, MatchContext.matchTree?]
    split
    next => rfl
    next aliasName _ =>
      have hfree : Bindings.empty.tree? aliasName = none := rfl
      rw [Bindings.matchNode?_eq, hfree]
      rfl
  rw [validate_eq, validateFound, hcompare]
  rfl

/-- The aliases in the fields of the query that come later are in its other fields. -/
theorem aliasesAt_subset_beside {key : String} (hkey : key ≠ name) :
    cx.aliasesAt query [key] ⊆ cx.aliasesBeside query name := by
  intro a ha
  rw [MatchContext.aliasesAt, Node.resolve] at ha
  cases hfield : query.field? key with
  | none => simp [hfield] at ha
  | some field =>
      rw [hfield] at ha
      refine List.mem_flatMap.2 ⟨(key, field), List.mem_filter.2 ⟨?_, ?_⟩, ha⟩
      · exact Node.mem_fields_of_field? hfield
      · simpa using hkey

/-- The list itself goes on matching. -/
theorem validatePath_extra (hbefore : cx.grammar.rulesBefore = [])
    (hafter : cx.grammar.rulesAfter = []) (hmode : cx.config.mode = .contained)
    (hfield : file.field? name = some (.nodes old)) (hsublist : old.Sublist new)
    {others : List Alias} {b c : Bindings}
    (hextra : ∀ list, query.field? name = some (.nodes list) →
      Inserted (cx.MatchesNone list) old new ∨ cx.NoneShared b (cx.comparable list) others)
    (hsame : b.SameOn c (cx.aliasesAt query [name] ++ others))
    (h : (validatePath cx (validate cx) file query [name] [name] b).agrees = true) :
    (validatePath cx (validate cx) (file.withList name new) query [name] [name] c).agrees = true ∧
      (validatePath cx (validate cx) file query [name] [name] b).bindings.SameOn
        (validatePath cx (validate cx) (file.withList name new) query [name] [name] c).bindings
        others := by
  simp only [validatePath, Node.resolve, hfield, Node.field?_withList_self] at h ⊢
  cases hlist : query.field? name with
  | none => simp [hlist, Validation.reject] at h
  | some field =>
      cases field with
      | node _ => simp [hlist, Validation.reject] at h
      | token _ => simp [hlist, Validation.reject] at h
      | nodes list =>
          simp only [hlist] at h ⊢
          rw [MatchContext.aliasesAt, Node.resolve, hlist] at hsame
          exact validateList_extra hbefore hafter hmode hsublist (hextra list hlist) hsame h

/-- All other fields go on matching as they did. -/
theorem validatePath_withList_of_ne (hbefore : cx.grammar.rulesBefore = [])
    (hafter : cx.grammar.rulesAfter = []) (hfield : file.field? name = some (.nodes old))
    {path key : FieldPath} (hpath : path ≠ [name]) {others : List Alias} {b c : Bindings}
    (hsame : b.SameOn c (cx.aliasesAt query key ++ others))
    (h : (validatePath cx (validate cx) file query path key b).agrees = true) :
    (validatePath cx (validate cx) (file.withList name new) query path key c).agrees = true ∧
      (validatePath cx (validate cx) file query path key b).bindings.SameOn
        (validatePath cx (validate cx) (file.withList name new) query path key c).bindings
        others := by
  have heq : validatePath cx (validate cx) (file.withList name new) query path key c =
      validatePath cx (validate cx) file query path key c := by
    rw [validatePath, validatePath, Node.resolve_withList hfield hpath]
  have hlocal := (validatePath_local_aliasesAt hbefore hafter file query path key).mono
    (List.subset_append_left _ others)
  obtain ⟨hresult, hafterwards⟩ := hlocal.same b c hsame
  rw [heq]
  exact ⟨hresult.symm.trans h, hafterwards.subset (List.subset_append_right _ _)⟩

/-- The fields that come after a field are others. -/
theorem aliasesAt_later_subset_beside {path : FieldPath} {pairs rest : List (FieldPath × FieldPath)}
    {names : List String} (hnodup : names.Nodup) (hkeys : pairs.map Prod.snd = names.map ([·]))
    (hsuffix : (path, [name]) :: rest <:+ pairs) :
    (rest.flatMap fun pair => cx.aliasesAt query pair.2) ⊆ cx.aliasesBeside query name := by
  intro a ha
  obtain ⟨pair, hmem, ha⟩ := List.mem_flatMap.1 ha
  obtain ⟨other, -, hother⟩ : ∃ other ∈ names, [other] = pair.2 :=
    List.mem_map.1 (hkeys ▸ List.mem_map_of_mem (hsuffix.subset (List.mem_cons_of_mem _ hmem)))
  have hdistinct : (((path, [name]) :: rest).map Prod.snd).Nodup := by
    refine List.Nodup.sublist (hsuffix.sublist.map Prod.snd) ?_
    rw [hkeys]
    exact hnodup.map fun m n hmn => (List.cons.inj hmn).1
  rw [← hother] at ha
  refine aliasesAt_subset_beside ?_ ha
  rintro rfl
  exact (List.nodup_cons.1 hdistinct).1 (List.mem_map.2 ⟨pair, hmem, hother.symm⟩)

/-- **Extra code is ignored.** Without rules of the grammar, where further code is ignored and the
order does not count, a node that matches a query from no bindings still matches it with further
nodes inserted anywhere into one of its lists, if these match nothing that the query looks for
there; or if, when the list is reached, no alias that is unbound yet is shared by two elements of
the query's list or by one of them and another field. -/
theorem agrees_withExtraNodes (hbefore : cx.grammar.rulesBefore = [])
    (hafter : cx.grammar.rulesAfter = []) (hmode : cx.config.mode = .contained)
    (hquery : (query.fields.map Prod.fst).Nodup) (hfield : file.field? name = some (.nodes old))
    (hsublist : old.Sublist new)
    (hextra : ∀ list, query.field? name = some (.nodes list) →
      Inserted (cx.MatchesNone list) old new ∨
        ∀ b, Attempt.Reaches cx ⟨file, query, .empty⟩ ([name], [name]) b →
          cx.NoneShared b (cx.comparable list) (cx.aliasesBeside query name))
    (h : (validate cx file query .empty).agrees = true) :
    (validate cx (file.withList name new) query .empty).agrees = true := by
  by_cases htree : ∃ text, cx.nameWildcard? query = some text ∧
      valueField? cx file.kind query = none ∧ cx.markers.isNodeTree text = true
  · obtain ⟨text, hname, hvalue, hnode⟩ := htree
    exact agrees_of_isNodeTree hbefore _ hvalue hname hnode
  · let a : Attempt := ⟨file, query, .empty⟩
    have hcompare : compare cx (file.withList name new) query .empty =
        (a.found cx, a.compared cx) := by
      refine compare_withList hbefore hafter hfield (fun text hname hvalue => ?_) _
      rw [← Bool.not_eq_true]
      exact fun hnode => htree ⟨text, hname, hvalue, hnode⟩
    obtain ⟨⟨names, hnodup, hkeys⟩, hlistPath⟩ := a.pairs_keys hbefore hafter h hquery
    obtain ⟨hagrees, hlength, houtcome⟩ := Attempt.outcome_eq (a := a) h
    rw [Attempt.outcome] at houtcome
    rw [houtcome] at h
    rw [validate_of_compare hcompare hagrees hlength]
    -- before each pair the two runs agree on the aliases in the fields that are still to come
    let R : List (FieldPath × FieldPath) → Bindings → Bindings → Prop := fun rest b c =>
      (∀ pair d, Reached (fun pair => validatePath cx (validate cx) file query pair.1 pair.2)
        rest b pair d → a.Reaches cx pair d) ∧ rest <:+ a.pairs cx ∧
      b.SameOn c (rest.flatMap fun pair => cx.aliasesAt query pair.2)
    have hstart : R (a.pairs cx) (a.compared cx) (a.compared cx) :=
      ⟨fun _ _ hreached => hreached, List.suffix_rfl, Bindings.SameOn.refl _ _⟩
    refine (inTurn_simulation ?_ hstart h).1
    rintro ⟨path, key⟩ rest b c ⟨hreaches, hsuffix, hsame⟩ hpair
    have hlater : rest <:+ a.pairs cx := (List.suffix_cons _ rest).trans hsuffix
    have hreaches' := fun pair d hreached => hreaches pair d (Reached.tail hreached)
    rw [List.flatMap_cons] at hsame
    by_cases hpath : path = [name]
    · obtain rfl : key = [name] :=
        hlistPath (path, key) (hsuffix.subset List.mem_cons_self) name hpath
      subst hpath
      have hothers : (rest.flatMap fun pair => cx.aliasesAt query pair.2) ⊆
          cx.aliasesBeside query name := aliasesAt_later_subset_beside hnodup hkeys hsuffix
      obtain ⟨hagrees', hsame'⟩ := validatePath_extra hbefore hafter hmode hfield hsublist
        (fun list hlist => (hextra list hlist).imp_right fun hshared =>
          (hshared b (hreaches _ _ (Reached.head _ rest b))).others_subset hothers) hsame hpair
      exact ⟨hagrees', hreaches', hlater, hsame'⟩
    · obtain ⟨hagrees', hsame'⟩ :=
        validatePath_withList_of_ne hbefore hafter hfield hpath hsame hpair
      exact ⟨hagrees', hreaches', hlater, hsame'⟩

end Nodes

/-- Several calls, one after another. -/
def bodyOf (calls : List Node) : Node := (Node.branch "body" .zero).withChildren calls

/-- A call of `f` before the two that are looked for is taken in the place of the one of `f`, as
the arguments of the calls looked for need not be the same. -/
theorem agrees_withExtraNodes_ownArguments :
    (validate ⟨callGrammar, {}, ""⟩ (bodyOf [callOn ["f", "x"], callOn ["g", "x"]])
        (bodyOf [callOn ["f", "$$_a"], callOn ["g", "$$_b"]]) .empty).agrees = true ∧
      (validate ⟨callGrammar, {}, ""⟩
        ((bodyOf [callOn ["f", "x"], callOn ["g", "x"]]).withList childrenField
          [callOn ["f", "y"], callOn ["f", "x"], callOn ["g", "x"]])
        (bodyOf [callOn ["f", "$$_a"], callOn ["g", "$$_b"]]) .empty).agrees = true := by
  have h : (validate ⟨callGrammar, {}, ""⟩ (bodyOf [callOn ["f", "x"], callOn ["g", "x"]])
      (bodyOf [callOn ["f", "$$_a"], callOn ["g", "$$_b"]]) .empty).agrees = true := by
    decide +kernel
  have hfield : (bodyOf [callOn ["f", "x"], callOn ["g", "x"]]).field? childrenField =
      some (.nodes [callOn ["f", "x"], callOn ["g", "x"]]) := rfl
  refine ⟨h, agrees_withExtraNodes rfl rfl rfl (by decide +kernel) hfield
    (List.sublist_cons_self _ _) (fun list hlist => Or.inr fun b _ => ?_) h⟩
  obtain rfl : [callOn ["f", "$$_a"], callOn ["g", "$$_b"]] = list :=
    Field.nodes.inj (Option.some.inj hlist)
  have hf : (⟨callGrammar, {}, ""⟩ : MatchContext).aliases (callOn ["f", "$$_a"]) =
      [.text "a"] := by decide +kernel
  have hg : (⟨callGrammar, {}, ""⟩ : MatchContext).aliases (callOn ["g", "$$_b"]) =
      [.text "b"] := by decide +kernel
  refine ⟨fun a _ => List.pairwise_pair.2 fun ha => ?_, fun a _ ha => ?_⟩
  · rw [hf, List.mem_singleton] at ha
    rw [hg, ha]
    decide
  · have hnone : (⟨callGrammar, {}, ""⟩ : MatchContext).aliasesBeside
        (bodyOf [callOn ["f", "$$_a"], callOn ["g", "$$_b"]]) childrenField = [] := by
      decide +kernel
    simp [hnone] at ha

/-- A call of `f` before the two that are looked for hides them where their arguments have to be
the same: it binds the argument, and no call of `g` has that one. -/
theorem extraNode_hides_match :
    ¬ ∀ (cx : MatchContext) (file query : Node) (name : String) (old new : List Node),
      cx.grammar.rulesBefore = [] → cx.grammar.rulesAfter = [] → cx.config.mode = .contained →
      file.field? name = some (.nodes old) → old.Sublist new →
      (∀ n ∈ new, cx.grammar.isComparable n = true) →
      (validate cx file query .empty).agrees = true →
      (validate cx (file.withList name new) query .empty).agrees = true := by
  intro h
  have hmatches := h ⟨callGrammar, {}, ""⟩ (bodyOf [callOn ["f", "x"], callOn ["g", "x"]])
    (bodyOf [callOn ["f", "$$_a"], callOn ["g", "$$_a"]]) childrenField
    [callOn ["f", "x"], callOn ["g", "x"]]
    [callOn ["f", "y"], callOn ["f", "x"], callOn ["g", "x"]] rfl rfl rfl rfl
    (List.sublist_cons_self _ _) (fun _ _ => rfl) (by decide +kernel)
  exact absurd hmatches (by decide +kernel)

end CodeSearch
