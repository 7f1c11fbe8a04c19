import CodeSearch.Proofs.Environment
import CodeSearch.Proofs.NormalForm
import CodeSearch.Proofs.Visits

/-!
# Code that is its own query

A tree without wildcards matches whatever is structurally equal to it, in every mode, and binds
nothing. For lists this holds in spite of the greedy claims: where each element of the query is
matched by the file's element at its own place, the elements choose in the order of the list, and
each finds its own as the first one that is free.
-/

set_option autoImplicit false

namespace CodeSearch

/-! ## Lists of equal elements -/

/-- Steps that all succeed and bind nothing succeed in turn. -/
theorem inTurn_accept {steps : List (Bindings → Validation)} {b : Bindings}
    (h : ∀ step ∈ steps, step b = .accept b) : Validation.inTurn steps b = .accept b := by
  induction steps with
  | nil => rfl
  | cons step rest ih =>
      obtain ⟨hstep, hrest⟩ := List.forall_mem_cons.1 h
      rw [Validation.inTurn, hstep, Validation.andThen]
      simp [Validation.accept, ih hrest]

theorem insertToChoose_of_before {cx : MatchContext} {a : Placed} {order : List Placed}
    (h : ∀ b ∈ order, (Specificity.ofNode cx a.2).before (Specificity.ofNode cx b.2) = true) :
    insertToChoose cx a order = a :: order := by
  cases order with
  | nil => rfl
  | cons b rest => rw [insertToChoose, if_pos (h b List.mem_cons_self)]

/-- Elements without wildcards choose in the order of the list. -/
theorem choosingOrder_eq_placed {cx : MatchContext} {query : List Node}
    (h : ∀ q ∈ query, cx.nameWildcard? q = none) : choosingOrder cx query = placed query := by
  have hplaced : ∀ a ∈ placed query, Specificity.ofNode cx a.2 = ⟨0, 0⟩ := by
    intro a ha
    have hname := h a.2 (List.mem_of_getElem? (mem_placed.1 ha))
    rw [MatchContext.nameWildcard?] at hname
    rw [Specificity.ofNode]
    simp only [hname]
  rw [choosingOrder]
  generalize placed query = entries at hplaced ⊢
  induction entries with
  | nil => rfl
  | cons a rest ih =>
      obtain ⟨ha, hrest⟩ := List.forall_mem_cons.1 hplaced
      rw [List.foldr_cons, ih hrest]
      refine insertToChoose_of_before fun b hb => ?_
      rw [ha, hrest b hb]
      rfl

theorem increasing_range' (start length : Nat) :
    increasing (List.range' start length) = true := by
  induction length generalizing start with
  | zero => rfl
  | succ length ih =>
      cases length with
      | zero => rfl
      | succ length =>
          have hrest := ih (start + 1)
          rw [List.range'_succ] at hrest ⊢
          rw [List.range'_succ, increasing, hrest]
          simp

/-- Elements that claim what stands at their own places do so in order. -/
theorem claimedPlaces_own (length : Nat) :
    claimedPlaces ((List.range' 0 length).map fun place => (place, place)) =
      List.range' 0 length := by
  have hnodup : (((List.range' 0 length).map fun place => (place, place)).map Prod.fst).Nodup := by
    rw [List.map_map]
    show ((List.range' 0 length).map id).Nodup
    rw [List.map_id]
    exact List.nodup_range'
  rw [claimedPlaces, List.length_map, List.length_range', List.range_eq_range']
  refine (List.filterMap_congr fun place hplace => ?_).trans List.filterMap_some
  exact lookup_of_mem_of_nodup hnodup (List.mem_map.2 ⟨place, hplace, rfl⟩)

section Lists

variable {cx : MatchContext} {v : Validator} {b : Bindings} {files queries : List Node}

/-- Each element claims the one at its own place, which is the first that is free. -/
theorem claimAll_own_places (h : List.Forall₂ (fun f q => v f q b = .accept b) files queries)
    (start : Nat) :
    claimAll v ((queries.zipIdx start).map fun (node, place) => (place, node))
        ((files.zipIdx start).map fun (node, place) => (place, node)) b =
      ⟨some ((List.range' start queries.length).map fun place => (place, place)), b, 0⟩ := by
  induction h generalizing start with
  | nil => rfl
  | @cons f q fs qs hhead _ ih =>
      rw [List.zipIdx_cons, List.zipIdx_cons, List.map_cons, List.map_cons, claimAll, claim, hhead]
      simp only [Validation.accept, if_true, ih (start + 1)]
      rw [List.length_cons, List.range'_succ]
      rfl

/-- Lists match where each element of the query matches the one at its own place and binds
nothing. -/
theorem validateComparable_own
    (h : List.Forall₂ (fun f q => v f q b = .accept b) files queries)
    (hnames : ∀ q ∈ queries, cx.nameWildcard? q = none) :
    validateComparable cx v files queries b = .accept b := by
  have hlength := h.length_eq
  rw [validateComparable_eq, if_pos hlength]
  split
  next =>
    refine inTurn_accept fun step hstep => ?_
    obtain ⟨⟨f, q⟩, hpair, rfl⟩ := List.mem_map.1 hstep
    exact (List.forall₂_iff_zip.1 h).2 hpair
  next =>
    rw [if_neg (by omega), choosingOrder_eq_placed hnames, placed, placed, claimAll_own_places h 0]
    simp only [claimedPlaces_own, increasing_range', Bool.or_true]
    rfl

end Lists

/-! ## Equal nodes -/

theorem Node.names_perm_of_structEq {a b : Node} (ha : (a.fields.map Prod.fst).Nodup)
    (h : a.structEq b = true) : (a.fields.map Prod.fst).Perm (b.fields.map Prod.fst) := by
  obtain ⟨-, -, hlength, hfields⟩ := Node.structEq_iff.1 h
  refine Node.names_perm ha hlength fun entry hentry => ?_
  obtain ⟨g, hg, -⟩ := hfields entry hentry
  rw [hg]
  rfl

/-- Structurally equal nodes have structurally equal fields, or none, under each name. -/
theorem Node.rel_field?_of_structEq {a b : Node} (ha : (a.fields.map Prod.fst).Nodup)
    (h : a.structEq b = true) (name : String) :
    Option.Rel (fun f g => f.structEq g = true) (a.field? name) (b.field? name) := by
  obtain ⟨-, -, -, hfields⟩ := Node.structEq_iff.1 h
  cases hfield : a.field? name with
  | some f =>
      obtain ⟨g, hg, hequal⟩ := hfields _ (Node.mem_fields_of_field? hfield)
      rw [hg]
      exact .some hequal
  | none =>
      cases hother : b.field? name with
      | none => exact .none
      | some g =>
          have hname := (Node.names_perm_of_structEq ha h).mem_iff.2
            (List.mem_map.2 ⟨_, Node.mem_fields_of_field? hother, rfl⟩)
          obtain ⟨⟨_, f⟩, hf, rfl⟩ := List.mem_map.1 hname
          rw [Node.field?_of_mem_fields ha hf] at hfield
          exact absurd hfield (by simp)

/-- Structurally equal nodes have structurally equal single children, or none, under each name. -/
theorem Node.rel_child?_of_structEq {a b : Node} (ha : (a.fields.map Prod.fst).Nodup)
    (h : a.structEq b = true) (name : String) :
    Option.Rel (fun c d => c.structEq d = true) (a.child? name) (b.child? name) := by
  have hfield := Node.rel_field?_of_structEq ha h name
  rw [Node.child?, Node.child?]
  generalize a.field? name = left at hfield ⊢
  generalize b.field? name = right at hfield ⊢
  cases hfield with
  | none => exact .none
  | @some f g hfg =>
      cases f <;> cases g <;> simp only [Field.structEq, Bool.false_eq_true] at hfg
      case node.node => exact .some hfg
      case nodes.nodes => exact .none
      case token.token => exact .none

theorem Field.holdsNodes_of_structEq {f g : Field} (h : f.structEq g = true) :
    f.holdsNodes = true ↔ g.holdsNodes = true := by
  cases f <;> cases g <;> simp_all [Field.structEq, Field.holdsNodes]

/-! ## Trees that are taken literally -/

/-- A rule **spares** a file node and a query node if it leaves them alone or accepts them, leaves
nothing below them to agree and binds nothing. -/
def Rule.Spares (rule : Rule) (config : MatchSettings) (file query : Node) : Prop :=
  ∀ b, rule config file query b = (none, b) ∨ rule config file query b = (some (.accept []), b)

/-- A tree is **taken literally** if nothing in it asks for anything but what is equal to it: it
has no wildcards, its whole files have children, and the rules spare its nodes and what is equal to
them. -/
structure MatchContext.TakesLiterally (cx : MatchContext) (n : Node) : Prop where
  distinct : n.NamesDistinct
  texts : cx.WithoutWildcards n
  files : ∀ m ∈ n.walk, cx.isWholeFile m m = true →
    ∃ f, m.field? childrenField = some f ∧ f.holdsNodes = true
  rules : ∀ m ∈ n.walk, ∀ q : Node, m.structEq q = true →
    ∀ rule ∈ cx.grammar.rulesBefore ++ cx.grammar.rulesAfter, rule.Spares cx.config m q
  comparable : ∀ a b : Node, a.kind = b.kind → a.text = b.text →
    cx.grammar.isComparable a = cx.grammar.isComparable b
  defaults : ∀ kind, cx.kinds.isIdentifier kind = true → cx.kinds.defaultValueField? kind = none

section Literal

variable {cx : MatchContext} {n q : Node}

theorem MatchContext.TakesLiterally.of_mem_walk (h : cx.TakesLiterally n) {m : Node}
    (hm : m ∈ n.walk) : cx.TakesLiterally m where
  distinct := h.distinct.of_mem_walk hm
  texts := h.texts.of_mem_walk hm
  files l hl := h.files l (Node.mem_walk_trans hl hm)
  rules l hl := h.rules l (Node.mem_walk_trans hl hm)
  comparable := h.comparable
  defaults := h.defaults

/-- Rules that spare a pair of nodes one by one do so together. -/
theorem Rule.first?_of_spares {config : MatchSettings} {file query : Node} {rules : List Rule}
    (h : ∀ rule ∈ rules, rule.Spares config file query) (b : Bindings) :
    Rule.first? config file query rules b = (none, b) ∨
      Rule.first? config file query rules b = (some (.accept []), b) := by
  induction rules with
  | nil => exact Or.inl rfl
  | cons rule rest ih =>
      obtain ⟨hrule, hrest⟩ := List.forall_mem_cons.1 h
      rw [Rule.first?]
      rcases hrule b with hrule | hrule
      · simpa only [hrule] using ih hrest
      · exact Or.inr (by rw [hrule])

/-- Structurally equal nodes agree key by key. -/
theorem agreeByKeys_of_structEq (hn : (n.fields.map Prod.fst).Nodup) (h : n.structEq q = true) :
    AgreeByKeys cx n q := by
  obtain ⟨hkind, htext, -, hfields⟩ := Node.structEq_iff.1 h
  have hkeys : n.keys.Perm q.keys := by
    rw [Node.keys, Node.keys, htext]
    exact (Node.names_perm_of_structEq hn h).append_right _
  have hcounted : countedKeys cx n q = n.keys := by
    rw [countedKeys]
    split
    next =>
      refine List.filter_eq_self.2 fun key hkey => ?_
      rw [List.contains_iff_mem.2 (hkeys.mem_iff.1 hkey), Bool.true_or]
    next => rfl
  refine ⟨?_, ?_, fun key hkey => ?_, fun _ => ?_, fun key hkey hne => ?_⟩
  · rw [hkind]
    exact cx.kinds.sameKind_refl q.kind
  · rw [hcounted, hkeys.length_eq]
  · rw [hcounted]
    exact hkeys.mem_iff.2 hkey
  · rw [hkind, htext]
    exact Text.sameText_refl _ _
  · have hname := (mem_keys_of_ne hne).1 (hkeys.mem_iff.2 hkey)
    obtain ⟨⟨_, f⟩, hf, rfl⟩ := List.mem_map.1 hname
    obtain ⟨g, hg, hequal⟩ := hfields _ hf
    refine ⟨g, f, hg, Node.field?_of_mem_fields hn hf, ?_⟩
    rintro l r rfl rfl
    rw [Field.structEq, beq_iff_eq] at hequal
    rw [hequal]
    exact Text.sameText_refl _ _

/-- The steps for wildcards pass over structurally equal nodes that have none, but for whole files,
whose children are left to agree. -/
theorem compareWildcard?_of_structEq (hn : cx.TakesLiterally n) (h : n.structEq q = true)
    (b : Bindings) :
    compareWildcard? cx n q b =
      if cx.isWholeFile n n then some (.sameFields n true [childrenField], b) else none := by
  obtain ⟨hkind, htext, -⟩ := Node.structEq_iff.1 h
  -- what these steps read of the query, its equal has too
  have hname : cx.nameWildcard? q = cx.nameWildcard? n := by
    simp only [MatchContext.nameWildcard?, hkind, htext]
  have hstring : cx.stringWildcard? n q = cx.stringWildcard? n n := by
    simp only [MatchContext.stringWildcard?, hkind, htext]
  have hnumber : cx.isAnyNumber q = cx.isAnyNumber n := by
    simp only [MatchContext.isAnyNumber, hkind, htext]
  have hfile : cx.isWholeFile n q = cx.isWholeFile n n := by
    simp only [MatchContext.isWholeFile, hkind]
  rw [compareWildcard?_eq, hname, hstring, hnumber, hfile, hn.texts.nameWildcard?_eq_none,
    hn.texts.stringWildcard?_eq_none, hn.texts.isAnyNumber_eq_false]
  rfl

/-- The comparison of structurally equal nodes leaves nothing to agree but equal fields of both. -/
theorem compare_of_structEq (hn : cx.TakesLiterally n) (h : n.structEq q = true) (b : Bindings) :
    ∃ names, compare cx n q b = (.sameFields n true names, b) ∧
      ∀ name ∈ names, ∃ f g, n.field? name = some f ∧ q.field? name = some g ∧
        f.structEq g = true ∧ f.holdsNodes = true := by
  have hself := Node.mem_walk_self n
  have hnames := hn.distinct n hself
  obtain ⟨hkind, -, -, hfields⟩ := Node.structEq_iff.1 h
  have hrules : ∀ rules ⊆ cx.grammar.rulesBefore ++ cx.grammar.rulesAfter,
      Rule.first? cx.config n q rules b = (none, b) ∨
        Rule.first? cx.config n q rules b = (some (.accept []), b) := fun rules hrules =>
    Rule.first?_of_spares (fun rule hrule => hn.rules n hself q h rule (hrules hrule)) b
  have hvalue : valueField? cx n.kind q = none := by
    rw [valueField?]
    split
    next hidentifier =>
      rw [Bool.and_eq_true, ← hkind] at hidentifier
      exact hn.defaults n.kind hidentifier.2
    next => rfl
  have hwildcard := compareWildcard?_of_structEq hn h b
  rw [compare_eq]
  rcases hrules _ (List.subset_append_left _ _) with hbefore | hbefore
  · simp only [hbefore, hvalue, comparePlain, hwildcard]
    cases hfile : cx.isWholeFile n n with
    | true =>
        refine ⟨[childrenField], by simp, fun name hname => ?_⟩
        obtain ⟨f, hf, hnodes⟩ := hn.files n hself hfile
        obtain ⟨g, hg, hequal⟩ := hfields _ (Node.mem_fields_of_field? hf)
        rw [List.mem_singleton.1 hname]
        exact ⟨f, g, hf, hg, hequal, hnodes⟩
    | false =>
        simp only [Bool.false_eq_true, if_false]
        rcases hrules _ (List.subset_append_right _ _) with hafter | hafter
        · have hkeys : AgreeByKeys cx n q := agreeByKeys_of_structEq hnames h
          have hagrees := compareFields_of_agreeByKeys hkeys
          obtain ⟨-, names, hcompared, hleft⟩ := compareFields_agrees hagrees
          refine ⟨names, by rw [hafter, hcompared], fun name hname => ?_⟩
          obtain ⟨-, -, g, f, hg, hf, hnodes⟩ := (hleft name).1 hname
          obtain ⟨g', hg', hequal⟩ := hfields _ (Node.mem_fields_of_field? hf)
          obtain rfl := Option.some.inj (hg.symm.trans hg')
          exact ⟨f, g, hf, hg, hequal, hnodes.elim (Field.holdsNodes_of_structEq hequal).2 id⟩
        · exact ⟨[], by rw [hafter]; rfl, fun name hname => absurd hname List.not_mem_nil⟩
  · exact ⟨[], by rw [hbefore]; rfl, fun name hname => absurd hname List.not_mem_nil⟩

/-- In lists of equal elements, those that are compared are equal in pairs, and have no
wildcards. -/
theorem forall₂_comparable {files queries : List Node} (hfiles : ∀ f ∈ files, cx.TakesLiterally f)
    (h : Node.structEqList files queries = true) :
    List.Forall₂ (fun f q => f ∈ files ∧ f.structEq q = true) (cx.comparable files)
        (cx.comparable queries) ∧
      ∀ q ∈ cx.comparable queries, cx.nameWildcard? q = none := by
  induction files generalizing queries with
  | nil =>
      cases queries with
      | nil => exact ⟨.nil, by simp [MatchContext.comparable]⟩
      | cons _ _ => simp [Node.structEqList] at h
  | cons f files ih =>
      cases queries with
      | nil => simp [Node.structEqList] at h
      | cons q queries =>
          obtain ⟨hf, hfiles⟩ := List.forall_mem_cons.1 hfiles
          rw [Node.structEqList, Bool.and_eq_true] at h
          obtain ⟨hpairs, hnames⟩ := ih hfiles h.2
          obtain ⟨hkind, htext, -⟩ := Node.structEq_iff.1 h.1
          have hrest := hpairs.imp fun _ _ hpair => And.imp_left (List.mem_cons_of_mem f) hpair
          have hname : cx.nameWildcard? q = none := by
            rw [MatchContext.nameWildcard?, ← hkind, ← htext]
            exact hf.texts.nameWildcard?_eq_none
          rw [MatchContext.comparable, MatchContext.comparable, List.filter_cons, List.filter_cons,
            ← hf.comparable f q hkind htext]
          split
          next =>
            exact ⟨.cons ⟨List.mem_cons_self, h.1⟩ hrest, List.forall_mem_cons.2 ⟨hname, hnames⟩⟩
          next => exact ⟨hrest, hnames⟩

/-- **What is taken literally matches whatever is equal to it**, and binds nothing. -/
theorem validate_of_structEq (hn : cx.TakesLiterally n) (h : n.structEq q = true) (b : Bindings) :
    validate cx n q b = .accept b := by
  induction n using Node.offspring_induction generalizing q with
  | step n ih =>
      obtain ⟨names, hcompare, hnames⟩ := compare_of_structEq hn h b
      have hkeys : ∀ name ∈ names, validatePath cx (validate cx) n q [name] [name] b =
          .accept b := by
        intro name hname
        obtain ⟨f, g, hf, hg, hequal, hnodes⟩ := hnames name hname
        have hmembers : ∀ c ∈ f.members, c ∈ n.offspring := fun c hc =>
          Node.mem_offspring_of_field? hf hc
        have hbelow : ∀ c ∈ f.members, cx.TakesLiterally c := fun c hc =>
          hn.of_mem_walk (Node.mem_walk_of_mem_offspring (hmembers c hc) (Node.mem_walk_self c))
        rw [validatePath, Node.resolve, Node.resolve, hf, hg]
        cases f <;> cases g <;> simp only [Field.structEq, Bool.false_eq_true] at hequal
        case node.node c d =>
            have hc := List.mem_singleton.2 (rfl : c = c)
            exact ih c (hmembers c hc) (hbelow c hc) hequal
        case nodes.nodes files queries =>
            obtain ⟨hpairs, hwildcards⟩ := forall₂_comparable hbelow hequal
            refine validateComparable_own (hpairs.imp fun c d hpair => ?_) hwildcards
            exact ih c (hmembers c hpair.1) (hbelow c hpair.1) hpair.2
        case token.token => simp [Field.holdsNodes] at hnodes
      rw [validate_eq, hcompare, validateFound, validateKeys_eq]
      simp only [Comparison.sameFields, List.length_map, if_true]
      refine inTurn_accept fun step hstep => ?_
      rw [List.zip_map', List.map_map] at hstep
      obtain ⟨name, hname, rfl⟩ := List.mem_map.1 hstep
      exact hkeys name hname

/-- A query that is equal to something taken literally in a tree is found there, with no
bindings. -/
theorem mem_found_of_structEq {root : Node} {place : Place} (hn : cx.TakesLiterally n)
    (h : n.structEq q = true) (hplace : (place, n) ∈ root.visits []) :
    ⟨n, place, .empty⟩ ∈ (traverse cx root q).found := by
  have houtcome : Attempt.outcome cx ⟨n, q, .empty⟩ = .accept .empty :=
    validate_of_structEq hn h .empty
  rw [found_traverse]
  refine List.mem_filterMap.2 ⟨(place, n), hplace, foundAt_eq_some.2 ?_⟩
  rw [houtcome]
  exact ⟨rfl, rfl⟩

end Literal

end CodeSearch
