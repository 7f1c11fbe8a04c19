import CodeSearch.Proofs.Soundness

/-!
# Exact matches are equal trees

Where all of the code counts and the query has no wildcards, matching comes down to comparing
trees: not as they are, but in their **normal form**, in which every text is the one that is
compared and lists hold only the nodes that are. So a search without wildcards finds the subtrees
with the normal form of the query, each of them, and nothing else.
-/

set_option autoImplicit false

namespace CodeSearch

/-! ## The normal form of a tree -/

namespace MatchContext

/-- A text in the letters that count. -/
def fold (cx : MatchContext) (text : String) : String :=
  if cx.config.ignoreCase then Text.lowercaseString text else text

/-- Texts agree if they are the same in the letters that count. -/
theorem sameText_iff_fold (cx : MatchContext) {left right : String} :
    Text.sameText cx.config.ignoreCase left right = true ↔ cx.fold left = cx.fold right := by
  cases hcase : cx.config.ignoreCase with
  | false => simp [fold, hcase]
  | true => simp [fold, hcase, Text.sameText_iff, Text.lowercaseString, String.ofList_inj]

mutual

/-- The **normal form** of a tree: all texts as they are compared, and only those elements of
lists that are. -/
def normal (cx : MatchContext) : Node → Node
  | .mk kind text fields span =>
      .mk kind (text.map fun text => cx.fold (cx.grammar.sanitize kind text))
        (normalEntries cx fields) span

/-- The normal form of a field. -/
def normalField (cx : MatchContext) : Field → Field
  | .node child => .node (normal cx child)
  | .nodes children => .nodes (normalList cx children)
  | .token text => .token (cx.fold text)

/-- The normal forms of those trees in a list that are compared. -/
def normalList (cx : MatchContext) : List Node → List Node
  | [] => []
  | node :: rest =>
      if cx.grammar.isComparable node then normal cx node :: normalList cx rest
      else normalList cx rest

/-- The normal forms of several fields. -/
def normalEntries (cx : MatchContext) : List (String × Field) → List (String × Field)
  | [] => []
  | (name, field) :: rest => (name, normalField cx field) :: normalEntries cx rest

end

section

variable {cx : MatchContext}

theorem normalList_eq (nodes : List Node) :
    cx.normalList nodes = (cx.comparable nodes).map cx.normal := by
  induction nodes with
  | nil => rfl
  | cons node rest ih =>
      rw [normalList, comparable, List.filter_cons, ih]
      split <;> rfl

theorem normalEntries_eq (fields : List (String × Field)) :
    cx.normalEntries fields = fields.map fun entry => (entry.1, cx.normalField entry.2) := by
  induction fields with
  | nil => rfl
  | cons entry rest ih => rw [normalEntries, ih, List.map_cons]

@[simp] theorem kind_normal (n : Node) : (cx.normal n).kind = n.kind := by
  cases n
  rw [normal, Node.kind_mk, Node.kind_mk]

theorem text_normal (n : Node) : (cx.normal n).text = (cx.sanitized n).map cx.fold := by
  cases n
  rw [normal, sanitized, Node.text_mk, Node.text_mk, Option.map_map]
  rfl

theorem fields_normal (n : Node) :
    (cx.normal n).fields = n.fields.map fun entry => (entry.1, cx.normalField entry.2) := by
  cases n
  rw [normal, Node.fields_mk, Node.fields_mk, normalEntries_eq]

theorem names_normal (n : Node) :
    (cx.normal n).fields.map Prod.fst = n.fields.map Prod.fst := by
  rw [fields_normal, List.map_map]
  rfl

theorem field?_normal (n : Node) (name : String) :
    (cx.normal n).field? name = (n.field? name).map cx.normalField := by
  rw [Node.field?, Node.field?, fields_normal]
  induction n.fields with
  | nil => rfl
  | cons entry rest ih =>
      obtain ⟨key, field⟩ := entry
      rw [List.map_cons, List.lookup_cons, List.lookup_cons, ih]
      cases name == key <;> rfl

/-- The members of a field in normal form are normal forms of members. -/
theorem exists_of_mem_normalField {field : Field} {m : Node}
    (h : m ∈ (cx.normalField field).members) : ∃ c ∈ field.members, cx.normal c = m := by
  cases field with
  | node child =>
      rw [normalField] at h
      exact ⟨child, List.mem_singleton.2 rfl, (List.mem_singleton.1 h).symm⟩
  | nodes children =>
      rw [normalField, normalList_eq] at h
      obtain ⟨c, hc, rfl⟩ := List.mem_map.1 h
      exact ⟨c, (List.mem_filter.1 hc).1, rfl⟩
  | token text => simp [normalField, Field.members] at h

/-- The names of fields stay distinct in the normal form. -/
theorem namesDistinct_normal {n : Node} (h : n.NamesDistinct) : (cx.normal n).NamesDistinct := by
  induction n using Node.offspring_induction with
  | step n ih =>
      intro m hm
      rcases Node.mem_walk.1 hm with rfl | ⟨c, hc, hm⟩
      · rw [names_normal]
        exact h n (Node.mem_walk_self n)
      · obtain ⟨⟨name, field⟩, hentry, hc⟩ := List.mem_flatMap.1 hc
        rw [fields_normal] at hentry
        obtain ⟨entry, hmem, heq⟩ := List.mem_map.1 hentry
        obtain ⟨-, rfl⟩ := Prod.mk.inj heq
        obtain ⟨d, hd, rfl⟩ := exists_of_mem_normalField hc
        have hoffspring : d ∈ n.offspring := List.mem_flatMap.2 ⟨entry, hmem, hd⟩
        exact ih d hoffspring (h.of_mem_offspring hoffspring) m hm

end

end MatchContext

/-! ## Steps that bind nothing -/

/-- Steps that bind nothing succeed in turn if each does. -/
theorem inTurn_of_pure {steps : List (Bindings → Validation)} {b : Bindings}
    (h : ∀ step ∈ steps, (step b).bindings = b) :
    ((Validation.inTurn steps b).agrees = true ↔ ∀ step ∈ steps, (step b).agrees = true) ∧
      (Validation.inTurn steps b).bindings = b := by
  induction steps with
  | nil => simp [Validation.inTurn, Validation.accept]
  | cons step rest ih =>
      obtain ⟨hstep, hrest⟩ := List.forall_mem_cons.1 h
      obtain ⟨hagrees, hbindings⟩ := ih hrest
      rw [Validation.inTurn, Validation.andThen]
      cases hcase : (step b).agrees with
      | false => simp [hcase, hstep]
      | true =>
          rw [if_pos rfl, hstep]
          exact ⟨by rw [List.forall_mem_cons, hagrees]; simp [hcase], hbindings⟩

/-! ## Key by key -/

section Compare

variable {cx : MatchContext} {file query : Node}

/-- Two nodes that have in common what the comparison key by key asks for agree by it. -/
theorem compareFields_of_agreeByKeys (h : AgreeByKeys cx file query) :
    (compareFields cx file query).agrees = true := by
  unfold compareFields
  dsimp only
  rw [if_neg (by simp [h.kind, h.length])]
  refine List.all_eq_true.2 fun entry hentry => ?_
  obtain ⟨key, hkey, rfl⟩ := List.mem_map.1 hentry
  by_cases htext : key = textKey
  · subst htext
    simp only [compareKey_text (h.keys _ hkey)]
    exact h.text hkey
  · obtain ⟨left, right, hleft, hright, htokens⟩ := h.fields key hkey htext
    simp only [compareKey_field (h.keys key hkey) htext, hleft, hright]
    cases left with
    | node _ => rfl
    | nodes _ => rfl
    | token l =>
        cases right with
        | node _ => rfl
        | nodes _ => rfl
        | token r => exact htokens l r rfl rfl

/-- No node of the tree has a field under the key of texts. -/
def Node.NoTextField (n : Node) : Prop := ∀ m ∈ n.walk, textKey ∉ m.fields.map Prod.fst

instance (n : Node) : Decidable n.NoTextField :=
  inferInstanceAs (Decidable (∀ m ∈ n.walk, textKey ∉ m.fields.map Prod.fst))

theorem mem_keys_of_ne {n : Node} {key : String} (h : key ≠ textKey) :
    key ∈ n.keys ↔ key ∈ n.fields.map Prod.fst := by
  rw [Node.keys, List.mem_append]
  cases n.text <;> simp [h]

theorem textKey_mem_keys {n : Node} (h : textKey ∉ n.fields.map Prod.fst) :
    textKey ∈ n.keys ↔ n.text.isSome = true := by
  rw [Node.keys, List.mem_append]
  cases n.text <;> simp [h]

theorem length_keys (n : Node) :
    n.keys.length = n.fields.length + if n.text.isSome then 1 else 0 := by
  rw [Node.keys, List.length_append, List.length_map]
  cases n.text <;> rfl

/-- Where all keys count and each is there at most once, two nodes that agree key by key have
texts both or neither. -/
theorem AgreeByKeys.isSome_text (h : AgreeByKeys cx file query)
    (hmode : cx.config.mode = .exact) (hnames : (query.fields.map Prod.fst).Nodup)
    (hquery : textKey ∉ query.fields.map Prod.fst) (hfile : textKey ∉ file.fields.map Prod.fst) :
    query.text.isSome = file.text.isSome := by
  have hcounted : countedKeys cx file query = file.keys := by
    rw [countedKeys, hmode]
    rfl
  have hlength := h.length
  have hkeys := h.keys
  rw [hcounted] at hlength hkeys
  rw [length_keys, length_keys] at hlength
  -- the query has no more fields than the file, and no text that the file lacks
  have hfewer : query.fields.length ≤ file.fields.length := by
    have hsubset : query.fields.map Prod.fst ⊆ file.fields.map Prod.fst := by
      intro name hname
      have hne : name ≠ textKey := by
        rintro rfl
        exact hquery hname
      exact (mem_keys_of_ne hne).1 (hkeys name ((mem_keys_of_ne hne).2 hname))
    simpa using (hnames.subperm hsubset).length_le
  cases hq : query.text with
  | some text =>
      have hmem := hkeys textKey ((textKey_mem_keys hquery).2 (by rw [hq]; rfl))
      rw [(textKey_mem_keys hfile).1 hmem]
      rfl
  | none =>
      cases hf : file.text with
      | none => rfl
      | some text =>
          simp only [hq, hf, Option.isSome_none, Option.isSome_some, if_true,
            Bool.false_eq_true, if_false] at hlength
          omega

/-- Key by key two nodes agree just if they are alike in normal form, their children apart. -/
theorem agreeByKeys_iff (hmode : cx.config.mode = .exact) (hkinds : cx.kinds.equivalent = [])
    (hnames : (query.fields.map Prod.fst).Nodup)
    (hquery : textKey ∉ query.fields.map Prod.fst) (hfile : textKey ∉ file.fields.map Prod.fst) :
    AgreeByKeys cx file query ↔
      (cx.normal query).kind = (cx.normal file).kind ∧
      (cx.normal query).text = (cx.normal file).text ∧
      query.fields.length = file.fields.length ∧
      ∀ entry ∈ query.fields, ∃ g, file.field? entry.1 = some g ∧
        ∀ l r, entry.2 = .token l → g = .token r → cx.fold l = cx.fold r := by
  have hcounted : countedKeys cx file query = file.keys := by
    rw [countedKeys, hmode]
    rfl
  have hsameKind : cx.kinds.sameKind query.kind file.kind = true ↔ query.kind = file.kind := by
    simp [NodeKinds.sameKind, hkinds]
  rw [cx.kind_normal, cx.kind_normal, cx.text_normal, cx.text_normal, MatchContext.sanitized,
    MatchContext.sanitized]
  constructor
  · intro h
    have htexts := h.isSome_text hmode hnames hquery hfile
    have hlength := h.length
    rw [hcounted, length_keys, length_keys, htexts] at hlength
    refine ⟨hsameKind.1 h.kind, ?_, by omega, ?_⟩
    · cases hq : query.text with
      | none => cases hf : file.text <;> simp [hq, hf] at htexts ⊢
      | some left =>
          cases hf : file.text with
          | none => simp [hq, hf] at htexts
          | some right =>
              have hsame := h.text ((textKey_mem_keys hquery).2 (by rw [hq]; rfl))
              rw [hq, hf] at hsame
              exact congrArg some (cx.sameText_iff_fold.1 hsame)
    · rintro ⟨name, field⟩ hentry
      have hne : name ≠ textKey := by
        rintro rfl
        exact hquery (List.mem_map.2 ⟨_, hentry, rfl⟩)
      obtain ⟨left, right, hleft, hright, htokens⟩ := h.fields name
        ((mem_keys_of_ne hne).2 (List.mem_map.2 ⟨_, hentry, rfl⟩)) hne
      obtain rfl : left = field :=
        Option.some.inj (hleft.symm.trans (Node.field?_of_mem_fields hnames hentry))
      exact ⟨right, hright, fun l r hl hr => cx.sameText_iff_fold.1 (htokens l r hl hr)⟩
  · rintro ⟨hkind, htext, hlength, hfields⟩
    have htexts : query.text.isSome = file.text.isSome := by
      simpa using congrArg Option.isSome htext
    have hfield : ∀ key ∈ query.keys, key ≠ textKey → ∃ left right,
        query.field? key = some left ∧ file.field? key = some right ∧
          ∀ l r, left = .token l → right = .token r → cx.fold l = cx.fold r := by
      intro key hkey hne
      obtain ⟨⟨_, left⟩, hentry, rfl⟩ := List.mem_map.1 ((mem_keys_of_ne hne).1 hkey)
      obtain ⟨right, hright, htokens⟩ := hfields _ hentry
      exact ⟨left, right, Node.field?_of_mem_fields hnames hentry, hright, htokens⟩
    refine ⟨hsameKind.2 hkind, ?_, ?_, ?_, ?_⟩
    · rw [hcounted, length_keys, length_keys, htexts, hlength]
    · intro key hkey
      rw [hcounted]
      by_cases hne : key = textKey
      · subst hne
        rw [textKey_mem_keys hfile, ← htexts]
        exact (textKey_mem_keys hquery).1 hkey
      · obtain ⟨left, right, -, hright, -⟩ := hfield key hkey hne
        exact (mem_keys_of_ne hne).2
          (List.mem_map.2 ⟨_, Node.mem_fields_of_field? hright, rfl⟩)
    · intro hkey
      have hq := (textKey_mem_keys hquery).1 hkey
      obtain ⟨left, hleft⟩ := Option.isSome_iff_exists.1 hq
      obtain ⟨right, hright⟩ := Option.isSome_iff_exists.1 (htexts ▸ hq)
      rw [hleft, hright] at htext ⊢
      exact cx.sameText_iff_fold.2 (Option.some.inj htext)
    · intro key hkey hne
      obtain ⟨left, right, hleft, hright, htokens⟩ := hfield key hkey hne
      exact ⟨left, right, hleft, hright,
        fun l r hl hr => cx.sameText_iff_fold.2 (htokens l r hl hr)⟩

end Compare

/-! ## Queries without wildcards -/

/-- A query **without wildcards**: no name and no string has one, and no number stands for all. -/
structure MatchContext.WithoutWildcards (cx : MatchContext) (query : Node) : Prop where
  names : ∀ n ∈ query.walk, cx.kinds.isIdentifier n.kind = true → ∀ text ∈ n.text,
    cx.markers.hasWildcard text = false
  strings : ∀ n ∈ query.walk, cx.kinds.isString n.kind = true → ∀ text ∈ n.text,
    cx.markers.hasWildcard (cx.grammar.sanitize n.kind text) = false
  numbers : ∀ n ∈ query.walk, cx.kinds.isNumber n.kind = true → ∀ text ∈ n.text,
    cx.markers.isNumeric text = false

section

variable {cx : MatchContext} {file query : Node}

theorem MatchContext.WithoutWildcards.of_mem_walk (h : cx.WithoutWildcards query) {n : Node}
    (hn : n ∈ query.walk) : cx.WithoutWildcards n :=
  ⟨fun m hm => h.names m (Node.mem_walk_trans hm hn),
    fun m hm => h.strings m (Node.mem_walk_trans hm hn),
    fun m hm => h.numbers m (Node.mem_walk_trans hm hn)⟩

namespace MatchContext.WithoutWildcards

theorem nameWildcard?_eq_none (h : cx.WithoutWildcards query) : cx.nameWildcard? query = none := by
  rw [MatchContext.nameWildcard?]
  split
  next hkind =>
    rw [Option.filter_eq_none_iff]
    intro text htext
    simp [h.names query (Node.mem_walk_self query) hkind text htext]
  next => rfl

theorem stringWildcard?_eq_none (h : cx.WithoutWildcards query) (file : Node) :
    cx.stringWildcard? file query = none := by
  rw [MatchContext.stringWildcard?]
  split
  next hkind =>
    rw [Bool.and_eq_true] at hkind
    rw [Option.filter_eq_none_iff]
    intro sanitized hsanitized
    obtain ⟨text, htext, rfl⟩ := Option.map_eq_some_iff.1 hsanitized
    simp [h.strings query (Node.mem_walk_self query) hkind.1 text htext]
  next => rfl

theorem isAnyNumber_eq_false (h : cx.WithoutWildcards query) : cx.isAnyNumber query = false := by
  rw [MatchContext.isAnyNumber, Bool.and_eq_false_imp]
  intro hkind
  cases htext : query.text with
  | none => rfl
  | some text => exact h.numbers query (Node.mem_walk_self query) hkind text htext

end MatchContext.WithoutWildcards

/-- Without rules and wildcards, where all of the code counts, nodes are compared key by key. -/
theorem compare_eq_compareFields (hbefore : cx.grammar.rulesBefore = [])
    (hafter : cx.grammar.rulesAfter = []) (hmode : cx.config.mode = .exact)
    (hquery : cx.WithoutWildcards query) (hblock : cx.isWholeFile file query = false)
    (b : Bindings) : compare cx file query b = (compareFields cx file query, b) := by
  have hvalue : valueField? cx file.kind query = none := by
    rw [valueField?, hmode]
    rfl
  rw [compare_eq]
  simp only [hbefore, Rule.first?, hvalue]
  rw [comparePlain, compareWildcard?_eq]
  simp only [hquery.nameWildcard?_eq_none, hquery.stringWildcard?_eq_none,
    hquery.isAnyNumber_eq_false, hblock, hafter, Rule.first?, Bool.false_eq_true, if_false]

/-- Lists of normal forms are equal if they are equally long and their elements are in pairs. -/
theorem structEqList_normal_iff {fs qs : List Node} :
    Node.structEqList (qs.map cx.normal) (fs.map cx.normal) = true ↔
      fs.length = qs.length ∧
        ∀ pair ∈ fs.zip qs, (cx.normal pair.2).structEq (cx.normal pair.1) = true := by
  induction qs generalizing fs with
  | nil => cases fs <;> simp [Node.structEqList]
  | cons q qs ih =>
      cases fs with
      | nil => simp [Node.structEqList]
      | cons f fs =>
          rw [List.map_cons, List.map_cons, Node.structEqList, Bool.and_eq_true, ih,
            List.zip_cons_cons, List.forall_mem_cons]
          simp only [List.length_cons, Nat.add_right_cancel_iff]
          exact and_left_comm

/-- The fields left to agree do so if their normal forms are equal, given that this is so for the
nodes in them. -/
theorem validatePath_normal (hmode : cx.config.mode = .exact) {key : String}
    {left right : Field} (hleft : query.field? key = some left)
    (hright : file.field? key = some right)
    (hnodes : left.holdsNodes = true ∨ right.holdsNodes = true) (b : Bindings)
    (ih : ∀ q ∈ left.members, ∀ f ∈ right.members, ∀ b,
      ((validate cx f q b).agrees = true ↔ (cx.normal q).structEq (cx.normal f) = true) ∧
        (validate cx f q b).bindings = b) :
    ((validatePath cx (validate cx) file query [key] [key] b).agrees = true ↔
        (cx.normalField left).structEq (cx.normalField right) = true) ∧
      (validatePath cx (validate cx) file query [key] [key] b).bindings = b := by
  simp only [validatePath, Node.resolve, hleft, hright]
  cases left with
  | token l =>
      cases right with
      | token r => simp [Field.holdsNodes] at hnodes
      | node _ => simp [Validation.reject, MatchContext.normalField, Field.structEq]
      | nodes _ => simp [Validation.reject, MatchContext.normalField, Field.structEq]
  | node q =>
      cases right with
      | token r => simp [Validation.reject, MatchContext.normalField, Field.structEq]
      | nodes _ => simp [Validation.reject, MatchContext.normalField, Field.structEq]
      | node f =>
          rw [MatchContext.normalField, MatchContext.normalField, Field.structEq]
          exact ih q (by simp [Field.members]) f (by simp [Field.members]) b
  | nodes qs =>
      cases right with
      | token r => simp [Validation.reject, MatchContext.normalField, Field.structEq]
      | node _ => simp [Validation.reject, MatchContext.normalField, Field.structEq]
      | nodes fs =>
          rw [MatchContext.normalField, MatchContext.normalField, Field.structEq,
            cx.normalList_eq, cx.normalList_eq, structEqList_normal_iff]
          show ((validateList cx (validate cx) fs qs b).agrees = true ↔ _) ∧
            (validateList cx (validate cx) fs qs b).bindings = b
          rw [validateList_eq, validateComparable_eq, if_pos hmode]
          split
          next hlength =>
            have hpairs : ∀ pair ∈ (cx.comparable fs).zip (cx.comparable qs),
                ((validate cx pair.1 pair.2 b).agrees = true ↔
                  (cx.normal pair.2).structEq (cx.normal pair.1) = true) ∧
                (validate cx pair.1 pair.2 b).bindings = b := fun pair hpair =>
              ih pair.2 (List.mem_filter.1 (List.of_mem_zip hpair).2).1 pair.1
                (List.mem_filter.1 (List.of_mem_zip hpair).1).1 b
            have hpure : ∀ step ∈ ((cx.comparable fs).zip (cx.comparable qs)).map fun pair =>
                validate cx pair.1 pair.2, (step b).bindings = b :=
              List.forall_mem_map.2 fun pair hpair => (hpairs pair hpair).2
            obtain ⟨hagrees, hbindings⟩ := inTurn_of_pure hpure
            refine ⟨?_, hbindings⟩
            rw [hagrees, List.forall_mem_map]
            simp only [hlength, true_and]
            exact forall₂_congr fun pair hpair => (hpairs pair hpair).1
          next hlength => simp [Validation.reject, hlength]

/-- Equality of normal forms, field by field of the query. -/
theorem structEq_normal_iff :
    (cx.normal query).structEq (cx.normal file) = true ↔
      (cx.normal query).kind = (cx.normal file).kind ∧
      (cx.normal query).text = (cx.normal file).text ∧
      query.fields.length = file.fields.length ∧
      ∀ entry ∈ query.fields, ∃ g, file.field? entry.1 = some g ∧
        (cx.normalField entry.2).structEq (cx.normalField g) = true := by
  rw [Node.structEq_iff, cx.fields_normal, cx.fields_normal, List.length_map, List.length_map,
    List.forall_mem_map]
  refine and_congr_right fun _ => and_congr_right fun _ => and_congr_right fun _ =>
    forall₂_congr fun entry _ => ?_
  simp only [cx.field?_normal, Option.map_eq_some_iff]
  constructor
  · rintro ⟨_, ⟨g, hg, rfl⟩, heq⟩
    exact ⟨g, hg, heq⟩
  · rintro ⟨g, hg, heq⟩
    exact ⟨_, ⟨g, hg, rfl⟩, heq⟩

/-- What is asked of a pair of trees for matching them to be comparing their normal forms: in
neither has a node two fields of one name or a field under the key of texts, the query has no
wildcards, and it has no blocks or the file no roots of files. -/
structure MatchContext.ComparesTrees (cx : MatchContext) (file query : Node) : Prop where
  fileNames : file.NamesDistinct
  queryNames : query.NamesDistinct
  fileKeys : file.NoTextField
  queryKeys : query.NoTextField
  wildcards : cx.WithoutWildcards query
  blocks : (∀ n ∈ query.walk, n.kind ≠ cx.kinds.block) ∨
    ∀ n ∈ file.walk, cx.kinds.isProgram n.kind = false

theorem MatchContext.ComparesTrees.of_mem_walk (h : cx.ComparesTrees file query) {f q : Node}
    (hf : f ∈ file.walk) (hq : q ∈ query.walk) : cx.ComparesTrees f q where
  fileNames := h.fileNames.of_mem_walk hf
  queryNames := h.queryNames.of_mem_walk hq
  fileKeys m hm := h.fileKeys m (Node.mem_walk_trans hm hf)
  queryKeys m hm := h.queryKeys m (Node.mem_walk_trans hm hq)
  wildcards := h.wildcards.of_mem_walk hq
  blocks := h.blocks.imp (fun hblock n hn => hblock n (Node.mem_walk_trans hn hq))
    fun hprogram n hn => hprogram n (Node.mem_walk_trans hn hf)

theorem MatchContext.ComparesTrees.isWholeFile (h : cx.ComparesTrees file query) :
    cx.isWholeFile file query = false := by
  rw [MatchContext.isWholeFile, Bool.and_eq_false_iff]
  rcases h.blocks with hblock | hprogram
  · exact Or.inl (beq_false_of_ne (hblock query (Node.mem_walk_self query)))
  · exact Or.inr (hprogram file (Node.mem_walk_self file))

/-- Fields of equal tokens have equal normal forms if those left to agree do. -/
theorem forall_structEq_iff (hquery : (query.fields.map Prod.fst).Nodup)
    (htext : textKey ∉ query.fields.map Prod.fst)
    (hfields : ∀ entry ∈ query.fields, ∃ g, file.field? entry.1 = some g ∧
      ∀ l r, entry.2 = .token l → g = .token r → cx.fold l = cx.fold r) {names : List String}
    (hnames : ∀ key, key ∈ names ↔ key ∈ query.keys ∧ key ≠ textKey ∧ ∃ left right,
      query.field? key = some left ∧ file.field? key = some right ∧
        (left.holdsNodes = true ∨ right.holdsNodes = true)) :
    (∀ name ∈ names, ∀ left right, query.field? name = some left →
        file.field? name = some right →
          (cx.normalField left).structEq (cx.normalField right) = true) ↔
      ∀ entry ∈ query.fields, ∃ g, file.field? entry.1 = some g ∧
        (cx.normalField entry.2).structEq (cx.normalField g) = true := by
  constructor
  · intro hall entry hentry
    obtain ⟨g, hg, htokens⟩ := hfields entry hentry
    have hfield := Node.field?_of_mem_fields hquery hentry
    refine ⟨g, hg, ?_⟩
    by_cases hnodes : entry.2.holdsNodes = true ∨ g.holdsNodes = true
    · have hne : entry.1 ≠ textKey := fun heq => htext (heq ▸ List.mem_map_of_mem hentry)
      have hname : entry.1 ∈ names := (hnames entry.1).2
        ⟨(mem_keys_of_ne hne).2 (List.mem_map_of_mem hentry), hne, entry.2, g, hfield, hg, hnodes⟩
      exact hall entry.1 hname _ _ hfield hg
    · obtain ⟨name, field⟩ := entry
      cases field <;> cases g <;> simp [Field.holdsNodes] at hnodes
      case token.token l r =>
        rw [MatchContext.normalField, MatchContext.normalField, Field.structEq, beq_iff_eq]
        exact htokens l r rfl rfl
  · intro hequal name _ left right hl hr
    obtain ⟨g, hg, hstruct⟩ := hequal _ (Node.mem_fields_of_field? hl)
    obtain rfl := Option.some.inj (hr.symm.trans hg)
    exact hstruct

/-- Fields left to agree do so in turn if they have equal normal forms, and bind nothing. -/
theorem validateNames_normal (hmode : cx.config.mode = .exact) {names : List String}
    (hnames : ∀ key ∈ names, ∃ left right, query.field? key = some left ∧
      file.field? key = some right ∧ (left.holdsNodes = true ∨ right.holdsNodes = true))
    (ih : ∀ q ∈ query.offspring, ∀ f ∈ file.offspring, ∀ b,
      ((validate cx f q b).agrees = true ↔ (cx.normal q).structEq (cx.normal f) = true) ∧
        (validate cx f q b).bindings = b) (b : Bindings) :
    ((Validation.inTurn (names.map fun name =>
          validatePath cx (validate cx) file query [name] [name]) b).agrees = true ↔
        ∀ name ∈ names, ∀ left right, query.field? name = some left →
          file.field? name = some right →
            (cx.normalField left).structEq (cx.normalField right) = true) ∧
      (Validation.inTurn (names.map fun name =>
        validatePath cx (validate cx) file query [name] [name]) b).bindings = b := by
  have hpath : ∀ name ∈ names,
      ((validatePath cx (validate cx) file query [name] [name] b).agrees = true ↔
        ∀ left right, query.field? name = some left → file.field? name = some right →
          (cx.normalField left).structEq (cx.normalField right) = true) ∧
      (validatePath cx (validate cx) file query [name] [name] b).bindings = b := by
    intro name hname
    obtain ⟨left, right, hl, hr, hnodes⟩ := hnames name hname
    obtain ⟨hagrees, hbindings⟩ := validatePath_normal hmode hl hr hnodes b fun q hq f hf =>
      ih q (Node.mem_offspring_of_field? hl hq) f (Node.mem_offspring_of_field? hr hf)
    refine ⟨hagrees.trans ⟨fun heq l r hl' hr' => ?_, fun h => h left right hl hr⟩, hbindings⟩
    obtain rfl := Option.some.inj (hl.symm.trans hl')
    obtain rfl := Option.some.inj (hr.symm.trans hr')
    exact heq
  have hpure : ∀ step ∈ names.map fun name =>
      validatePath cx (validate cx) file query [name] [name], (step b).bindings = b :=
    List.forall_mem_map.2 fun name hname => (hpath name hname).2
  obtain ⟨hturn, hbindings⟩ := inTurn_of_pure hpure
  refine ⟨?_, hbindings⟩
  rw [hturn, List.forall_mem_map]
  exact forall₂_congr fun name hname => (hpath name hname).1

/-- **Matching is comparing normal forms**, and binds nothing. -/
theorem validate_normal (hbefore : cx.grammar.rulesBefore = [])
    (hafter : cx.grammar.rulesAfter = []) (hkinds : cx.kinds.equivalent = [])
    (hmode : cx.config.mode = .exact) (h : cx.ComparesTrees file query) (b : Bindings) :
    ((validate cx file query b).agrees = true ↔
        (cx.normal query).structEq (cx.normal file) = true) ∧
      (validate cx file query b).bindings = b := by
  induction query using Node.height_induction generalizing file b with
  | step query ih =>
      have hcompare := compare_eq_compareFields hbefore hafter hmode h.wildcards h.isWholeFile b
      have hnames := h.queryNames query (Node.mem_walk_self query)
      have htext := h.queryKeys query (Node.mem_walk_self query)
      have hiff := agreeByKeys_iff hmode hkinds hnames htext
        (h.fileKeys file (Node.mem_walk_self file))
      rw [structEq_normal_iff]
      by_cases hagrees : (compareFields cx file query).agrees = true
      · obtain ⟨hkeys, names, hfound, hleft⟩ := compareFields_agrees hagrees
        obtain ⟨hkind, htexts, hlength, hfields⟩ := hiff.1 hkeys
        rw [hfound] at hcompare
        rw [validate_of_compare hcompare rfl rfl]
        have hsteps : ((names.map ([·])).zip (names.map ([·]))).map
              (fun pair : FieldPath × FieldPath =>
                validatePath cx (validate cx) file query pair.1 pair.2) =
            names.map fun name => validatePath cx (validate cx) file query [name] [name] := by
          rw [List.zip_map', List.map_map]
          rfl
        simp only [Comparison.sameFields, hsteps]
        -- what is left to agree is decided by the trees below the two nodes
        obtain ⟨hturn, hbindings⟩ := validateNames_normal hmode
          (fun key hkey => ((hleft key).1 hkey).2.2) (fun q hq f hf c =>
            ih q (Node.height_lt_of_mem_offspring hq) (h.of_mem_walk
              (Node.mem_walk_of_mem_offspring hf (Node.mem_walk_self f))
              (Node.mem_walk_of_mem_offspring hq (Node.mem_walk_self q))) c) b
        refine ⟨hturn.trans ((forall_structEq_iff hnames htext hfields hleft).trans ?_), hbindings⟩
        exact ⟨fun hequal => ⟨hkind, htexts, hlength, hequal⟩, fun hequal => hequal.2.2.2⟩
      · rw [validate_eq, hcompare, validateFound, if_neg hagrees]
        refine ⟨⟨fun hfalse => by simp [Validation.reject] at hfalse, ?_⟩, rfl⟩
        rintro ⟨hkind, htexts, hlength, hequal⟩
        -- equal tokens are all that is missing for the two nodes to agree
        refine absurd (compareFields_of_agreeByKeys (hiff.2 ⟨hkind, htexts, hlength, ?_⟩)) hagrees
        intro entry hentry
        obtain ⟨g, hg, hstruct⟩ := hequal entry hentry
        refine ⟨g, hg, fun l r hl hr => ?_⟩
        rw [hl, hr, MatchContext.normalField, MatchContext.normalField, Field.structEq,
          beq_iff_eq] at hstruct
        exact hstruct

/-- **Exact matches are equal trees.** Where all of the code counts, a query without wildcards
matches just the trees whose normal form is structurally equal to its own, and binds nothing; so a
search finds the subtrees of that normal form, all of them and in their order. -/
theorem exactMatch_iff_structEq_normal (hbefore : cx.grammar.rulesBefore = [])
    (hafter : cx.grammar.rulesAfter = []) (hkinds : cx.kinds.equivalent = [])
    (hmode : cx.config.mode = .exact) (h : cx.ComparesTrees file query) :
    (∀ b, ((validate cx file query b).agrees = true ↔
        (cx.normal file).structEq (cx.normal query) = true) ∧
      (validate cx file query b).bindings = b) ∧
    (traverse cx file query).found =
      ((file.visits []).filter fun visit => (cx.normal visit.2).structEq (cx.normal query)).map
        fun visit => ⟨visit.2, visit.1, .empty⟩ := by
  have hmatch : ∀ n ∈ file.walk, ∀ b, ((validate cx n query b).agrees = true ↔
        (cx.normal n).structEq (cx.normal query) = true) ∧
      (validate cx n query b).bindings = b := by
    intro n hn b
    have hn' := h.of_mem_walk hn (Node.mem_walk_self query)
    obtain ⟨hagrees, hbindings⟩ := validate_normal hbefore hafter hkinds hmode hn' b
    refine ⟨hagrees.trans ⟨?_, ?_⟩, hbindings⟩
    · exact Node.structEq_symm (cx.namesDistinct_normal hn'.queryNames)
    · exact Node.structEq_symm (cx.namesDistinct_normal hn'.fileNames)
  refine ⟨hmatch file (Node.mem_walk_self file), ?_⟩
  rw [found_traverse, ← List.filterMap_eq_map, List.filterMap_filter]
  refine List.filterMap_congr fun visit hvisit => ?_
  obtain ⟨hagrees, hbindings⟩ := hmatch visit.2 (Node.mem_walk_of_visit hvisit) .empty
  rw [foundAt]
  simp only [Attempt.outcome, hbindings, hagrees]
  rfl

end

/-- The calls of names, with comments that do not count. -/
def commentGrammar : Grammar :=
  { callGrammar with isComparable := fun n => n.kind != "comment" }

/-- A file of two calls of one name, one with a comment between its arguments. -/
def commentedFile : Node :=
  (Node.branch "body" .zero).withChildren
    [callOn ["F", "x"],
      (Node.branch "call" .zero).withChildren
        [.leaf "name" "f" .zero, .leaf "comment" "why" .zero, .leaf "name" "X" .zero]]

/-- Both calls are found where neither letter case nor comments count. -/
theorem exactMatch_iff_structEq_normal_comments :
    MatchContext.ComparesTrees ⟨commentGrammar, { mode := .exact, ignoreCase := true }, ""⟩
        commentedFile (callOn ["f", "x"]) ∧
      (traverse ⟨commentGrammar, { mode := .exact, ignoreCase := true }, ""⟩ commentedFile
        (callOn ["f", "x"])).found.map Found.place = [[(0, 0)], [(0, 1)]] := by
  have h : MatchContext.ComparesTrees
      ⟨commentGrammar, { mode := .exact, ignoreCase := true }, ""⟩ commentedFile
      (callOn ["f", "x"]) :=
    { fileNames := by decide
      queryNames := by decide
      fileKeys := by decide
      queryKeys := by decide
      wildcards := ⟨by decide +kernel, by decide +kernel, by decide +kernel⟩
      blocks := by decide +kernel }
  refine ⟨h, ?_⟩
  rw [(exactMatch_iff_structEq_normal rfl rfl rfl rfl h).2]
  decide +kernel

end CodeSearch
