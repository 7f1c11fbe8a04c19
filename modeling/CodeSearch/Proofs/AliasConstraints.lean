import CodeSearch.Proofs.AliasUses

/-!
# Aliases constrain as written

A match checks aliases on the way: the first use of an alias binds it, and each later one is
compared with what it is bound to. Where all of the code counts this comes to no more than what the
aliases say. Two nodes match just if they do with the checks **switched off** and the uses of
aliases that are met then **agree** with each other, two by two: those of one alias have met the
same text, or structurally equal subtrees. So the order in which uses are met does not matter.
-/

set_option autoImplicit false

namespace CodeSearch

/-! ## Matching without the checks -/

namespace MatchContext

/-- What a text with wildcards captures from a value. -/
def captures? (cx : MatchContext) (pattern value : String) : Option (List Capture) :=
  (Pattern.ofText cx.markers pattern).captures? cx.config.ignoreCase value

end MatchContext

/-- **Compares two nodes with the checks of aliases switched off**, by the steps after the one for
default values, and tells the uses that are met: a pattern need only fit, and a wildcard for
subtrees stands for any. -/
def compareFreely (cx : MatchContext) (file query : Node) : Comparison × List AliasUse :=
  match cx.nameWildcard? query, cx.stringWildcard? file query with
  | some name, _ =>
      if cx.markers.isNodeTree name then
        (.closed file true, (cx.treeAlias? name).toList.map (.tree · file))
      else
        let captures? := (cx.fileName? file).bind (cx.captures? name)
        (.sameFields file (captures?.isSome && cx.sameTyping file query) query.childFields,
          (captures?.getD []).map .ofCapture)
  | none, some pattern =>
      let captures? := cx.captures? pattern ((cx.sanitized file).getD "")
      (.closed file captures?.isSome, (captures?.getD []).map .ofCapture)
  -- the other steps do not look at the bindings
  | none, none => ((comparePlain cx file query .empty).1, [])

/-- Matches a file node with a query node that is at most so high, with the checks of aliases
switched off. -/
def matchFreelyUpTo (cx : MatchContext) : Nat → Validator
  | 0 => fun _ _ b => .reject b
  | height + 1 => fun file query b =>
      validateFound cx (matchFreelyUpTo cx height) file query ((compareFreely cx file query).1, b)

/-- **Matching with the checks of aliases switched off.** -/
def matchFreely (cx : MatchContext) : Validator :=
  fun file query b => matchFreelyUpTo cx query.height file query b

/-- The uses of aliases that two fields meet, those of lists element by element. -/
def usesAt (cx : MatchContext) (uses : Node → Node → List AliasUse) (file query : Node)
    (pair : FieldPath × FieldPath) : List AliasUse :=
  match file.resolve pair.1, query.resolve pair.2 with
  | some (.node f), some (.node q) => uses f q
  | some (.nodes fs), some (.nodes qs) =>
      ((cx.comparable fs).zip (cx.comparable qs)).flatMap fun pair => uses pair.1 pair.2
  | _, _ => []

/-- The uses of aliases that a file node meets in a query node that is at most so high. -/
def aliasUsesUpTo (cx : MatchContext) : Nat → Node → Node → List AliasUse
  | 0, _, _ => []
  | height + 1, file, query =>
      let (found, own) := compareFreely cx file query
      own ++ (found.fileKeys.zip found.queryKeys).flatMap
        (usesAt cx (aliasUsesUpTo cx height) file query)

/-- **The uses of aliases** that a file node meets in a query node where all of the code counts. -/
def aliasUses (cx : MatchContext) (file query : Node) : List AliasUse :=
  aliasUsesUpTo cx query.height file query

/-! ## Runs that follow the ones without checks -/

/-- The bindings a match ends with, none if it fails. -/
def Validation.bindings? (v : Validation) : Option Bindings :=
  if v.agrees then some v.bindings else none

theorem Validation.bindings?_andThen (first : Validation) (next : Bindings → Validation) :
    (first.andThen next).bindings? = first.bindings?.bind fun b => (next b).bindings? := by
  rw [andThen, bindings?]
  cases hagrees : first.agrees with
  | false => simp [bindings?, hagrees]
  | true => simp [bindings?, hagrees]

/-- Two results that are related go on to results that are. -/
theorem rel_bind {α β γ δ : Type} {R : α → β → Prop} {S : γ → δ → Prop} {x : Option α}
    {y : Option β} {f : α → Option γ} {g : β → Option δ} (h : Option.Rel R x y)
    (hfg : ∀ a b, x = some a → R a b → Option.Rel S (f a) (g b)) :
    Option.Rel S (x.bind f) (y.bind g) := by
  cases h with
  | none => exact .none
  | some hab => exact hfg _ _ rfl hab

/-- Bindings that are the same, or none on both sides. -/
def SameResult : Option Bindings → Option Bindings → Prop := Option.Rel Bindings.Same

namespace SameResult

theorem isSome {x y : Option Bindings} (h : SameResult x y) : x.isSome = y.isSome := by
  cases h <;> rfl

theorem eq_none {x : Option Bindings} (h : SameResult x none) : x = none := by
  cases h
  rfl

end SameResult

/-- A run **follows** one without checks that leaves the bindings alone, given the uses of aliases
that are met: it succeeds just if that one does and the uses succeed one after another, and it binds
what they do. -/
structure Follows (cx : MatchContext) (run free : Bindings → Validation)
    (uses : List AliasUse) : Prop where
  pure : ∀ c, (free c).bindings = c
  result : ∀ {b d : Bindings}, b.Same d → ∀ c,
    SameResult (run b).bindings? (if (free c).agrees then d.useAll? cx uses else none)

theorem ite_bind (agrees : Bool) (x : Option Bindings) (g : Bindings → Option Bindings) :
    (if agrees then x.bind g else none) = x.bind fun b => if agrees then g b else none := by
  cases agrees <;> simp

namespace Follows

variable {cx : MatchContext} {uses : List AliasUse}

theorem accept : Follows cx .accept .accept [] :=
  ⟨fun _ => rfl, fun h _ => Option.Rel.some h⟩

theorem reject (uses : List AliasUse) : Follows cx .reject .reject uses :=
  ⟨fun _ => rfl, fun _ _ => Option.Rel.none⟩

/-- Steps in turn follow those without checks in turn. -/
theorem inTurn {α : Type} {r s : α → Bindings → Validation} {uses : α → List AliasUse}
    {xs : List α} (h : ∀ x ∈ xs, Follows cx (r x) (s x) (uses x)) :
    Follows cx (Validation.inTurn (xs.map r)) (Validation.inTurn (xs.map s))
      (xs.flatMap uses) := by
  have hpure : ∀ step ∈ xs.map s, ∀ c, (step c).bindings = c :=
    List.forall_mem_map.2 fun x hx => (h x hx).pure
  refine ⟨fun c => (inTurn_of_pure fun step hstep => hpure step hstep c).2, fun {b d} hsame c => ?_⟩
  induction xs generalizing b d with
  | nil => exact Option.Rel.some hsame
  | cons x rest ih =>
      obtain ⟨hx, hrest⟩ := List.forall_mem_cons.1 h
      have hlater := fun {b d} => ih hrest
        (fun step hstep => hpure step (List.mem_cons_of_mem _ hstep)) (b := b) (d := d)
      rw [List.map_cons, Validation.inTurn, Validation.bindings?_andThen, List.flatMap_cons,
        Bindings.useAll?_append, (inTurn_cons (r := s) x rest c).1, hx.pure c]
      have hfirst := hx.result hsame c
      cases hfree : (s x c).agrees with
      | false =>
          rw [hfree] at hfirst
          rw [hfirst.eq_none]
          exact Option.Rel.none
      | true =>
          -- the later steps go on from what the first one and its uses have bound alike
          rw [hfree, if_pos rfl] at hfirst
          rw [Bool.true_and, ite_bind]
          exact rel_bind hfirst fun b d _ hbd => hlater hbd

/-- Lists of comparable nodes, where all of the code counts. -/
theorem validateComparable (hmode : cx.config.mode = .exact) {v w : Validator}
    {uses : Node → Node → List AliasUse} {file query : List Node}
    (h : ∀ f ∈ file, ∀ q ∈ query, Follows cx (v f q) (w f q) (uses f q)) :
    Follows cx (validateComparable cx v file query) (validateComparable cx w file query)
      ((file.zip query).flatMap fun pair => uses pair.1 pair.2) := by
  have heq : ∀ u : Validator, CodeSearch.validateComparable cx u file query =
      if file.length = query.length then
        .inTurn ((file.zip query).map fun pair => u pair.1 pair.2)
      else .reject := by
    intro u
    funext b
    rw [validateComparable_eq, if_pos hmode]
    split <;> rfl
  rw [heq, heq]
  split
  next =>
    exact inTurn (r := fun pair => v pair.1 pair.2) (s := fun pair => w pair.1 pair.2)
      fun pair hpair => h pair.1 (List.of_mem_zip hpair).1 pair.2 (List.of_mem_zip hpair).2
  next => exact reject _

/-- What two paths lead to, where all of the code counts. -/
theorem validatePath (hmode : cx.config.mode = .exact) {v w : Validator}
    {uses : Node → Node → List AliasUse} {file query : Node}
    (h : ∀ q : Node, q.height < query.height → ∀ f, Follows cx (v f q) (w f q) (uses f q))
    (pair : FieldPath × FieldPath) :
    Follows cx (validatePath cx v file query pair.1 pair.2)
      (validatePath cx w file query pair.1 pair.2) (usesAt cx uses file query pair) := by
  unfold CodeSearch.validatePath usesAt
  cases hfile : file.resolve pair.1 with
  | none => exact reject _
  | some left =>
      cases hquery : query.resolve pair.2 with
      | none => cases left <;> exact reject _
      | some right =>
          cases left <;> cases right <;> try exact reject _
          case node.node f q =>
            exact h q (Node.height_lt_of_resolve hquery (by simp [Field.members])) f
          case nodes.nodes fs qs =>
            exact validateComparable hmode fun f (_ : f ∈ cx.comparable fs) q
              (hq : q ∈ cx.comparable qs) =>
                h q (Node.height_lt_of_resolve hquery (List.mem_filter.1 hq).1) f

/-- The fields left to agree, where all of the code counts. -/
theorem validateKeys (hmode : cx.config.mode = .exact) {v w : Validator}
    {uses : Node → Node → List AliasUse} {file query : Node}
    (h : ∀ q : Node, q.height < query.height → ∀ f, Follows cx (v f q) (w f q) (uses f q))
    (found : Comparison) :
    Follows cx (validateKeys cx v file query found) (validateKeys cx w file query found)
      ((found.fileKeys.zip found.queryKeys).flatMap (usesAt cx uses file query)) := by
  have heq : ∀ u : Validator, CodeSearch.validateKeys cx u file query found =
      if found.queryKeys.length = found.fileKeys.length then
        .inTurn ((found.fileKeys.zip found.queryKeys).map fun pair =>
          CodeSearch.validatePath cx u file query pair.1 pair.2)
      else fun b => ⟨false, b, 1⟩ := by
    intro u
    funext b
    rw [validateKeys_eq]
    split <;> rfl
  rw [heq, heq]
  split
  next => exact inTurn fun pair _ => validatePath hmode h pair
  next => exact ⟨fun _ => rfl, fun _ _ => Option.Rel.none⟩

end Follows

/-! ## Comparing follows comparing without the checks -/

section

variable {cx : MatchContext} {b c d : Bindings}

/-- What is new among captures, bound together with what was found before, is what the uses that
they are bind one after another. -/
theorem fresh?_follows {kind : WildcardKind} (hkind : kind ≠ .nodeTree) {captures : List Capture}
    {found : List (String × String)} (hnew : ∀ entry ∈ found, b.text? entry.1 = none)
    (hdistinct : (found.map Prod.fst).Nodup) (hsame : (b.bindTexts kind found).Same d) :
    SameResult ((b.fresh? cx.config.ignoreCase captures found).map (b.bindTexts kind))
      (d.useAll? cx (captures.map .ofCapture)) := by
  induction captures generalizing found d with
  | nil => exact Option.Rel.some hsame
  | cons capture rest ih =>
      have htext : d.text? capture.aliasName =
          (b.text? capture.aliasName).or (found.lookup capture.aliasName) := by
        have hbound : (b.bindTexts kind found).text? capture.aliasName =
            d.text? capture.aliasName := hsame (.text capture.aliasName)
        rw [← hbound, Bindings.text?_bindTexts hkind hnew hdistinct]
        cases hb : b.text? capture.aliasName with
        | none => simp
        | some text => simp [Bindings.lookup_eq_none_of_new hnew hb]
      rw [Bindings.fresh?_cons, List.map_cons, Bindings.useAll?_cons, AliasUse.ofCapture]
      simp only [Bindings.use?, htext]
      cases hbound : (b.text? capture.aliasName).or (found.lookup capture.aliasName) with
      | some bound =>
          cases hcheck : Text.sameText cx.config.ignoreCase bound capture.text with
          | true =>
              simp only [hcheck, if_true, Option.bind_some]
              exact ih hnew hdistinct hsame
          | false =>
              simp only [hcheck, Bool.false_eq_true, if_false]
              exact Option.Rel.none
      | none =>
          obtain ⟨hfree, hlookup⟩ := Option.or_eq_none_iff.1 hbound
          obtain ⟨hnew', hdistinct'⟩ :=
            Bindings.new_concat hnew hdistinct capture.text hfree hlookup
          -- the capture is found now, and its use has bound it
          refine ih hnew' hdistinct' fun a => ?_
          cases a with
          | tree name =>
              have htree : (b.bindTexts kind found).tree? name = d.tree? name :=
                hsame (.tree name)
              show (b.bindTexts kind _).tree? name = (d.bind _ _ _).tree? name
              rw [Bindings.tree?_bindTexts hkind] at htree ⊢
              rw [htree, Bindings.tree?_bind (by decide)]
          | text name =>
              have hname : (b.bindTexts kind found).text? name = d.text? name :=
                hsame (.text name)
              show (b.bindTexts kind _).text? name = (d.bind _ _ _).text? name
              rw [Bindings.text?_bindTexts hkind hnew hdistinct] at hname
              rw [Bindings.text?_bindTexts hkind hnew' hdistinct',
                Bindings.text?_bind (by decide) (htext.trans hbound), ← hname, List.lookup_append]
              by_cases heq : name = capture.aliasName
              · subst heq
                simp [hlookup]
              · have hne : (name == capture.aliasName) = false := beq_false_of_ne heq
                simp [heq, hne]

/-- Matching a text follows fitting the pattern. -/
theorem matchText?_follows (cx : MatchContext) {kind : WildcardKind} (hkind : kind ≠ .nodeTree)
    (hsame : b.Same d) (pattern value : String) :
    SameResult (cx.matchText? pattern value kind b)
      ((cx.captures? pattern value).bind fun captures =>
        d.useAll? cx (captures.map .ofCapture)) := by
  have hmatch : cx.matchText? pattern value kind b =
      (cx.captures? pattern value).bind fun captures =>
        (b.fresh? cx.config.ignoreCase captures []).map (b.bindTexts kind) := by
    rw [MatchContext.matchText?, Bindings.matchText?, MatchContext.captures?]
    cases (Pattern.ofText cx.markers pattern).captures? cx.config.ignoreCase value with
    | none => rfl
    | some captures => cases hfresh : b.fresh? cx.config.ignoreCase captures [] <;> simp [hfresh]
  rw [hmatch]
  cases cx.captures? pattern value with
  | none => exact Option.Rel.none
  | some captures => exact fresh?_follows hkind (by simp) (by simp) hsame

/-- Matching a subtree is a use of its alias. -/
theorem matchNode?_follows (cx : MatchContext) (hsame : b.Same d) (name code : String)
    (node : Node) :
    SameResult (b.matchNode? name code node) (d.use? cx (.tree name node)) := by
  have hbound : b.tree? name = d.tree? name := hsame (.tree name)
  rw [Bindings.use?, Bindings.matchNode?_eq, Bindings.matchNode?_eq, ← hbound]
  cases b.tree? name with
  | some bound =>
      cases hequal : bound.structEq node with
      | true =>
          simp only [hequal, if_true]
          exact Option.Rel.some hsame
      | false =>
          simp only [hequal, Bool.false_eq_true, if_false]
          exact Option.Rel.none
  | none =>
      refine Option.Rel.some fun a => ?_
      cases a with
      | text other => exact hsame (.text other)
      | tree other =>
          have hother : b.tree? other = d.tree? other := hsame (.tree other)
          show (b.bind .nodeTree name _).tree? other = (d.bind .nodeTree name _).tree? other
          rw [Bindings.tree?_bind_nodeTree, Bindings.tree?_bind_nodeTree, hother]

/-- What comes of a comparison: the bindings if the nodes agree. -/
def Comparison.bindings? (compared : Comparison × Bindings) : Option Bindings :=
  if compared.1.agrees then some compared.2 else none

/-- A comparison that agrees if something is bound, and on a condition, comes to what is bound. -/
theorem Comparison.bindings?_getD (found : Bool → Comparison) (condition : Bool)
    (hfound : ∀ agrees, (found agrees).agrees = (agrees && condition)) (bound : Option Bindings) :
    Comparison.bindings? (found bound.isSome, bound.getD b) =
      if condition then bound else none := by
  rw [Comparison.bindings?, hfound]
  cases bound <;> simp

/-- A comparison that hangs on a pattern follows the one that hangs on its captures alone. -/
theorem captures_follow (found : Bool → Comparison) (condition : Bool)
    (hfound : ∀ agrees, (found agrees).agrees = (agrees && condition)) {bound : Option Bindings}
    {captures? : Option (List Capture)} (h : SameResult bound
      (captures?.bind fun captures => d.useAll? cx (captures.map .ofCapture))) :
    SameResult (Comparison.bindings? (found bound.isSome, bound.getD b))
        (if (found captures?.isSome).agrees then
          d.useAll? cx ((captures?.getD []).map .ofCapture) else none) ∧
      ((found bound.isSome).agrees = true → found bound.isSome = found captures?.isSome) := by
  rw [Comparison.bindings?_getD found condition hfound, hfound, hfound]
  cases captures? with
  | none =>
      rw [h.eq_none]
      refine ⟨?_, fun _ => rfl⟩
      cases condition <;> exact Option.Rel.none
  | some captures =>
      cases condition with
      | false => exact ⟨Option.Rel.none, by simp⟩
      | true =>
          refine ⟨h, fun hagrees => ?_⟩
          rw [Bool.and_true] at hagrees
          rw [hagrees]
          rfl

theorem Comparison.agrees_of_bindings? {compared : Comparison × Bindings}
    (h : Comparison.bindings? compared = some b) : compared.1.agrees = true := by
  rw [Comparison.bindings?] at h
  split at h
  next hagrees => exact hagrees
  next => cases h

/-- **Comparing follows comparing without the checks**: two nodes agree just if they do without and
their own uses succeed, and the same fields are left to agree. -/
theorem comparePlain_follows (hafter : cx.grammar.rulesAfter = []) (hsame : b.Same d)
    (file query : Node) :
    SameResult (Comparison.bindings? (comparePlain cx file query b))
        (if (compareFreely cx file query).1.agrees then
          d.useAll? cx (compareFreely cx file query).2 else none) ∧
      ((comparePlain cx file query b).1.agrees = true →
        (comparePlain cx file query b).1 = (compareFreely cx file query).1) := by
  cases hname : cx.nameWildcard? query with
  | some name =>
      rw [comparePlain_of_name hname]
      cases htree : cx.markers.isNodeTree name with
      | true =>
          rw [compareIdentifier_tree htree]
          cases halias : cx.treeAlias? name with
          | none =>
              simp only [compareFreely, hname, htree, halias, if_true, MatchContext.matchTree?]
              exact ⟨Option.Rel.some hsame, fun _ => rfl⟩
          | some aliasName =>
              simp only [compareFreely, hname, htree, halias, if_true, MatchContext.matchTree?]
              rw [Comparison.bindings?_getD (.closed file) true (by simp [Comparison.closed])]
              refine ⟨?_, fun hagrees => congrArg (Comparison.closed file) hagrees⟩
              have huse : d.useAll? cx [.tree aliasName file] =
                  d.use? cx (.tree aliasName file) := by
                simp [Bindings.useAll?]
              rw [if_pos rfl, Option.toList_some, List.map_singleton, huse]
              exact matchNode?_follows cx hsame aliasName (cx.code file) file
      | false =>
          simp only [compareFreely, hname, htree, Bool.false_eq_true, if_false]
          rw [compareIdentifier_name htree]
          refine captures_follow
            (fun matched =>
              .sameFields file (matched && cx.sameTyping file query) query.childFields)
            (cx.sameTyping file query) (fun _ => rfl) ?_
          cases cx.fileName? file with
          | none => exact Option.Rel.none
          | some value => exact matchText?_follows cx (by decide) hsame name value
  | none =>
      cases hstring : cx.stringWildcard? file query with
      | some pattern =>
          simp only [compareFreely, hname, hstring]
          rw [comparePlain_of_string hname hstring]
          exact captures_follow (.closed file) true (by simp [Comparison.closed])
            (matchText?_follows cx (by decide) hsame pattern ((cx.sanitized file).getD ""))
      | none =>
          simp only [compareFreely, hname, hstring,
            comparePlain_of_noWildcard hafter hname hstring, Comparison.bindings?]
          refine ⟨?_, fun _ => trivial⟩
          generalize Comparison.agrees _ = agrees
          cases agrees with
          | true => exact Option.Rel.some hsame
          | false => exact Option.Rel.none

/-! ## Matching follows matching without the checks -/

/-- What comes of going on from a comparison. -/
theorem bindings?_validateFound (v : Validator) (file query : Node)
    (compared : Comparison × Bindings) :
    (validateFound cx v file query compared).bindings? =
      (Comparison.bindings? compared).bind fun c =>
        (validateKeys cx v file query compared.1 c).bindings? := by
  rw [validateFound, Comparison.bindings?]
  cases compared.1.agrees with
  | true => rfl
  | false => rfl

/-- **Matching follows matching without the checks** where all of the code counts. -/
theorem validate_follows (hbefore : cx.grammar.rulesBefore = [])
    (hafter : cx.grammar.rulesAfter = []) (hmode : cx.config.mode = .exact) {height : Nat}
    {query : Node} (hheight : query.height ≤ height) (file : Node) :
    Follows cx (validate cx file query) (matchFreelyUpTo cx height file query)
      (aliasUsesUpTo cx height file query) := by
  induction height generalizing file query with
  | zero => exact absurd query.height_pos (by omega)
  | succ height ih =>
      let found := (compareFreely cx file query).1
      have hlower : ∀ q : Node, q.height < query.height → ∀ f, Follows cx (validate cx f q)
          (matchFreelyUpTo cx height f q) (aliasUsesUpTo cx height f q) :=
        fun q hq f => ih (by omega) f
      have hkeys : Follows cx (validateKeys cx (validate cx) file query found)
          (validateKeys cx (matchFreelyUpTo cx height) file query found)
          ((found.fileKeys.zip found.queryKeys).flatMap
            (usesAt cx (aliasUsesUpTo cx height) file query)) :=
        Follows.validateKeys hmode hlower found
      have hfree : ∀ c, matchFreelyUpTo cx (height + 1) file query c =
          if found.agrees then validateKeys cx (matchFreelyUpTo cx height) file query found c
          else .reject c := fun _ => rfl
      refine ⟨fun c => ?_, fun {b d} hsame c => ?_⟩
      · rw [hfree]
        split
        next => exact hkeys.pure c
        next => rfl
      · obtain ⟨hcompare, hfound⟩ := comparePlain_follows hafter hsame file query
        have hplain : compare cx file query b = comparePlain cx file query b := by
          have hfield : valueField? cx file.kind query = none := by
            rw [valueField?, hmode]
            rfl
          simp only [compare_eq, hbefore, Rule.first?, hfield]
        -- the own uses of the two nodes come first, then those of the fields left to agree
        have hsplit : (if (matchFreelyUpTo cx (height + 1) file query c).agrees then
              d.useAll? cx (aliasUsesUpTo cx (height + 1) file query) else none) =
            (if found.agrees then d.useAll? cx (compareFreely cx file query).2 else none).bind
              fun e =>
                if (validateKeys cx (matchFreelyUpTo cx height) file query found c).agrees then
                  e.useAll? cx ((found.fileKeys.zip found.queryKeys).flatMap
                    (usesAt cx (aliasUsesUpTo cx height) file query)) else none := by
          rw [hfree]
          cases found.agrees with
          | false => simp [Validation.reject]
          | true =>
              simp only [if_true]
              rw [← ite_bind, ← Bindings.useAll?_append]
              rfl
        rw [validate_eq, bindings?_validateFound, hplain, hsplit]
        refine rel_bind hcompare fun b' d' hb' hbd => ?_
        rw [hfound (Comparison.agrees_of_bindings? hb')]
        exact hkeys.result hbd c

/-- The only subtree that a comparison meets is the file node itself. -/
theorem eq_of_mem_compareFreely {file query node : Node} {name : String}
    (h : .tree name node ∈ (compareFreely cx file query).2) : node = file := by
  have hcaptures : ∀ captures : List Capture,
      AliasUse.tree name node ∉ captures.map AliasUse.ofCapture := by
    intro captures hmem
    obtain ⟨capture, -, heq⟩ := List.mem_map.1 hmem
    cases heq
  unfold compareFreely at h
  split at h
  next =>
    split at h
    next =>
      obtain ⟨aliasName, -, heq⟩ := List.mem_map.1 h
      cases heq
      rfl
    next => exact absurd h (hcaptures _)
  next => exact absurd h (hcaptures _)
  next => simp at h

/-- A subtree that is met is one of the file node's. -/
theorem mem_walk_of_mem_aliasUsesUpTo {height : Nat} {file query node : Node} {name : String}
    (h : .tree name node ∈ aliasUsesUpTo cx height file query) : node ∈ file.walk := by
  induction height generalizing file query with
  | zero => simp [aliasUsesUpTo] at h
  | succ height ih =>
      rw [aliasUsesUpTo] at h
      rcases List.mem_append.1 h with hown | hlater
      · rw [eq_of_mem_compareFreely hown]
        exact Node.mem_walk_self file
      · obtain ⟨pair, -, hmem⟩ := List.mem_flatMap.1 hlater
        unfold usesAt at hmem
        split at hmem
        next f q hfile hquery =>
          exact Node.mem_walk_trans (ih hmem)
            (Node.mem_walk_of_resolve hfile (by simp [Field.members]))
        next fs qs hfile hquery =>
          obtain ⟨pair', hpair, hmem⟩ := List.mem_flatMap.1 hmem
          exact Node.mem_walk_trans (ih hmem)
            (Node.mem_walk_of_resolve hfile (List.mem_filter.1 (List.of_mem_zip hpair).1).1)
        next => simp at hmem

/-- A query matches a file from some bindings just if it does without the checks and the uses that
are met succeed one after another. -/
theorem validate_iff_useAll? (hbefore : cx.grammar.rulesBefore = [])
    (hafter : cx.grammar.rulesAfter = []) (hmode : cx.config.mode = .exact) (file query : Node)
    (b c : Bindings) :
    (validate cx file query b).agrees = true ↔
      (matchFreely cx file query c).agrees = true ∧
        (b.useAll? cx (aliasUses cx file query)).isSome = true := by
  have hfollows := validate_follows hbefore hafter hmode (Nat.le_refl query.height) file
  have hsome := (hfollows.result (fun a => Bindings.SameAt.refl b a) c).isSome
  rw [Validation.bindings?] at hsome
  rw [matchFreely, aliasUses]
  cases hmatch : (validate cx file query b).agrees <;>
    cases hfree : (matchFreelyUpTo cx query.height file query c).agrees <;>
    simp_all

theorem namesDistinct_aliasUses {file query : Node} (hfile : file.NamesDistinct) :
    ∀ u ∈ aliasUses cx file query, u.NamesDistinct := by
  intro u hu
  cases u with
  | text name value => trivial
  | tree name node => exact hfile.of_mem_walk (mem_walk_of_mem_aliasUsesUpTo hu)

/-- **Aliases constrain as written** where all of the code counts. Without rules of the grammar, a
query matches a file from no bindings just if it does with the checks of aliases switched off, all
texts captured for one alias are the same, up to letter case if that is ignored, and all subtrees
met by one alias are structurally equal. The order in which uses are met does not matter: whatever
the order, they succeed one after another or not. -/
theorem validate_exact_iff_uses_agree (hbefore : cx.grammar.rulesBefore = [])
    (hafter : cx.grammar.rulesAfter = []) (hmode : cx.config.mode = .exact) {file query : Node}
    (hfile : file.NamesDistinct) :
    ((validate cx file query .empty).agrees = true ↔
      (matchFreely cx file query .empty).agrees = true ∧
        (∀ name left right, .text name left ∈ aliasUses cx file query →
          .text name right ∈ aliasUses cx file query → cx.fold left = cx.fold right) ∧
        ∀ name left right, .tree name left ∈ aliasUses cx file query →
          .tree name right ∈ aliasUses cx file query → left.structEq right = true) ∧
    ∀ order, order.Perm (aliasUses cx file query) →
      ((validate cx file query .empty).agrees = true ↔
        (matchFreely cx file query .empty).agrees = true ∧
          (Bindings.empty.useAll? cx order).isSome = true) := by
  have hiff := validate_iff_useAll? hbefore hafter hmode file query .empty .empty
  have hdistinct : ∀ u ∈ aliasUses cx file query, u.NamesDistinct :=
    namesDistinct_aliasUses hfile
  refine ⟨hiff.trans (and_congr_right fun _ => ?_), fun order horder =>
    hiff.trans (and_congr_right fun _ => ?_)⟩
  · rw [Bindings.useAll?_empty_iff hdistinct]
    constructor
    · exact fun h => ⟨fun name left right hleft hright => h _ hleft _ hright rfl,
        fun name left right hleft hright => h _ hleft _ hright rfl⟩
    · rintro ⟨htexts, htrees⟩ u hu w hw
      cases u <;> cases w
      case text.text =>
        rintro rfl
        exact htexts _ _ _ hu hw
      case tree.tree =>
        rintro rfl
        exact htrees _ _ _ hu hw
      case text.tree => trivial
      case tree.text => trivial
  · -- whether any two uses agree does not depend on their order
    rw [Bindings.useAll?_empty_iff hdistinct,
      Bindings.useAll?_empty_iff fun u hu => hdistinct u (horder.mem_iff.1 hu)]
    simp only [horder.mem_iff]

end

/-- A call on one name twice matches a query that gives both uses the same alias: its uses succeed
from the last to the first. -/
theorem validate_exact_iff_uses_agree_fromTheEnd :
    (callOn ["x", "y", "x"]).NamesDistinct ∧
      (validate ⟨callGrammar, { mode := .exact }, "f(x, y, x)"⟩ (callOn ["x", "y", "x"])
        (callOn ["$$$_a", "$$_b", "$$$_a"]) .empty).agrees = true := by
  have hfile : (callOn ["x", "y", "x"]).NamesDistinct := by decide
  refine ⟨hfile, ?_⟩
  obtain ⟨-, horder⟩ := @validate_exact_iff_uses_agree
    ⟨callGrammar, { mode := .exact }, "f(x, y, x)"⟩ rfl rfl rfl (callOn ["x", "y", "x"])
    (callOn ["$$$_a", "$$_b", "$$$_a"]) hfile
  refine (horder _ (List.reverse_perm _)).2 ⟨?_, ?_⟩
  · decide +kernel
  · decide +kernel

end CodeSearch
