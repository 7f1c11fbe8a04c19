import CodeSearch.Proofs.Displacement
import CodeSearch.Proofs.NormalForm
import Mathlib.Data.Fintype.Card
import Mathlib.Logic.Equiv.Basic

/-!
# Claims that need not be taken back

An element of a query claims the first element of the file that it matches and never gives it
back, so that in general elements may be left without one although there would be enough for all.
Of plain names and `$$$` this is not so: two names match the same elements or have none in common,
and `$$$`, which matches everything, chooses last. So whatever is claimed could be exchanged for
what an assignment of different elements has in its place, and all elements of the query find
something to claim if there is such an assignment.
-/

set_option autoImplicit false

namespace CodeSearch

/-! ## Claims that bind nothing -/

section Exchange

variable {v : Validator} {b : Bindings} {order free : List Placed}

/-- One element of a query is **replaceable** by another that chooses later, starting from some
bindings: where the two match an element, the later one matches whatever the earlier one does. -/
def Replaceable (v : Validator) (b : Bindings) (earlier later : Node) : Prop :=
  ∀ e g : Node, (v e earlier b).agrees = true → (v e later b).agrees = true →
    (v g earlier b).agrees = true → (v g later b).agrees = true

/-- In the order of their places, elements of one place are the same. -/
theorem eq_of_place_eq (hsorted : free.Pairwise fun x y => x.1 < y.1) {x y : Placed}
    (hx : x ∈ free) (hy : y ∈ free) (h : x.1 = y.1) : x = y := by
  have hnodup : (free.map Prod.fst).Nodup :=
    List.pairwise_map.2 (hsorted.imp fun hlt => Nat.ne_of_lt hlt)
  exact List.inj_on_of_nodup_map hnodup hx hy h

/-- Where nothing is bound, what is claimed matches from the bindings at the start. -/
theorem Claimed.agrees_of_pure {query file : Placed} {c : Bindings}
    (h : Claimed v order free b query file c) (hfree : (free.map Prod.fst).Nodup)
    (hpure : ∀ q ∈ order, ∀ f, (v f q.2 b).bindings = b) :
    (v file.2 query.2 b).agrees = true := by
  induction h with
  | @head place found query file rest free free' b c hclaim hfile =>
      obtain ⟨before, claimed, after, rfl, -, hagrees, -⟩ := claim_eq_some hclaim
      have hmem : (found, claimed) ∈ before ++ (found, claimed) :: after := by simp
      obtain rfl : file = claimed :=
        congrArg Prod.snd (List.inj_on_of_nodup_map hfree hfile hmem rfl)
      exact hagrees
  | @tail place found query query' file' rest free free' b c d hclaim h ih =>
      obtain ⟨-, claimed, -, -, -, -, hbindings⟩ := claim_eq_some hclaim
      obtain rfl : b = c := (hpure _ List.mem_cons_self claimed).symm.trans hbindings
      exact ih (hfree.sublist ((claim_sublist hclaim).map _))
        fun q hq => hpure q (List.mem_cons_of_mem _ hq)

/-- Elements that find the first one that matches claim it, if it binds nothing, and the others
choose among the rest. -/
theorem claimAll_isSome_cons {entry : Placed} {place : Nat} {query : Node}
    (hpure : ∀ f, (v f query b).bindings = b)
    (h : (free.find? fun e => (v e.2 query b).agrees) = some entry) :
    (claimAll v ((place, query) :: order) free b).places.isSome =
      (claimAll v order (free.eraseP fun e => (v e.2 query b).agrees) b).places.isSome := by
  rw [(claimAll_of_find? place order h).1, Option.isSome_map, hpure]

open Classical in
/-- **Exchange.** Elements that bind nothing and are each replaceable by those that choose later all
find something to claim if there is a choice of different elements of the file, each of which
matches the one it is chosen for. -/
theorem claimAll_of_choice (choice : Placed → Placed)
    (hsorted : free.Pairwise fun x y => x.1 < y.1)
    (hpure : ∀ q ∈ order, ∀ f, (v f q.2 b).bindings = b)
    (hreplaceable : order.Pairwise fun x y => Replaceable v b x.2 y.2)
    (hapart : order.Pairwise fun x y => choice x ≠ choice y)
    (hchoice : ∀ q ∈ order, choice q ∈ free ∧ (v (choice q).2 q.2 b).agrees = true) :
    (claimAll v order free b).places.isSome = true := by
  induction order generalizing free choice with
  | nil => rfl
  | cons head rest ih =>
      obtain ⟨place, query⟩ := head
      obtain ⟨hpurequery, hpurerest⟩ := List.forall_mem_cons.1 hpure
      obtain ⟨hreplace, hreplacerest⟩ := List.pairwise_cons.1 hreplaceable
      obtain ⟨hne, hapartrest⟩ := List.pairwise_cons.1 hapart
      obtain ⟨⟨hfree, hmatches⟩, hchoicerest⟩ := List.forall_mem_cons.1 hchoice
      obtain ⟨entry, hentryfree, hentry, hclaimed, -⟩ := exists_first
        (p := fun e => (v e.2 query b).agrees) hsorted hfree hmatches
      rw [claimAll_isSome_cons hpurequery hentry]
      -- whichever element had chosen what is claimed now gets what the first one had chosen
      let own := choice (place, query)
      refine ih (fun q => Equiv.swap entry own (choice q))
        (hsorted.sublist List.eraseP_sublist) hpurerest hreplacerest
        (hapartrest.imp fun hxy => (Equiv.swap entry own).injective.ne hxy) fun q hq => ?_
      obtain ⟨hqfree, hqmatches⟩ := hchoicerest q hq
      have hqown : choice q ≠ own := (hne q hq).symm
      rw [mem_eraseP_of_find? hsorted hentry]
      by_cases hqentry : choice q = entry
      · rw [hqentry, Equiv.swap_apply_left]
        rw [hqentry] at hqmatches hqown
        refine ⟨⟨hfree, fun hplace => hqown ?_⟩, ?_⟩
        · exact eq_of_place_eq hsorted hentryfree hfree hplace.symm
        · exact hreplace q hq entry.2 own.2 hclaimed hqmatches hmatches
      · rw [Equiv.swap_apply_of_ne_of_ne hqentry hqown]
        exact ⟨⟨hqfree, fun hplace => hqentry (eq_of_place_eq hsorted hqfree hentryfree hplace)⟩,
          hqmatches⟩

/-- Elements that bind nothing and are each replaceable by those that choose later all find
something to claim just if different elements of the file can be assigned to them that match
them. -/
theorem claimAll_iff_assignment {cx : MatchContext} {file query : List Node}
    (hpure : ∀ q ∈ query, ∀ f, (v f q b).bindings = b)
    (hreplaceable : (choosingOrder cx query).Pairwise fun x y => Replaceable v b x.2 y.2) :
    (claimAll v (choosingOrder cx query) (placed file) b).places.isSome = true ↔
      ∃ place : Fin query.length → Fin file.length, Function.Injective place ∧
        ∀ i, (v (file.get (place i)) (query.get i) b).agrees = true := by
  have hpureorder : ∀ q ∈ choosingOrder cx query, ∀ f, (v f q.2 b).bindings = b :=
    fun q hq => hpure q.2 (mem_of_mem_choosingOrder hq)
  constructor
  · intro h
    obtain ⟨places, hplaces⟩ := Option.isSome_iff_exists.1 h
    obtain ⟨place, hinjective, -, -, hclaimed⟩ := exists_place_of_claimAll hplaces
    refine ⟨place, hinjective, fun i => ?_⟩
    obtain ⟨c, hc⟩ := hclaimed i
    exact hc.agrees_of_pure (placed_fst_nodup file) hpureorder
  · rintro ⟨place, hinjective, hmatches⟩
    -- the element at a place is assigned the one that the assignment places it at
    let choice : Placed → Placed := fun q =>
      if h : q.1 < query.length then ((place ⟨q.1, h⟩ : Nat), file.get (place ⟨q.1, h⟩)) else q
    have hin : ∀ q ∈ choosingOrder cx query, ∃ h : q.1 < query.length, query[q.1] = q.2 := by
      intro q hq
      exact List.getElem?_eq_some_iff.1 (mem_placed.1 ((choosingOrder_perm cx query).mem_iff.1 hq))
    refine claimAll_of_choice choice (placed_pairwise file) hpureorder hreplaceable
      ?_ fun q hq => ?_
    · have hnodup : ((choosingOrder cx query).map Prod.fst).Nodup :=
        (((choosingOrder_perm cx query).map _).nodup_iff).2 (placed_fst_nodup query)
      refine (List.pairwise_map.1 hnodup).imp_of_mem fun {x y} hx hy hne heq => hne ?_
      obtain ⟨hxlt, -⟩ := hin x hx
      obtain ⟨hylt, -⟩ := hin y hy
      have hplace := congrArg Prod.fst heq
      simp only [choice, hxlt, hylt, dif_pos] at hplace
      exact congrArg Fin.val (hinjective (Fin.ext hplace))
    · obtain ⟨hlt, hq⟩ := hin q hq
      simp only [choice, hlt, dif_pos]
      refine ⟨mem_placed.2 ?_, ?_⟩
      · exact List.getElem?_eq_getElem (place ⟨q.1, hlt⟩).isLt
      · rw [← hq]
        exact hmatches ⟨q.1, hlt⟩

end Exchange

/-! ## Plain names and `$$$` -/

namespace MatchContext

/-- A query node that is a **plain name**: a leaf with a name that has no wildcard. -/
structure IsPlainName (cx : MatchContext) (query : Node) : Prop where
  kind : cx.kinds.isIdentifier query.kind = true
  text : ∃ text, query.text = some text ∧ cx.markers.hasWildcard text = false
  fields : query.fields = []

/-- A query node that is the required wildcard without an alias. -/
structure IsAnyTree (cx : MatchContext) (query : Node) : Prop where
  kind : cx.kinds.isIdentifier query.kind = true
  text : query.text = some cx.markers.required
  fields : query.fields = []

/-- Names are neither strings nor numbers. -/
def NamesOnly (cx : MatchContext) : Prop :=
  ∀ kind, cx.kinds.isIdentifier kind = true →
    cx.kinds.isString kind = false ∧ cx.kinds.isNumber kind = false

end MatchContext

namespace Markers

/-- The required wildcard is one wildcard, without an alias. -/
theorem scan_required (m : Markers) : m.scan m.required.toList = [⟨0, 3, 3, none⟩] := by
  have hruns : m.runs m.required.toList = [⟨0, 3⟩] := by
    simp [runs, required, runsFrom, List.replicate]
  rw [scan, hruns]
  simp [required, occurrence, aliasAt?, List.replicate]

theorem hasWildcard_required (m : Markers) : m.hasWildcard m.required = true := by
  rw [hasWildcard, scan_required]
  rfl

theorem isNodeTree_required (m : Markers) : m.isNodeTree m.required = true := by
  rw [isNodeTree, stripAliases, scan_required, beq_iff_eq]
  simp [stripFrom, segment, required, Occurrence.runStop, Occurrence.stop, List.replicate]

theorem aliases_required (m : Markers) :
    (m.classify m.required .identifier).findSome? Wildcard.aliasName = none := by
  rw [classify, scan_required]
  rfl

end Markers

section Names

variable {cx : MatchContext} {file query : Node}

/-- Without rules and default values, two nodes are compared by the steps after them. -/
theorem compare_eq_comparePlain (hbefore : cx.grammar.rulesBefore = [])
    (hdefaults : cx.kinds.defaultValues = []) (b : Bindings) :
    compare cx file query b = comparePlain cx file query b := by
  have hfield : valueField? cx file.kind query = none := by
    simp [valueField?, NodeKinds.defaultValueField?, hdefaults]
  rw [compare_eq, hbefore]
  simp only [Rule.first?, hfield]

namespace MatchContext

theorem IsAnyTree.nameWildcard?_eq (h : cx.IsAnyTree query) :
    cx.nameWildcard? query = some cx.markers.required := by
  rw [nameWildcard?, if_pos h.kind, h.text]
  simp [Markers.hasWildcard_required]

/-- `$$$` matches everything and binds nothing. -/
theorem IsAnyTree.validate_eq (h : cx.IsAnyTree query) (hbefore : cx.grammar.rulesBefore = [])
    (hdefaults : cx.kinds.defaultValues = []) (file : Node) (b : Bindings) :
    validate cx file query b = .accept b := by
  have hagree : AgreePlainly cx file query b (.closed file true) b :=
    AgreePlainly.anyTree h.nameWildcard?_eq cx.markers.isNodeTree_required
      cx.markers.aliases_required
  rw [validate_of_compare ((compare_eq_comparePlain hbefore hdefaults b).trans
    hagree.comparePlain_eq) rfl rfl]
  rfl

theorem IsPlainName.nameWildcard?_eq (h : cx.IsPlainName query) :
    cx.nameWildcard? query = none := by
  obtain ⟨text, htext, hplain⟩ := h.text
  rw [nameWildcard?, if_pos h.kind, htext]
  simp [hplain]

theorem IsPlainName.keys_eq (h : cx.IsPlainName query) : query.keys = [textKey] := by
  obtain ⟨text, htext, -⟩ := h.text
  rw [Node.keys, h.fields, htext]
  rfl

/-- A plain name **names** a node that agrees with it key by key and is no whole file. -/
def Names (cx : MatchContext) (file query : Node) : Prop :=
  cx.isWholeFile file query = false ∧ AgreeByKeys cx file query

/-- A plain name matches what it names, and binds nothing. -/
theorem IsPlainName.validate (h : cx.IsPlainName query) (hbefore : cx.grammar.rulesBefore = [])
    (hafter : cx.grammar.rulesAfter = []) (hdefaults : cx.kinds.defaultValues = [])
    (hnames : cx.NamesOnly) (file : Node) (b : Bindings) :
    ((validate cx file query b).agrees = true ↔ cx.Names file query) ∧
      (validate cx file query b).bindings = b := by
  obtain ⟨hstring, hnumber⟩ := hnames query.kind h.kind
  have hfield : ∀ key, query.field? key = none := fun key => by
    rw [Node.field?, h.fields]
    rfl
  have hcompare : compare cx file query b =
      if cx.isWholeFile file query then (.sameFields file true [childrenField], b)
      else (compareFields cx file query, b) := by
    rw [compare_eq_comparePlain hbefore hdefaults, comparePlain, compareWildcard?_eq,
      h.nameWildcard?_eq]
    have hno : cx.stringWildcard? file query = none := by simp [stringWildcard?, hstring]
    have hany : cx.isAnyNumber query = false := by simp [isAnyNumber, hnumber]
    simp only [hno, hany, Bool.false_eq_true, if_false, hafter, Rule.first?]
    cases cx.isWholeFile file query <;> rfl
  cases hfile : cx.isWholeFile file query with
  | true =>
      -- a whole file has statements to match, which a name has not
      rw [hfile, if_pos rfl] at hcompare
      rw [validate_of_compare hcompare rfl rfl]
      have hreject : validatePath cx (CodeSearch.validate cx) file query [childrenField]
          [childrenField] b = .reject b := by
        unfold validatePath
        split
        next hresolve => simp [Node.resolve, hfield] at hresolve
        next hresolve => simp [Node.resolve, hfield] at hresolve
        next => rfl
      simp [Comparison.sameFields, Validation.inTurn, Validation.andThen, hreject,
        Validation.reject, Names, hfile]
  | false =>
      rw [hfile, if_neg Bool.false_ne_true] at hcompare
      by_cases hagrees : (compareFields cx file query).agrees = true
      · obtain ⟨hkeys, names, hfound, hleft⟩ := compareFields_agrees hagrees
        obtain rfl : names = [] := List.eq_nil_iff_forall_not_mem.2 fun key hkey => by
          obtain ⟨-, -, left, right, hsome, -⟩ := (hleft key).1 hkey
          simp [hfield] at hsome
        rw [hfound] at hcompare
        rw [validate_of_compare hcompare rfl rfl]
        exact ⟨⟨fun _ => ⟨hfile, hkeys⟩, fun _ => rfl⟩, rfl⟩
      · rw [validate_eq, hcompare, validateFound, if_neg hagrees]
        refine ⟨⟨fun hfalse => by simp [Validation.reject] at hfalse, fun hnamed => ?_⟩, rfl⟩
        exact absurd (compareFields_of_agreeByKeys hnamed.2) hagrees

/-- Two plain names that name one node name the same nodes. -/
theorem Names.exchange {e g x y : Node} (hx : cx.IsPlainName x) (hy : cx.IsPlainName y)
    (hkinds : cx.kinds.equivalent = []) (hex : cx.Names e x) (hey : cx.Names e y)
    (hgx : cx.Names g x) : cx.Names g y := by
  have hsame : ∀ {k l : String}, cx.kinds.sameKind k l = true ↔ k = l := by
    simp [NodeKinds.sameKind, hkinds]
  have hxe := hsame.1 hex.2.kind
  have hye := hsame.1 hey.2.kind
  have hxg := hsame.1 hgx.2.kind
  have hkeys : countedKeys cx g y = countedKeys cx g x := by
    simp [countedKeys, hx.keys_eq, hy.keys_eq]
  have htext : ∀ {n : Node}, cx.IsPlainName n → textKey ∈ n.keys := fun hn => by
    rw [hn.keys_eq]
    exact List.mem_singleton_self _
  refine ⟨?_, ?_⟩
  · have hfile := hgx.1
    rw [isWholeFile] at hfile ⊢
    rwa [hye, ← hxe]
  · have hgtext := cx.sameText_iff_fold.1 (hgx.2.text (htext hx))
    have hextext := cx.sameText_iff_fold.1 (hex.2.text (htext hx))
    have heytext := cx.sameText_iff_fold.1 (hey.2.text (htext hy))
    exact
      { kind := hsame.2 (hye.trans (hxe.symm.trans hxg))
        length := by rw [hkeys, hy.keys_eq, ← hx.keys_eq]; exact hgx.2.length
        keys := by rw [hkeys, hy.keys_eq, ← hx.keys_eq]; exact hgx.2.keys
        text := fun _ => cx.sameText_iff_fold.2 (heytext.trans (hextext.symm.trans hgtext))
        fields := fun key hkey hne => by
          rw [hy.keys_eq, List.mem_singleton] at hkey
          exact absurd hkey hne }

theorem IsAnyTree.isTreeWildcard (h : cx.IsAnyTree query) : cx.IsTreeWildcard query := by
  have hname : (if cx.kinds.isIdentifier query.kind then query.text.filter cx.markers.hasWildcard
      else none) = some cx.markers.required := h.nameWildcard?_eq
  rw [IsTreeWildcard, Specificity.ofNode, hname]
  simp [Markers.isNodeTree_required]

theorem IsPlainName.not_isTreeWildcard (h : cx.IsPlainName query) : ¬ cx.IsTreeWildcard query := by
  intro htree
  obtain ⟨text, hname, -⟩ := htree.exists_name
  change cx.nameWildcard? query = some text at hname
  rw [h.nameWildcard?_eq] at hname
  cases hname

end MatchContext

variable {files queries : List Node}

/-- **Greedy claiming is complete** on plain names and `$$$`. Where further code and the order are
ignored, a list of these matches a list of the file just if the elements that are compared can be
assigned different elements of the file which each matches. -/
theorem validateList_iff_assignment (hbefore : cx.grammar.rulesBefore = [])
    (hafter : cx.grammar.rulesAfter = []) (hkinds : cx.kinds.equivalent = [])
    (hdefaults : cx.kinds.defaultValues = []) (hnames : cx.NamesOnly)
    (hmode : cx.config.mode = .contained)
    (hquery : ∀ q ∈ queries, cx.IsPlainName q ∨ cx.IsAnyTree q) (b : Bindings) :
    (validateList cx (validate cx) files queries b).agrees = true ↔
      ∃ place : Fin (cx.comparable queries).length → Fin (cx.comparable files).length,
        Function.Injective place ∧
          ∀ i, (validate cx ((cx.comparable files).get (place i))
            ((cx.comparable queries).get i) b).agrees = true := by
  have hcomparable : ∀ q ∈ cx.comparable queries, cx.IsPlainName q ∨ cx.IsAnyTree q :=
    fun q hq => hquery q (List.mem_filter.1 hq).1
  have hpure : ∀ q ∈ cx.comparable queries, ∀ f, (validate cx f q b).bindings = b := by
    intro q hq f
    rcases hcomparable q hq with hplain | hany
    · exact (hplain.validate hbefore hafter hdefaults hnames f b).2
    · rw [hany.validate_eq hbefore hdefaults f b]
      rfl
  have hreplaceable : (choosingOrder cx (cx.comparable queries)).Pairwise
      fun x y => Replaceable (validate cx) b x.2 y.2 := by
    refine (choosingOrder_pairwise cx _).imp_of_mem fun {x y} hx hy hprecede e g hex hey hgx => ?_
    rcases hcomparable y.2 (mem_of_mem_choosingOrder hy) with hplain | hany
    · -- what chooses before a name is a name
      have hxplain : cx.IsPlainName x.2 := by
        refine (hcomparable x.2 (mem_of_mem_choosingOrder hx)).resolve_right fun hxany => ?_
        exact hplain.not_isTreeWildcard (hxany.isTreeWildcard.of_mayPrecede hprecede)
      have hiff := fun {n} (hn : cx.IsPlainName n) f =>
        (hn.validate hbefore hafter hdefaults hnames f b).1
      exact (hiff hplain g).2 (MatchContext.Names.exchange hxplain hplain hkinds
        ((hiff hxplain e).1 hex) ((hiff hplain e).1 hey) ((hiff hxplain g).1 hgx))
    · rw [hany.validate_eq hbefore hdefaults g b]
      rfl
  rw [validateList_eq, ← claimAll_iff_assignment hpure hreplaceable]
  constructor
  · exact fun h => (validateComparable_contained hmode _ (Or.inl h)).2.1
  · intro h
    obtain ⟨place, hinjective, -⟩ := (claimAll_iff_assignment hpure hreplaceable).1 h
    have hlength : (cx.comparable queries).length ≤ (cx.comparable files).length := by
      simpa using Fintype.card_le_of_injective place hinjective
    exact (validateComparable_contained hmode _ (Or.inr ⟨hlength, h⟩)).2.2.1

end Names

/-- The names of a call. -/
def namesOf (names : List String) : List Node := names.map fun name => .leaf "name" name .zero

/-- A name that is asked for twice claims both of its occurrences, and `$$$` gets the other name
although it stands in front. -/
theorem validateList_iff_assignment_repeatedName :
    ∃ place : Fin (MatchContext.comparable ⟨callGrammar, {}, ""⟩
          (namesOf ["f", "$$$", "f"])).length →
        Fin (MatchContext.comparable ⟨callGrammar, {}, ""⟩ (namesOf ["f", "g", "f"])).length,
      Function.Injective place ∧
        ∀ i, (validate ⟨callGrammar, {}, ""⟩
          ((MatchContext.comparable ⟨callGrammar, {}, ""⟩ (namesOf ["f", "g", "f"])).get (place i))
          ((MatchContext.comparable ⟨callGrammar, {}, ""⟩ (namesOf ["f", "$$$", "f"])).get i)
          .empty).agrees = true := by
  have hquery : ∀ q ∈ namesOf ["f", "$$$", "f"],
      MatchContext.IsPlainName ⟨callGrammar, {}, ""⟩ q ∨
        MatchContext.IsAnyTree ⟨callGrammar, {}, ""⟩ q := by
    have hname : MatchContext.IsPlainName ⟨callGrammar, {}, ""⟩ (.leaf "name" "f" .zero) :=
      ⟨by decide +kernel, ⟨"f", rfl, by decide +kernel⟩, rfl⟩
    have hany : MatchContext.IsAnyTree ⟨callGrammar, {}, ""⟩ (.leaf "name" "$$$" .zero) :=
      ⟨by decide +kernel, by decide +kernel, rfl⟩
    intro q hq
    simp only [namesOf, List.map_cons, List.map_nil, List.mem_cons, List.not_mem_nil,
      or_false] at hq
    rcases hq with rfl | rfl | rfl
    · exact Or.inl hname
    · exact Or.inr hany
    · exact Or.inl hname
  refine (validateList_iff_assignment rfl rfl rfl rfl (fun _ _ => ⟨rfl, rfl⟩) rfl hquery
    .empty).1 ?_
  decide +kernel

end CodeSearch
