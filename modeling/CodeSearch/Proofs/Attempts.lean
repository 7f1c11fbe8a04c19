import CodeSearch.Matching.Traversal
import CodeSearch.Proofs.Claims

/-!
# The attempts of a match

Matching is a tree of **attempts**: an attempt to match a query node with a file node compares
the two and leads to attempts on the fields that were left to agree. This file tells which
attempts a successful one leads to, that they succeed too, that bindings grow from the attempt to
those it leads to and on to its end, and that every pair of fields left to agree is met by
attempts in the way the mode demands.
-/

set_option autoImplicit false

namespace CodeSearch

/-! ## Validators that agree on the elements of a query -/

section Congruence

variable {cx : MatchContext} {v w : Validator}

theorem claim_congr {query : Node} (h : ∀ file b, v file query b = w file query b) (b : Bindings)
    (free : List Placed) : claim v query b free = claim w query b free := by
  induction free with
  | nil => rfl
  | cons head rest ih => rw [claim, claim, h, ih]

theorem claimAll_congr (order : List Placed)
    (h : ∀ entry ∈ order, ∀ file b, v file entry.2 b = w file entry.2 b) (free : List Placed)
    (b : Bindings) : claimAll v order free b = claimAll w order free b := by
  induction order generalizing free b with
  | nil => rfl
  | cons entry rest ih =>
      have hrest := ih fun e he => h e (List.mem_cons_of_mem _ he)
      rw [claimAll, claimAll, claim_congr (h entry List.mem_cons_self)]
      simp only [hrest]

/-- Lists of comparable nodes, the elements in the exact mode taken pair by pair. -/
theorem validateComparable_eq (cx : MatchContext) (v : Validator) (file query : List Node)
    (b : Bindings) : validateComparable cx v file query b =
      if cx.config.mode = .exact then
        if file.length = query.length then
          .inTurn ((file.zip query).map fun pair => v pair.1 pair.2) b
        else .reject b
      else if file.length < query.length then .reject b
      else
        let claims := claimAll v (choosingOrder cx query) (placed file) b
        match claims.places with
        | none => ⟨false, claims.bindings, claims.violations⟩
        | some places =>
            ⟨cx.config.mode != .ordered || increasing (claimedPlaces places), claims.bindings,
              claims.violations⟩ := rfl

theorem validateList_eq (cx : MatchContext) (v : Validator) (file query : List Node)
    (b : Bindings) : validateList cx v file query b =
      validateComparable cx v (cx.comparable file) (cx.comparable query) b := rfl

/-- Where further code is ignored and the order does not count, lists match if all elements of the
query find something to claim, for which there must be enough. -/
theorem validateComparable_contained (hmode : cx.config.mode = .contained) (v : Validator)
    {file query : List Node} {b : Bindings}
    (h : (validateComparable cx v file query b).agrees = true ∨
      query.length ≤ file.length ∧
        (claimAll v (choosingOrder cx query) (placed file) b).places.isSome = true) :
    query.length ≤ file.length ∧
      (claimAll v (choosingOrder cx query) (placed file) b).places.isSome = true ∧
      (validateComparable cx v file query b).agrees = true ∧
      (validateComparable cx v file query b).bindings =
        (claimAll v (choosingOrder cx query) (placed file) b).bindings := by
  rw [validateComparable_eq, if_neg (by rw [hmode]; decide)] at h ⊢
  by_cases hlength : file.length < query.length
  · rw [if_pos hlength] at h
    rcases h with h | ⟨h, -⟩
    · simp [Validation.reject] at h
    · omega
  · rw [if_neg hlength] at h ⊢
    refine ⟨by omega, ?_⟩
    dsimp only at h ⊢
    cases hplaces : (claimAll v (choosingOrder cx query) (placed file) b).places with
    | none => simp [hplaces] at h
    | some places => simp [hmode]

/-- The fields that a comparison left to agree, taken pair by pair. -/
theorem validateKeys_eq (cx : MatchContext) (v : Validator) (file query : Node)
    (found : Comparison) (b : Bindings) : validateKeys cx v file query found b =
      if found.queryKeys.length = found.fileKeys.length then
        .inTurn ((found.fileKeys.zip found.queryKeys).map fun pair =>
          validatePath cx v file query pair.1 pair.2) b
      else ⟨false, b, 1⟩ := rfl

theorem validateComparable_congr {file query : List Node}
    (h : ∀ q ∈ query, ∀ f b, v f q b = w f q b) (b : Bindings) :
    validateComparable cx v file query b = validateComparable cx w file query b := by
  have hpairs : ((file.zip query).map fun pair => v pair.1 pair.2) =
      ((file.zip query).map fun pair => w pair.1 pair.2) := by
    refine List.map_congr_left fun pair hpair => ?_
    funext b
    exact h pair.2 (List.of_mem_zip hpair).2 pair.1 b
  have hclaims := claimAll_congr (v := v) (w := w) (choosingOrder cx query)
    (fun entry hentry f b => h entry.2 (mem_of_mem_choosingOrder hentry) f b) (placed file) b
  rw [validateComparable_eq, validateComparable_eq, hpairs, hclaims]

theorem validatePath_congr {file query : Node} (filePath queryPath : FieldPath)
    (h : ∀ q : Node, q.height < query.height → ∀ f b, v f q b = w f q b) (b : Bindings) :
    validatePath cx v file query filePath queryPath b =
      validatePath cx w file query filePath queryPath b := by
  unfold validatePath
  split
  next q _ hquery =>
    exact h q (Node.height_lt_of_resolve hquery (by simp [Field.members])) _ b
  next qs _ hquery =>
    refine validateComparable_congr (fun q hq => h q ?_) b
    exact Node.height_lt_of_resolve hquery (List.mem_filter.1 hq).1
  next => rfl

theorem validateFound_congr {file query : Node}
    (h : ∀ q : Node, q.height < query.height → ∀ f b, v f q b = w f q b)
    (compared : Comparison × Bindings) :
    validateFound cx v file query compared = validateFound cx w file query compared := by
  have hsteps : ∀ found : Comparison,
      ((found.fileKeys.zip found.queryKeys).map fun pair =>
        validatePath cx v file query pair.1 pair.2) =
      ((found.fileKeys.zip found.queryKeys).map fun pair =>
        validatePath cx w file query pair.1 pair.2) := by
    intro found
    refine List.map_congr_left fun pair _ => ?_
    funext b
    exact validatePath_congr pair.1 pair.2 h b
  cases compared with
  | mk found c =>
      rw [validateFound, validateFound, validateKeys_eq, validateKeys_eq, hsteps]

end Congruence

/-- Matching goes as deep as the query is high, and no further. -/
theorem validateUpTo_eq {cx : MatchContext} {height : Nat} {query : Node}
    (h : query.height ≤ height) (file : Node) (b : Bindings) :
    validateUpTo cx height file query b = validate cx file query b := by
  -- two bounds that suffice for a query are compared, by induction on the first
  have agree : ∀ m n (q : Node), q.height ≤ m → q.height ≤ n → ∀ f b,
      validateUpTo cx m f q b = validateUpTo cx n f q b := by
    intro m
    induction m with
    | zero =>
        intro n q hq
        have := q.height_pos
        omega
    | succ m ih =>
        intro n q hm hn f b
        cases n with
        | zero =>
            have := q.height_pos
            omega
        | succ n =>
            rw [validateUpTo, validateUpTo]
            refine validateFound_congr (fun r hr => ih n r ?_ ?_) _ <;> omega
  exact agree height query.height query h (Nat.le_refl _) file b

/-- Matching, step by step. -/
theorem validate_eq (cx : MatchContext) (file query : Node) (b : Bindings) :
    validate cx file query b =
      validateFound cx (validate cx) file query (compare cx file query b) := by
  obtain ⟨height, hheight⟩ : ∃ height, query.height = height + 1 :=
    ⟨query.height - 1, by have := query.height_pos; omega⟩
  rw [validate, hheight, validateUpTo]
  refine validateFound_congr (fun q hq f c => ?_) _
  exact validateUpTo_eq (by omega) f c

/-! ## Fields -/

/-- Fields **agree** by a relation of nodes: two single children that are related, or two lists
whose comparable elements are, those of the query placed among those of the file as the mode
demands. -/
inductive FieldsAgree (cx : MatchContext) (R : Node → Node → Prop) : Field → Field → Prop
  | node {file query : Node} (h : R file query) : FieldsAgree cx R (.node file) (.node query)
  | nodes {file query : List Node}
      (place : Fin (cx.comparable query).length → Fin (cx.comparable file).length)
      (hplace : cx.config.mode.Places place)
      (h : ∀ i : Fin (cx.comparable query).length,
        R ((cx.comparable file).get (place i)) ((cx.comparable query).get i)) :
      FieldsAgree cx R (.nodes file) (.nodes query)

theorem FieldsAgree.mono {cx : MatchContext} {R S : Node → Node → Prop} {file query : Field}
    (h : FieldsAgree cx R file query)
    (hRS : ∀ f ∈ file.members, ∀ q ∈ query.members, R f q → S f q) :
    FieldsAgree cx S file query := by
  cases h with
  | node h => exact FieldsAgree.node (hRS _ (by simp [Field.members]) _ (by simp [Field.members]) h)
  | nodes place hplace h =>
      refine FieldsAgree.nodes place hplace fun i => hRS _ ?_ _ ?_ (h i)
      · exact (List.mem_filter.1 (List.get_mem _ _)).1
      · exact (List.mem_filter.1 (List.get_mem _ _)).1

/-- The attempts that matching two fields leads to, from some bindings on. -/
inductive FieldLeads (cx : MatchContext) : Field → Field → Bindings →
    Node → Node → Bindings → Prop
  | node (f q : Node) (b : Bindings) : FieldLeads cx (.node f) (.node q) b f q b
  | nodes {file query : List Node} {b c : Bindings} {f q : Node}
      (h : ListLeads cx file query b f q c) : FieldLeads cx (.nodes file) (.nodes query) b f q c

theorem FieldLeads.mem {cx : MatchContext} {file query : Field} {b c : Bindings} {f q : Node}
    (h : FieldLeads cx file query b f q c) : f ∈ file.members ∧ q ∈ query.members := by
  cases h with
  | node => simp [Field.members]
  | nodes h => exact ⟨(List.mem_filter.1 h.mem.1).1, (List.mem_filter.1 h.mem.2).1⟩

/-! ## Attempts -/

/-- An attempt to match a query node with a file node, from some bindings on. -/
structure Attempt where
  file : Node
  query : Node
  bindings : Bindings

namespace Attempt

variable (cx : MatchContext)

/-- What becomes of an attempt. -/
def outcome (a : Attempt) : Validation := validate cx a.file a.query a.bindings

/-- The comparison of the two nodes at their own level. -/
def found (a : Attempt) : Comparison := (compare cx a.file a.query a.bindings).1

/-- The bindings after the comparison of the two nodes at their own level. -/
def compared (a : Attempt) : Bindings := (compare cx a.file a.query a.bindings).2

/-- The pairs of paths to fields left to agree, the file's first. -/
def pairs (a : Attempt) : List (FieldPath × FieldPath) :=
  (a.found cx).fileKeys.zip (a.found cx).queryKeys

/-- **The attempts that an attempt leads to**: those on the fields left to agree, pair by pair. -/
inductive Leads (a : Attempt) : Attempt → Prop
  | mk {pair : FieldPath × FieldPath} {file query : Field} {b c : Bindings} {f q : Node}
      (hreached : Reached
        (fun pair => validatePath cx (validate cx) a.file a.query pair.1 pair.2)
        (a.pairs cx) (a.compared cx) pair b)
      (hfile : a.file.resolve pair.1 = some file)
      (hquery : a.query.resolve pair.2 = some query)
      (h : FieldLeads cx file query b f q c) : Leads a ⟨f, q, c⟩

/-- An attempt goes through the fields left to agree in turn, and **reaches** a pair of them with
some bindings. -/
def Reaches (a : Attempt) : FieldPath × FieldPath → Bindings → Prop :=
  Reached (fun pair => validatePath cx (validate cx) a.file a.query pair.1 pair.2) (a.pairs cx)
    (a.compared cx)

/-- The attempts that take part in an attempt: itself and all that it leads to in turn. -/
def TakesPart : Attempt → Attempt → Prop := Relation.ReflTransGen (Leads cx)

end Attempt

section

variable {cx : MatchContext}

theorem validatePath_extends {P : Node → Prop} {file query : Node} (filePath queryPath : FieldPath)
    (hrun : ∀ f ∈ file.walk, ∀ q : Node, q.height < query.height → ∀ b,
      Bindings.Extends P b (validate cx f q b).bindings) (b : Bindings) :
    Bindings.Extends P b
      (validatePath cx (validate cx) file query filePath queryPath b).bindings := by
  unfold validatePath
  split
  next f q hfile hquery =>
    refine hrun f (Node.mem_walk_of_resolve hfile ?_) q (Node.height_lt_of_resolve hquery ?_) b
    · simp [Field.members]
    · simp [Field.members]
  next fs qs hfile hquery =>
    refine validateList_extends (fun f hf q hq => hrun f ?_ q ?_) b
    · exact Node.mem_walk_of_resolve hfile hf
    · exact Node.height_lt_of_resolve hquery hq
  next => exact Bindings.Extends.refl

/-- Matching extends the bindings, by subtrees of the file node at most, even if it fails. -/
theorem validate_extends (hgrammar : cx.grammar.BindsTexts) (file query : Node) (b : Bindings) :
    Bindings.Extends (· ∈ file.walk) b (validate cx file query b).bindings := by
  induction query using Node.height_induction generalizing file b with
  | step query ih =>
      have hcompare := compare_extends hgrammar file query b
      rw [validate_eq, validateFound]
      split
      next =>
        refine hcompare.trans ?_
        unfold validateKeys
        split
        next =>
          refine inTurn_extends (r := fun pair : FieldPath × FieldPath =>
            validatePath cx (validate cx) file query pair.1 pair.2) (fun pair _ c => ?_) _
          refine validatePath_extends pair.1 pair.2 (fun f hf q hq d => ?_) c
          exact (ih q hq f d).mono fun n hn => Node.mem_walk_trans hn hf
        next => exact Bindings.Extends.refl
      next => exact hcompare

/-- Nodes that are found to agree match if the fields left to agree do, in turn. -/
theorem validate_of_compare {file query : Node} {b c : Bindings} {found : Comparison}
    (h : compare cx file query b = (found, c)) (hagrees : found.agrees = true)
    (hlength : found.queryKeys.length = found.fileKeys.length) :
    validate cx file query b =
      Validation.inTurn ((found.fileKeys.zip found.queryKeys).map fun pair =>
        validatePath cx (validate cx) file query pair.1 pair.2) c := by
  rw [validate_eq, h, validateFound, if_pos hagrees, validateKeys_eq, if_pos hlength]

namespace Attempt

variable {a a' : Attempt}

/-- An attempt that succeeds compares the two nodes, finds that they agree, and goes through the
fields left to agree. -/
theorem outcome_eq (h : (a.outcome cx).agrees = true) :
    (a.found cx).agrees = true ∧
      (a.found cx).queryKeys.length = (a.found cx).fileKeys.length ∧
      a.outcome cx = Validation.inTurn ((a.pairs cx).map fun pair =>
        validatePath cx (validate cx) a.file a.query pair.1 pair.2) (a.compared cx) := by
  unfold outcome at h ⊢
  rw [validate_eq, validateFound] at h ⊢
  split at h
  next hagrees =>
    rw [if_pos hagrees]
    unfold validateKeys at h ⊢
    split at h
    next hlength =>
      rw [if_pos hlength]
      exact ⟨hagrees, hlength, rfl⟩
    next => simp at h
  next => simp [Validation.reject] at h

/-- What an attempt is made of extends the bindings by subtrees of its file node at most. -/
theorem pair_extends (hgrammar : cx.grammar.BindsTexts) (a : Attempt)
    (pair : FieldPath × FieldPath) (b : Bindings) :
    Bindings.Extends (· ∈ a.file.walk) b
      (validatePath cx (validate cx) a.file a.query pair.1 pair.2 b).bindings :=
  validatePath_extends pair.1 pair.2
    (fun f hf q _ c => (validate_extends hgrammar f q c).mono fun _ hn =>
      Node.mem_walk_trans hn hf) b

/-- The bindings at the end of a successful attempt are made of those after the comparison. -/
theorem compared_extends (hgrammar : cx.grammar.BindsTexts) (ha : (a.outcome cx).agrees = true) :
    Bindings.Extends (· ∈ a.file.walk) (a.compared cx) (a.outcome cx).bindings := by
  obtain ⟨-, -, houtcome⟩ := outcome_eq ha
  rw [houtcome]
  exact inTurn_extends (fun pair _ b => pair_extends hgrammar a pair b) _

/-- **Bindings grow along attempts.** An attempt that a successful one leads to succeeds; it
starts with bindings made of those after the comparison, and those of the successful attempt are
made of those it ends with. -/
theorem Leads.between (hgrammar : cx.grammar.BindsTexts) (h : a.Leads cx a')
    (ha : (a.outcome cx).agrees = true) :
    (a'.outcome cx).agrees = true ∧
      Bindings.Extends (· ∈ a.file.walk) (a.compared cx) a'.bindings ∧
      Bindings.Extends (· ∈ a.file.walk) (a'.outcome cx).bindings (a.outcome cx).bindings := by
  obtain ⟨-, -, houtcome⟩ := outcome_eq ha
  cases h with
  | @mk pair file query b c f q hreached hfile hquery h =>
      -- from the first pair to the one in question, and from there to the last
      rw [houtcome] at ha ⊢
      obtain ⟨hpair, hfrom, hto⟩ :=
        hreached.between (fun pair _ b => pair_extends hgrammar a pair b) ha
      cases h with
      | node f q b =>
          have hpath : validatePath cx (validate cx) a.file a.query pair.1 pair.2 b =
              validate cx f q b := by
            rw [validatePath, hfile, hquery]
          rw [hpath] at hpair hto
          exact ⟨hpair, hfrom, hto⟩
      | @nodes fs qs b c f q h =>
          have hpath : validatePath cx (validate cx) a.file a.query pair.1 pair.2 b =
              validateList cx (validate cx) fs qs b := by
            rw [validatePath, hfile, hquery]
          rw [hpath] at hpair hto
          obtain ⟨hagrees, hfrom', hto'⟩ := h.between (P := (· ∈ a.file.walk))
            (fun f hf q _ b => (validate_extends hgrammar f q b).mono fun n hn =>
              Node.mem_walk_trans hn (Node.mem_walk_of_resolve hfile hf)) hpair
          exact ⟨hagrees, hfrom.trans hfrom', hto'.trans hto⟩

/-- The fields of every pair left to agree do agree: a successful attempt leads to an attempt on
each query node in them and the file node that the mode places it at. -/
theorem fieldsAgree (hgrammar : cx.grammar.BindsTexts) (ha : (a.outcome cx).agrees = true)
    {pair : FieldPath × FieldPath} (hpair : pair ∈ a.pairs cx) :
    ∃ file query, a.file.resolve pair.1 = some file ∧ a.query.resolve pair.2 = some query ∧
      FieldsAgree cx (fun f q => ∃ c, a.Leads cx ⟨f, q, c⟩) file query := by
  obtain ⟨-, -, houtcome⟩ := outcome_eq ha
  rw [houtcome] at ha
  obtain ⟨b, hreached⟩ := exists_reached (r := fun pair : FieldPath × FieldPath =>
    validatePath cx (validate cx) a.file a.query pair.1 pair.2) hpair (a.compared cx)
  obtain ⟨hagrees, -, -⟩ :=
    hreached.between (fun pair _ b => pair_extends hgrammar a pair b) ha
  unfold validatePath at hagrees
  split at hagrees
  next f q hfile hquery =>
    exact ⟨_, _, hfile, hquery,
      FieldsAgree.node ⟨b, Leads.mk hreached hfile hquery (FieldLeads.node f q b)⟩⟩
  next fs qs hfile hquery =>
    obtain ⟨place, hplace, hleads⟩ := exists_listLeads hagrees
    refine ⟨_, _, hfile, hquery, FieldsAgree.nodes place hplace fun i => ?_⟩
    obtain ⟨c, hc⟩ := hleads i
    exact ⟨c, Leads.mk hreached hfile hquery (FieldLeads.nodes hc)⟩
  next => simp [Validation.reject] at hagrees

/-- The nodes of an attempt are below those of the attempt that leads to it. -/
theorem Leads.mem (h : a.Leads cx a') :
    a'.file ∈ a.file.walk ∧ a'.query ∈ a.query.walk ∧ a'.query.height < a.query.height := by
  cases h with
  | mk hreached hfile hquery h =>
      exact ⟨Node.mem_walk_of_resolve hfile h.mem.1, Node.mem_walk_of_resolve hquery h.mem.2,
        Node.height_lt_of_resolve hquery h.mem.2⟩

/-- Whatever takes part in a successful attempt succeeds, and is below it. Its bindings are made
of those at the start, and those at the end are made of its own. -/
theorem TakesPart.between (hgrammar : cx.grammar.BindsTexts) (h : TakesPart cx a a')
    (ha : (a.outcome cx).agrees = true) :
    (a'.outcome cx).agrees = true ∧ a'.file ∈ a.file.walk ∧ a'.query ∈ a.query.walk ∧
      Bindings.Extends (· ∈ a.file.walk) a.bindings a'.bindings ∧
      Bindings.Extends (· ∈ a.file.walk) (a'.outcome cx).bindings (a.outcome cx).bindings := by
  induction h with
  | refl =>
      exact ⟨ha, Node.mem_walk_self _, Node.mem_walk_self _, Bindings.Extends.refl,
        Bindings.Extends.refl⟩
  | @tail a₁ a₂ _ hleads ih =>
      obtain ⟨hagrees, hfile, hquery, hfrom, hto⟩ := ih
      obtain ⟨hagrees', hfrom', hto'⟩ := hleads.between hgrammar hagrees
      have hmono : ∀ n, n ∈ a₁.file.walk → n ∈ a.file.walk := fun n hn =>
        Node.mem_walk_trans hn hfile
      have hcompared : Bindings.Extends (· ∈ a.file.walk) a₁.bindings (a₁.compared cx) :=
        (compare_extends hgrammar a₁.file a₁.query a₁.bindings).mono hmono
      refine ⟨hagrees', hmono _ hleads.mem.1, Node.mem_walk_trans hleads.mem.2.1 hquery, ?_, ?_⟩
      · exact (hfrom.trans hcompared).trans (hfrom'.mono hmono)
      · exact (hto'.mono hmono).trans hto

end Attempt

/-! ## What is found in a tree -/

mutual

/-- The node and all nodes below it with their places, in pre-order. -/
def Node.visits (place : Place) : Node → List (Place × Node)
  | node@(.mk _ _ fields _) => (place, node) :: Field.visitsEntries place 0 fields

/-- The nodes of a field that stands at place `i` of its node. -/
def Field.visits (place : Place) (i : Nat) : Field → List (Place × Node)
  | .node child => child.visits ((i, 0) :: place)
  | .nodes children => Node.visitsList place i 0 children
  | .token _ => []

/-- The nodes of trees that stand from place `j` on in field `i` of their parent. -/
def Node.visitsList (place : Place) (i j : Nat) : List Node → List (Place × Node)
  | [] => []
  | node :: rest => node.visits ((i, j) :: place) ++ Node.visitsList place i (j + 1) rest

/-- The nodes of the fields that stand from place `i` on in their node. -/
def Field.visitsEntries (place : Place) (i : Nat) : List (String × Field) → List (Place × Node)
  | [] => []
  | (_, field) :: rest => field.visits place i ++ Field.visitsEntries place (i + 1) rest

end

mutual

/-- The nodes that are visited are those of the tree, in its order. -/
theorem Node.visits_snd (place : Place) (n : Node) : (n.visits place).map Prod.snd = n.walk := by
  cases n with
  | mk kind text fields span =>
      rw [Node.visits, Node.walk, List.map_cons, Field.visitsEntries_snd]

theorem Field.visits_snd (place : Place) (i : Nat) (f : Field) :
    (f.visits place i).map Prod.snd = f.walk := by
  cases f with
  | node child => rw [Field.visits, Field.walk, Node.visits_snd]
  | nodes children => rw [Field.visits, Field.walk, Node.visitsList_snd]
  | token text => rfl

theorem Node.visitsList_snd (place : Place) (i j : Nat) (nodes : List Node) :
    (Node.visitsList place i j nodes).map Prod.snd = Node.walkList nodes := by
  cases nodes with
  | nil => rfl
  | cons node rest =>
      rw [Node.visitsList, Node.walkList, List.map_append, Node.visits_snd, Node.visitsList_snd]

theorem Field.visitsEntries_snd (place : Place) (i : Nat) (fields : List (String × Field)) :
    (Field.visitsEntries place i fields).map Prod.snd = Field.walkEntries fields := by
  cases fields with
  | nil => rfl
  | cons entry rest =>
      obtain ⟨name, field⟩ := entry
      rw [Field.visitsEntries, Field.walkEntries, List.map_append, Field.visits_snd,
        Field.visitsEntries_snd]

end

theorem Traversal.found_append (s t : Traversal) : (s ++ t).found = s.found ++ t.found := rfl

/-- The outcome that a traversal finds at a node is that of matching the query there. -/
theorem traverse_outcome (node query : Node) :
    validateFound cx (validateUpTo cx (query.height - 1)) node query
      (compare cx node query .empty) = Attempt.outcome cx ⟨node, query, .empty⟩ := by
  rw [Attempt.outcome, validate_eq]
  refine validateFound_congr (fun q hq f b => ?_) _
  exact validateUpTo_eq (by omega) f b

/-- What is found where a node is visited. -/
def foundAt (cx : MatchContext) (query : Node) (visit : Place × Node) : Option Found :=
  let outcome := Attempt.outcome cx ⟨visit.2, query, .empty⟩
  if outcome.agrees then some ⟨visit.2, visit.1, outcome.bindings⟩ else none

mutual

theorem found_traverseFrom (query : Node) (place : Place) (n : Node) :
    (traverseFrom cx query place n).found = (n.visits place).filterMap (foundAt cx query) := by
  cases n with
  | mk kind text fields span =>
      rw [traverseFrom, traverse_outcome, Traversal.found_append, Node.visits,
        List.filterMap_cons, compare_descend, found_traverseFields _ _ _ _ _ ?_]
      · rw [foundAt]
        split
        next => rfl
        next => rfl
      · intro entry hentry hnodes
        exact List.mem_map.2 ⟨entry, List.mem_filter.2 ⟨hentry, hnodes⟩, rfl⟩

theorem found_traverseField (query : Node) (place : Place) (i : Nat) (f : Field) :
    (traverseField cx query place i f).found =
      (f.visits place i).filterMap (foundAt cx query) := by
  cases f with
  | node child => rw [traverseField, Field.visits, found_traverseFrom]
  | nodes children => rw [traverseField, Field.visits, found_traverseList]
  | token text => rfl

theorem found_traverseList (query : Node) (place : Place) (i j : Nat) (nodes : List Node) :
    (traverseList cx query place i j nodes).found =
      (Node.visitsList place i j nodes).filterMap (foundAt cx query) := by
  cases nodes with
  | nil => rfl
  | cons node rest =>
      rw [traverseList, Node.visitsList, Traversal.found_append, List.filterMap_append,
        found_traverseFrom, found_traverseList]

theorem found_traverseFields (query : Node) (place : Place) (descend : List String) (i : Nat)
    (fields : List (String × Field))
    (hdescend : ∀ entry ∈ fields, entry.2.holdsNodes = true → entry.1 ∈ descend) :
    (traverseFields cx query place descend i fields).found =
      (Field.visitsEntries place i fields).filterMap (foundAt cx query) := by
  cases fields with
  | nil => rfl
  | cons entry rest =>
      obtain ⟨name, field⟩ := entry
      obtain ⟨hhead, hrest⟩ := List.forall_mem_cons.1 hdescend
      rw [traverseFields, Field.visitsEntries, Traversal.found_append, List.filterMap_append,
        found_traverseFields _ _ _ _ rest hrest]
      congr 1
      cases field with
      | token text => split <;> rfl
      | node child => rw [if_pos (List.contains_iff_mem.2 (hhead rfl)), found_traverseField]
      | nodes children => rw [if_pos (List.contains_iff_mem.2 (hhead rfl)), found_traverseField]

end

/-- **Every node is tried**: a traversal finds the nodes that the query matches from no bindings,
in pre-order, with the bindings of the match. -/
theorem found_traverse (root query : Node) :
    (traverse cx root query).found = (root.visits []).filterMap (foundAt cx query) :=
  found_traverseFrom query [] root

theorem foundAt_eq_some {query : Node} {visit : Place × Node} {found : Found} :
    foundAt cx query visit = some found ↔
      (Attempt.outcome cx ⟨visit.2, query, .empty⟩).agrees = true ∧
        ⟨visit.2, visit.1, (Attempt.outcome cx ⟨visit.2, query, .empty⟩).bindings⟩ = found := by
  rw [foundAt]
  split
  next hagrees => simp [hagrees]
  next hagrees => simp [hagrees]

theorem Node.mem_visits_self (place : Place) (n : Node) : (place, n) ∈ n.visits place := by
  cases n
  exact List.mem_cons_self

theorem Node.mem_walk_of_visit {n root : Node} {place : Place}
    (h : (place, n) ∈ root.visits []) : n ∈ root.walk := by
  rw [← Node.visits_snd []]
  exact List.mem_map.2 ⟨_, h, rfl⟩

/-- Something found in a tree is a node of it, with the bindings of a successful attempt that
starts from none. -/
def Found.IsMatch (cx : MatchContext) (root query : Node) (found : Found) : Prop :=
  found.node ∈ root.walk ∧ (Attempt.outcome cx ⟨found.node, query, .empty⟩).agrees = true ∧
    found.bindings = (Attempt.outcome cx ⟨found.node, query, .empty⟩).bindings

/-- Whatever a traversal finds is a match at a node of the tree. -/
theorem isMatch_of_traverse {root query : Node} {found : Found}
    (h : found ∈ (traverse cx root query).found) : found.IsMatch cx root query := by
  rw [found_traverse] at h
  obtain ⟨⟨place, n⟩, hvisit, hfound⟩ := List.mem_filterMap.1 h
  obtain ⟨hagrees, rfl⟩ := foundAt_eq_some.1 hfound
  exact ⟨Node.mem_walk_of_visit hvisit, hagrees, rfl⟩

/-- A query that matches the root of a tree is found there. -/
theorem exists_found_of_agrees {root query : Node}
    (h : (Attempt.outcome cx ⟨root, query, .empty⟩).agrees = true) :
    ∃ found ∈ (traverse cx root query).found, found.node = root := by
  refine ⟨⟨root, [], (Attempt.outcome cx ⟨root, query, .empty⟩).bindings⟩, ?_, rfl⟩
  rw [found_traverse]
  exact List.mem_filterMap.2 ⟨([], root), Node.mem_visits_self [] root, foundAt_eq_some.2 ⟨h, rfl⟩⟩

end

end CodeSearch
