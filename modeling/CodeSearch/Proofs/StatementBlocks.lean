import CodeSearch.Proofs.GreedyClaims
import CodeSearch.Proofs.Likeness
import CodeSearch.Proofs.QueryReading
import CodeSearch.Proofs.Rules
import CodeSearch.Proofs.SourceText
import Mathlib.Data.Fintype.EquivFin

/-!
# Queries of several statements

Several statements are matched as a block that holds them. It matches a block of the file, or the
root of the file, by the lists that the two hold, and each statement of the query is matched as it
stands in its list: what wraps a lone statement is not taken off.

`Language.cSharp_block_agrees_iff`: in C# each statement at the top level is wrapped, so that a
query of several statements matches a body just if all statements of the body are wrapped too.
They are at the top level of a file and nowhere else.
-/

set_option autoImplicit false

namespace CodeSearch

/-! ## Nodes that hold a list -/

/-- A node **holds just** some nodes if they are its unnamed children, and all that it has. -/
structure Node.HoldsJust (n : Node) (children : List Node) : Prop where
  text : n.text = none
  fields : n.fields = [(childrenField, .nodes children)]

namespace Node.HoldsJust

variable {n : Node} {children : List Node}

theorem keys_eq (h : n.HoldsJust children) : n.keys = [childrenField] := by
  rw [Node.keys, h.text, h.fields]
  rfl

theorem field?_eq (h : n.HoldsJust children) : n.field? childrenField = some (.nodes children) := by
  rw [Node.field?, h.fields]
  rfl

theorem offspring_eq (h : n.HoldsJust children) : n.offspring = children := by
  rw [Node.offspring, h.fields]
  exact List.append_nil _

/-- The block that several statements are matched as holds just them. -/
theorem of_withChildren (kind : String) (span : Span) (children : List Node) :
    ((Node.branch kind span).withChildren children).HoldsJust children :=
  ⟨rfl, rfl⟩

end Node.HoldsJust

section

variable {cx : MatchContext} {file query : Node} {files queries : List Node} {b : Bindings}

/-- A query node without a text is no wildcard. -/
theorem compareWildcard?_of_bare (h : query.text = none) :
    compareWildcard? cx file query b =
      if cx.isWholeFile file query then some (.sameFields file true [childrenField], b)
      else none := by
  have hname : cx.nameWildcard? query = none := by
    rw [MatchContext.nameWildcard?, h]
    split <;> rfl
  have hstring : cx.stringWildcard? file query = none := by
    rw [MatchContext.stringWildcard?, h]
    split <;> rfl
  have hnumber : cx.isAnyNumber query = false := by
    rw [MatchContext.isAnyNumber, h]
    exact Bool.and_false _
  rw [compareWildcard?_eq, hname, hstring, hnumber]
  rfl

/-- Nodes of one kind that hold just lists leave the lists to agree. -/
theorem compareFields_holdsJust (hfile : file.HoldsJust files) (hquery : query.HoldsJust queries)
    (hkind : cx.kinds.sameKind query.kind file.kind = true) :
    compareFields cx file query = .sameFields file true [childrenField] := by
  have hcounted : countedKeys cx file query = [childrenField] := by
    rw [countedKeys, hfile.keys_eq, hquery.keys_eq]
    split <;> simp
  have hkey : compareKey cx file query [childrenField] childrenField = .deferred := by
    rw [compareKey_field List.mem_cons_self (by decide), hfile.field?_eq, hquery.field?_eq]
  simp [compareFields, hcounted, hkind, hquery.keys_eq, hkey]

end

theorem Validation.agrees_inTurn_single (step : Bindings → Validation) (b : Bindings) :
    (Validation.inTurn [step] b).agrees = (step b).agrees := by
  rw [Validation.inTurn, Validation.andThen]
  cases hstep : (step b).agrees with
  | true => rfl
  | false => exact hstep

/-! ## Blocks against blocks and files -/

section

variable {cx : MatchContext} (hbefore : cx.grammar.rulesBefore = [])
  (hafter : cx.grammar.rulesAfter = []) (hdefaults : cx.kinds.defaultValues = [])
  {file query : Node} {files queries : List Node} {b : Bindings}

include hbefore hafter hdefaults

/-- A block of the query matches a block, and the root of a file, just as the lists match. -/
theorem validate_block (hfile : file.HoldsJust files) (hquery : query.HoldsJust queries)
    (hblock : query.kind = cx.kinds.block)
    (hkind : file.kind = cx.kinds.block ∨ cx.kinds.isProgram file.kind = true) :
    (validate cx file query b).agrees =
      (validateList cx (validate cx) files queries b).agrees := by
  have hcompare : compare cx file query b = (.sameFields file true [childrenField], b) := by
    rw [compare_eq_comparePlain hbefore hdefaults, comparePlain,
      compareWildcard?_of_bare hquery.text]
    cases hfileKind : cx.isWholeFile file query with
    | true => rfl
    | false =>
        have hsame : cx.kinds.sameKind query.kind file.kind = true := by
          rcases hkind with hkind | hprogram
          · rw [hblock, hkind]
            exact cx.kinds.sameKind_refl _
          · simp [MatchContext.isWholeFile, hblock, hprogram] at hfileKind
        simp only [hafter, Rule.first?, compareFields_holdsJust hfile hquery hsame,
          Bool.false_eq_true, if_false]
  have hpath : validatePath cx (validate cx) file query [childrenField] [childrenField] b =
      validateList cx (validate cx) files queries b := by
    simp only [validatePath, Node.resolve, hfile.field?_eq, hquery.field?_eq]
  rw [validate_of_compare hcompare rfl rfl, ← hpath]
  exact Validation.agrees_inTurn_single _ b

/-- A node without wildcards, unless it is a block, is matched by nodes of its kind only. -/
theorem sameKind_of_validate (hquery : cx.WithoutWildcards query)
    (hblock : query.kind ≠ cx.kinds.block) (h : (validate cx file query b).agrees = true) :
    cx.kinds.sameKind query.kind file.kind = true := by
  have hagrees : (compare cx file query b).1.agrees = true :=
    (Attempt.outcome_eq (a := ⟨file, query, b⟩) h).1
  have hfile : cx.isWholeFile file query = false := by
    rw [MatchContext.isWholeFile, beq_eq_false_iff_ne.2 hblock, Bool.false_and]
  rw [compare_eq_comparePlain hbefore hdefaults, comparePlain, compareWildcard?_eq] at hagrees
  simp only [hquery.nameWildcard?_eq_none, hquery.stringWildcard?_eq_none,
    hquery.isAnyNumber_eq_false, hfile, hafter, Rule.first?, Bool.false_eq_true, if_false]
    at hagrees
  exact (compareFields_agrees hagrees).1.kind

end

/-! ## Lists of one length -/

theorem Mode.Places.injective {mode : Mode} {n m : Nat} {place : Fin n → Fin m}
    (h : mode.Places place) : Function.Injective place := by
  cases mode with
  | exact =>
      exact fun i j hij => Fin.ext ((h.2 i).symm.trans ((congrArg Fin.val hij).trans (h.2 j)))
  | contained => exact h
  | ordered => exact StrictMono.injective h

/-- Where lists of one length match, nothing in the file's list is left over: an element of the
query matches it. -/
theorem exists_matching {cx : MatchContext} {files queries : List Node} {b : Bindings}
    (hgrammar : cx.grammar.BindsTexts)
    (hlength : (cx.comparable queries).length = (cx.comparable files).length)
    (h : (validateList cx (validate cx) files queries b).agrees = true) {f : Node}
    (hf : f ∈ cx.comparable files) :
    ∃ q ∈ cx.comparable queries, ∃ c, (validate cx f q c).agrees = true := by
  obtain ⟨place, hplace, hleads⟩ := exists_listLeads h
  have hsurjective : Function.Surjective place :=
    (Finite.injective_iff_surjective_of_equiv (finCongr hlength)).1 hplace.injective
  obtain ⟨j, rfl⟩ := List.get_of_mem hf
  obtain ⟨i, rfl⟩ := hsurjective j
  obtain ⟨c, hc⟩ := hleads i
  have hextends : ∀ f ∈ files, ∀ q ∈ queries, ∀ b,
      Bindings.Extends (fun _ => True) b (validate cx f q b).bindings := fun f _ q _ b =>
    (validate_extends hgrammar f q b).mono fun _ _ => trivial
  exact ⟨_, List.get_mem _ i, c, (hc.between hextends h).1⟩

/-! ## Trees that are alike -/

section

variable {cx : MatchContext} {a b : Node}

/-- Each node of a tree has a counterpart of the same kind and text in a tree that is alike. -/
theorem Node.Alike.exists_of_mem_walk (h : a.Alike b) {m : Node} (hm : m ∈ b.walk) :
    ∃ n ∈ a.walk, n.kind = m.kind ∧ n.text = m.text := by
  induction a using Node.offspring_induction generalizing b with
  | step a ih =>
      rcases Node.mem_walk.1 hm with rfl | ⟨d, hd, hmd⟩
      · exact ⟨a, Node.mem_walk_self a, h.kind, h.text⟩
      · obtain ⟨⟨name, g⟩, hg, hdg⟩ := List.mem_flatMap.1 hd
        have hfield := h.field? name
        rw [Node.field?_of_mem_fields (h.symm.distinct b (Node.mem_walk_self b)) hg] at hfield
        generalize hleft : a.field? name = left at hfield
        cases hfield with
        | some hrel =>
            obtain ⟨c, hc, hcd⟩ := hrel.exists_of_mem hdg
            have hbelow := Node.mem_offspring_of_field? hleft hc
            obtain ⟨n, hn, hsame⟩ := ih c hbelow hcd hmd
            exact ⟨n, Node.mem_walk_of_mem_offspring hbelow hn, hsame⟩

/-- What is alike has wildcards alike. -/
theorem MatchContext.WithoutWildcards.of_alike (ha : cx.WithoutWildcards a) (h : a.Alike b) :
    cx.WithoutWildcards b where
  names m hm hkind text htext := by
    obtain ⟨n, hn, hkinds, htexts⟩ := h.exists_of_mem_walk hm
    exact ha.names n hn (hkinds ▸ hkind) text (htexts ▸ htext)
  strings m hm hkind text htext := by
    obtain ⟨n, hn, hkinds, htexts⟩ := h.exists_of_mem_walk hm
    rw [← hkinds] at hkind ⊢
    exact ha.strings n hn hkind text (htexts ▸ htext)
  numbers m hm hkind text htext := by
    obtain ⟨n, hn, hkinds, htexts⟩ := h.exists_of_mem_walk hm
    exact ha.numbers n hn (hkinds ▸ hkind) text (htexts ▸ htext)

end

/-! ## Trees with other texts -/

section

variable {f : String → String}

theorem Node.mapStringsList_eq (nodes : List Node) :
    Node.mapStringsList f nodes = nodes.map (Node.mapStrings f) := by
  induction nodes with
  | nil => rfl
  | cons node rest ih => rw [Node.mapStringsList, ih, List.map_cons]

theorem Field.mapStringsEntries_eq (fields : List (String × Field)) :
    Field.mapStringsEntries f fields =
      fields.map fun (name, field) => (name, field.mapStrings f) := by
  induction fields with
  | nil => rfl
  | cons entry rest ih =>
      obtain ⟨name, field⟩ := entry
      rw [Field.mapStringsEntries, ih, List.map_cons]

theorem Field.members_mapStrings (field : Field) :
    (field.mapStrings f).members = field.members.map (Node.mapStrings f) := by
  cases field with
  | node child => rfl
  | nodes children => exact Node.mapStringsList_eq children
  | token text => rfl

theorem Node.fields_mapStrings (n : Node) :
    (n.mapStrings f).fields = n.fields.map fun (name, field) => (name, field.mapStrings f) := by
  cases n
  exact Field.mapStringsEntries_eq _

theorem Node.offspring_mapStrings (n : Node) :
    (n.mapStrings f).offspring = n.offspring.map (Node.mapStrings f) := by
  rw [Node.offspring, Node.offspring, Node.fields_mapStrings, List.flatMap_map, List.map_flatMap]
  exact List.flatMap_congr fun entry _ => Field.members_mapStrings entry.2

/-- Other texts leave the names of the fields distinct. -/
theorem Node.NamesDistinct.mapStrings {n : Node} (h : n.NamesDistinct) :
    (n.mapStrings f).NamesDistinct := by
  induction n using Node.offspring_induction with
  | step n ih =>
      intro m hm
      rcases Node.mem_walk.1 hm with rfl | ⟨d, hd, hmd⟩
      · rw [Node.fields_mapStrings, List.map_map]
        exact h n (Node.mem_walk_self n)
      · rw [Node.offspring_mapStrings] at hd
        obtain ⟨c, hc, rfl⟩ := List.mem_map.1 hd
        exact ih c hc (h.of_mem_offspring hc) m hmd

end

/-! ## Statements in C# -/

/-- Elements that are related to the same ones in pairs are related in pairs. -/
theorem forall₂_through {α β γ : Type} {R : α → β → Prop} {S : γ → β → Prop} {as : List α}
    {bs : List β} {cs : List γ} (h : List.Forall₂ R as bs) (h' : List.Forall₂ S cs bs) :
    List.Forall₂ (fun a c => a ∈ as ∧ c ∈ cs ∧ ∃ b ∈ bs, R a b ∧ S c b) as cs := by
  induction h generalizing cs with
  | nil =>
      cases h'
      exact .nil
  | @cons a b as bs hab _ ih =>
      cases h' with
      | cons hcb hrest =>
          refine .cons ⟨List.mem_cons_self, List.mem_cons_self, b, List.mem_cons_self, hab, hcb⟩
            ((ih hrest).imp fun _ _ hpair => ?_)
          obtain ⟨ha, hc, b', hb', hpair⟩ := hpair
          exact ⟨List.mem_cons_of_mem _ ha, List.mem_cons_of_mem _ hc, b',
            List.mem_cons_of_mem b hb', hpair⟩

namespace CSharp

/-- A statement at the top level stands in a node of its own, which **wraps** it. -/
def Wraps (outer statement : Node) : Prop :=
  outer.kind = "global_statement" ∧ outer.HoldsJust [statement]

section

variable {parsers : ParserSet} {config : SearchConfig} {source : String}
  {outer other statement inner n : Node}

/-- Two statements that are alike are alike when they are wrapped. -/
theorem Wraps.structEq (h : Wraps outer statement) (h' : Wraps other inner)
    (hequal : statement.structEq inner = true) : outer.structEq other = true := by
  refine Node.structEq_iff.2 ⟨h.1.trans h'.1.symm, h.2.text.trans h'.2.text.symm, ?_, ?_⟩
  · rw [h.2.fields, h'.2.fields]
    rfl
  · rw [h.2.fields]
    intro entry hentry
    obtain rfl := List.mem_singleton.1 hentry
    refine ⟨.nodes [inner], h'.2.field?_eq, ?_⟩
    rw [Field.structEq, Node.structEqList, hequal, Node.structEqList]
    rfl

/-- A wrapped statement has wildcards where the statement does. -/
theorem Wraps.withoutWildcards {cx : MatchContext} (h : Wraps outer statement)
    (hstatement : cx.WithoutWildcards statement) : cx.WithoutWildcards outer := by
  have hwalk : ∀ m ∈ outer.walk, m.text = none ∨ m ∈ statement.walk := by
    intro m hm
    rcases Node.mem_walk.1 hm with rfl | ⟨c, hc, hmc⟩
    · exact Or.inl h.2.text
    · rw [h.2.offspring_eq] at hc
      exact Or.inr (List.mem_singleton.1 hc ▸ hmc)
  refine ⟨fun m hm hkind text htext => ?_, fun m hm hkind text htext => ?_,
    fun m hm hkind text htext => ?_⟩
  all_goals
    rcases hwalk m hm with hbare | hinside
    · simp [hbare] at htext
  · exact hstatement.names m hinside hkind text htext
  · exact hstatement.strings m hinside hkind text htext
  · exact hstatement.numbers m hinside hkind text htext

/-- Only equal kinds compare as one. -/
theorem eq_of_sameKind {left right : String} (h : kinds.sameKind left right = true) :
    left = right := by
  rw [NodeKinds.sameKind, Bool.or_eq_true, beq_iff_eq] at h
  exact h.resolve_right (by simp [kinds])

theorem comparable_eq (nodes : List Node) :
    (Language.cSharp.context parsers config source).comparable nodes = nodes :=
  List.filter_eq_self.2 fun _ _ => rfl

/-- Code without wildcards is taken literally. -/
theorem takesLiterally (hnames : n.NamesDistinct)
    (htexts : (Language.cSharp.context parsers config source).WithoutWildcards n) :
    (Language.cSharp.context parsers config source).TakesLiterally n where
  distinct := hnames
  texts := htexts
  files m _ hfile := by
    -- no kind is both that of a block and that of a file
    obtain ⟨hblock, hprogram⟩ := Bool.and_eq_true_iff.1 hfile
    rw [beq_iff_eq.1 hblock] at hprogram
    have hother : kinds.isProgram kinds.block = false := by decide
    exact absurd hprogram (Bool.eq_false_iff.1 hother)
  rules _ _ _ _ rule hrule := absurd hrule List.not_mem_nil
  comparable _ _ _ _ := rfl
  defaults _ _ := rfl

/-- **A block of wrapped statements** matches a block or file that holds the same statements just
if each of them is wrapped there too. -/
theorem block_agrees_iff {file query : Node} {body globals statements : List Node} {b : Bindings}
    (hnames : ∀ g ∈ globals, g.NamesDistinct) (hwraps : List.Forall₂ Wraps globals statements)
    (hplain : ∀ s ∈ statements,
      (Language.cSharp.context parsers config source).WithoutWildcards s ∧
        s.kind ≠ "global_statement")
    (hquery : query.HoldsJust globals) (hblock : query.kind = "block")
    (hkind : file.kind = "block" ∨ file.kind = "compilation_unit") (hfile : file.HoldsJust body)
    (hbody : List.Forall₂ (fun f s => s.structEq f = true ∨
      ∃ inner, Wraps f inner ∧ s.structEq inner = true) body statements) :
    (validate (Language.cSharp.context parsers config source) file query b).agrees = true ↔
      ∀ f ∈ body, f.kind = "global_statement" := by
  have hplaced : file.kind = kinds.block ∨ kinds.isProgram file.kind = true := by
    refine hkind.imp_right fun hprogram => ?_
    rw [hprogram]
    decide
  have hglobal : ∀ g ∈ globals, ∃ s ∈ statements, Wraps g s :=
    fun _ hg => exists_mem_of_forall₂ hwraps hg
  have hlists : (validate (Language.cSharp.context parsers config source) file query b).agrees =
      (validateList (Language.cSharp.context parsers config source)
        (validate (Language.cSharp.context parsers config source)) body globals b).agrees :=
    validate_block rfl rfl rfl hfile hquery hblock hplaced
  rw [hlists]
  constructor
  · intro h f hf
    have hlength : globals.length = body.length := hwraps.length_eq.trans hbody.length_eq.symm
    obtain ⟨g, hg, c, hagrees⟩ := exists_matching (Language.bindsTexts _ _ _)
      (by rw [comparable_eq, comparable_eq, hlength]) h (f := f) (by rwa [comparable_eq])
    rw [comparable_eq] at hg
    obtain ⟨s, hs, hwrap⟩ := hglobal g hg
    have hblocks : g.kind ≠ kinds.block := by
      rw [hwrap.1]
      decide
    have hkinds := sameKind_of_validate rfl rfl rfl
      (hwrap.withoutWildcards (hplain s hs).1) hblocks hagrees
    rw [← eq_of_sameKind hkinds, hwrap.1]
  · intro h
    -- what stands in the body is wrapped, and so it is equal to what the query holds
    have hpairs : List.Forall₂ (fun f g =>
        validate (Language.cSharp.context parsers config source) f g b = .accept b)
        body globals := by
      refine (forall₂_through hbody hwraps).imp fun f g hpair => ?_
      obtain ⟨hf, hg, s, hs, hbodied, hwrap⟩ := hpair
      obtain ⟨hliteral, hother⟩ := hplain s hs
      rcases hbodied with hstands | ⟨inner, hwrapped, hequal⟩
      · exact absurd ((Node.structEq_iff.1 hstands).1.trans (h f hf)) hother
      · have halike : g.Alike f := ⟨hnames g hg, hwrap.structEq hwrapped hequal⟩
        exact validate_of_structEq (takesLiterally halike.symm.distinct
          ((hwrap.withoutWildcards hliteral).of_alike halike)) halike.symm.equal b
    have hnone : ∀ g ∈ globals,
        (Language.cSharp.context parsers config source).nameWildcard? g = none := by
      intro g hg
      obtain ⟨s, hs, hwrap⟩ := hglobal g hg
      exact (hwrap.withoutWildcards (hplain s hs).1).nameWildcard?_eq_none
    rw [validateList_eq, comparable_eq, comparable_eq, validateComparable_own hpairs hnone]
    rfl

end

end CSharp

theorem Node.mem_offspring_of_mem_childList {n c : Node} (h : c ∈ n.childList) :
    c ∈ n.offspring := by
  unfold Node.childList at h
  split at h
  next children hfield => exact Node.mem_offspring_of_field? hfield h
  next child hfield => exact Node.mem_offspring_of_field? hfield h
  next => simp at h

/-- In a parsed query no node has two fields of one name. -/
theorem Language.namesDistinct_of_parseQueryText {parsers : ParserSet} {language : Language}
    {markers : Markers} {text : String} {parsed : Node} {wrapped : Bool}
    (h : (language.grammar parsers markers).parseQueryText text = .ok (parsed, wrapped)) :
    parsed.NamesDistinct := by
  unfold Grammar.parseQueryText at h
  dsimp only at h
  split at h
  next root hroot =>
    obtain ⟨rfl, -⟩ := Prod.mk.inj (Except.ok.inj h)
    exact namesDistinct_of_parse hroot
  next =>
    split at h
    next root hroot =>
      obtain ⟨rfl, -⟩ := Prod.mk.inj (Except.ok.inj h)
      exact namesDistinct_of_parse hroot
    next => simp at h

/-- **Several statements in C#**: take a query of several statements without wildcards, each of
which is wrapped at the top level, and a block or file that holds just these statements, each as
it stands or wrapped. The query is read as a block of the wrapped statements. In every mode it
matches the block or file just if each of the statements is wrapped there too, as at the top level
of a file. So it never matches the body of a method, which holds them as they stand. -/
theorem Language.cSharp_block_agrees_iff {parsers : ParserSet} {config : SearchConfig}
    {text source : String} {parsed : Node} {wrapped : Bool} {globals statements : List Node}
    (hmarkers : config.markers.findInvalid? text = none)
    (hblank : (Text.trim text.toList).isEmpty = false)
    (hparse : (Language.cSharp.grammar parsers config.markers).parseQueryText text =
      .ok (parsed, wrapped))
    (hglobals : (parsed.decode config.markers).childList = globals)
    (hwraps : List.Forall₂ CSharp.Wraps globals statements)
    (hseveral : 2 ≤ statements.length)
    (hplain : ∀ s ∈ statements,
      (Language.cSharp.context parsers config source).WithoutWildcards s ∧
        s.kind ≠ "global_statement") :
    ∃ query, parseQuery (Language.cSharp.grammar parsers config.markers) config text = .ok query ∧
      query.isMultistatement = true ∧ query.node.HoldsJust globals ∧
      ∀ (file : Node) (body : List Node),
        file.kind = "block" ∨ file.kind = "compilation_unit" → file.HoldsJust body →
        List.Forall₂ (fun f s => s.structEq f = true ∨
          ∃ inner, CSharp.Wraps f inner ∧ s.structEq inner = true) body statements →
        ((validate (Language.cSharp.context parsers config source) file query.node .empty).agrees =
          true ↔ ∀ f ∈ body, f.kind = "global_statement") := by
  have hcount : 2 ≤ globals.length := hwraps.length_eq ▸ hseveral
  have hnames : ∀ g ∈ globals, g.NamesDistinct := by
    intro g hg
    have hroot : (parsed.decode config.markers).NamesDistinct :=
      (namesDistinct_of_parseQueryText hparse).mapStrings
    exact hroot.of_mem_offspring (Node.mem_offspring_of_mem_childList (hglobals ▸ hg))
  exact ⟨_, parseQuery_ok hmarkers hblank hparse hglobals (queryNode?_several hcount _),
    decide_eq_true hcount, Node.HoldsJust.of_withChildren _ _ _,
    fun file body hkind hfile hbody => CSharp.block_agrees_iff hnames hwraps hplain
      (Node.HoldsJust.of_withChildren _ _ _) rfl hkind hfile hbody⟩

/-! ## Two statements -/

namespace CSharp

/-- The concrete tree of a name and a semicolon at the top level, from some byte on. -/
def statementTree (start : Nat) : ConcreteTree :=
  .mk { kind := "global_statement", span := lineSpan start (start + 2) }
    [.mk { kind := "expression_statement", span := lineSpan start (start + 2) }
      [.mk { kind := "identifier", span := lineSpan start (start + 1) } [],
        .mk { kind := ";", span := lineSpan (start + 1) (start + 2), isNamed := false } []]]

/-- A parser that knows the text `a;b;`. -/
def statementParsers : ParserSet where
  tree _ source :=
    if source = "a;b;" then
      some (.mk { kind := "compilation_unit", span := lineSpan 0 4 }
        [statementTree 0, statementTree 2])
    else none
  types _ :=
    [("compilation_unit", { children := some ⟨true, false⟩ }),
      ("global_statement", { children := some ⟨false, true⟩ }),
      ("expression_statement", { children := some ⟨false, true⟩ }),
      ("identifier", {})]

/-- The statement that is a name, from some byte on. -/
def nameStatement (start : Nat) (name : String) : Node :=
  .mk "expression_statement" none
    [(childrenField, .nodes [.leaf "identifier" name (lineSpan start (start + 1))])]
    (lineSpan start (start + 2))

/-- The statement at the top level. -/
def wrappedStatement (start : Nat) (name : String) : Node :=
  .mk "global_statement" none [(childrenField, .nodes [nameStatement start name])]
    (lineSpan start (start + 2))

/-- The two statements as the body of a method holds them, and as a query does. -/
def bareStatements : List Node := [nameStatement 0 "a", nameStatement 2 "b"]

/-- The two statements as they stand at the top level. -/
def wrappedStatements : List Node := [wrappedStatement 0 "a", wrappedStatement 2 "b"]

/-- A node that holds just some nodes. -/
def holding (kind : String) (nodes : List Node) : Node :=
  .mk kind none [(childrenField, .nodes nodes)] (lineSpan 0 4)

/-- What the files are searched with. -/
def statementContext : MatchContext := Language.cSharp.context statementParsers {} "a;b;"

theorem parseQueryText_statements :
    (Language.cSharp.grammar statementParsers {}).parseQueryText "a;b;" =
      .ok (holding "compilation_unit" wrappedStatements, false) := by
  have hencode : ({} : Markers).encode "a;b;" = "a;b;" := by decide +kernel
  refine parseQueryText_plain ?_
  show Language.cSharp.parse statementParsers (({} : Markers).encode "a;b;") = _
  rw [hencode]
  simp only [Language.parse, statementParsers, if_true, Converter.convert, statementTree,
    Converter.convertAt, Converter.attachAll]
  rfl

theorem decode_statements :
    ((holding "compilation_unit" wrappedStatements).decode {}).childList = wrappedStatements := by
  rfl

theorem wraps_statements : List.Forall₂ Wraps wrappedStatements bareStatements :=
  .cons ⟨rfl, rfl, rfl⟩ (.cons ⟨rfl, rfl, rfl⟩ .nil)

theorem bareStatements_plain : ∀ s ∈ bareStatements,
    statementContext.WithoutWildcards s ∧ s.kind ≠ "global_statement" := by
  have hnames : ∀ s ∈ bareStatements, ∀ n ∈ s.walk, ∀ text ∈ n.text,
      ({} : Markers).hasWildcard text = false := by decide +kernel
  have hkinds : ∀ s ∈ bareStatements, ∀ n ∈ s.walk,
      kinds.isString n.kind = false ∧ kinds.isNumber n.kind = false := by decide +kernel
  refine fun s hs => ⟨⟨fun n hn _ => hnames s hs n hn, fun n hn hkind => ?_, fun n hn hkind => ?_⟩,
    ?_⟩
  · exact absurd hkind (Bool.eq_false_iff.1 (hkinds s hs n hn).1)
  · exact absurd hkind (Bool.eq_false_iff.1 (hkinds s hs n hn).2)
  · have hother : ∀ s ∈ bareStatements, s.kind ≠ "global_statement" := by decide
    exact hother s hs

theorem bare_statements :
    List.Forall₂ (fun f s => s.structEq f = true) bareStatements bareStatements :=
  .cons (by decide +kernel) (.cons (by decide +kernel) .nil)

theorem accepts_statements : ({} : MatchSettings).markers.findInvalid? "a;b;" = none ∧
    (Text.trim "a;b;".toList).isEmpty = false := by
  decide +kernel

end CSharp

section

open CSharp

/-- A query of two statements matches a file that has them at the top level, and no body that has
them. -/
theorem Language.cSharp_block_agrees_iff_twoStatements :
    ∃ query, parseQuery (Language.cSharp.grammar statementParsers {}) {} "a;b;" = .ok query ∧
      query.isMultistatement = true ∧
      (validate statementContext (holding "compilation_unit" wrappedStatements) query.node
        .empty).agrees = true ∧
      (validate statementContext (holding "block" bareStatements) query.node .empty).agrees =
        false := by
  obtain ⟨query, hquery, hseveral, -, hmatch⟩ :=
    @Language.cSharp_block_agrees_iff statementParsers {} "a;b;" "a;b;" _ _ _ _
      accepts_statements.1 accepts_statements.2 parseQueryText_statements decode_statements
      wraps_statements (by decide) bareStatements_plain
  refine ⟨query, hquery, hseveral, ?_, Bool.eq_false_iff.2 fun hagrees => ?_⟩
  · refine (hmatch _ wrappedStatements (Or.inr rfl) ⟨rfl, rfl⟩ ?_).2 (by decide)
    exact (forall₂_through wraps_statements bare_statements.flip).imp fun f s hpair => by
      obtain ⟨-, -, inner, -, hwraps, hequal⟩ := hpair
      exact Or.inr ⟨inner, hwraps, hequal⟩
  · have hwrapped := (hmatch _ bareStatements (Or.inl rfl) ⟨rfl, rfl⟩
      (bare_statements.imp fun _ _ hequal => Or.inl hequal)).1 hagrees
    exact absurd hwrapped (by decide)

/-- A query of several statements does not match a body that holds just these statements. -/
theorem cSharp_block_misses_body :
    ¬ ∀ (parsers : ParserSet) (text source : String) (parsed : Node) (wrapped : Bool)
        (globals statements : List Node),
      ({} : MatchSettings).markers.findInvalid? text = none →
      (Text.trim text.toList).isEmpty = false →
      (Language.cSharp.grammar parsers {}).parseQueryText text = .ok (parsed, wrapped) →
      (parsed.decode {}).childList = globals → List.Forall₂ CSharp.Wraps globals statements →
      2 ≤ statements.length →
      (∀ s ∈ statements, (Language.cSharp.context parsers {} source).WithoutWildcards s ∧
        s.kind ≠ "global_statement") →
      ∃ query, parseQuery (Language.cSharp.grammar parsers {}) {} text = .ok query ∧
        ∀ (file : Node) (body : List Node), file.kind = "block" → file.HoldsJust body →
          List.Forall₂ (fun f s => s.structEq f = true) body statements →
          (validate (Language.cSharp.context parsers {} source) file query.node .empty).agrees =
            true := by
  intro h
  obtain ⟨query, hquery, hmatch⟩ := h statementParsers "a;b;" "a;b;" _ _ _ _
    accepts_statements.1 accepts_statements.2 parseQueryText_statements decode_statements
    wraps_statements (by decide) bareStatements_plain
  have hagrees := hmatch (holding "block" bareStatements) _ rfl ⟨rfl, rfl⟩ bare_statements
  have hread := hquery.symm.trans (parseQuery_ok accepts_statements.1 accepts_statements.2
    parseQueryText_statements decode_statements (queryNode?_several (by decide) _))
  rw [Except.ok.inj hread] at hagrees
  have hnames : ∀ g ∈ wrappedStatements, g.NamesDistinct := by decide +kernel
  have hwrapped := (block_agrees_iff hnames wraps_statements bareStatements_plain
    (Node.HoldsJust.of_withChildren _ _ _) rfl (Or.inl rfl) ⟨rfl, rfl⟩
    (bare_statements.imp fun _ _ hequal => Or.inl hequal)).1 hagrees
  exact absurd hwrapped (by decide)

end

end CodeSearch
