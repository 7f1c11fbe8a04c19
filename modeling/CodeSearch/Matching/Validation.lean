import CodeSearch.Matching.Comparison

/-!
# Matching a query at every depth

A query node **matches** a file node when the two agree and so do, in turn, the fields that the
comparison leaves to agree. Lists of children are matched by the mode of the search.

* `exact`: both lists have equal length and their elements match in pairs.
* `contained`: each element of the query claims an element of the file for itself. The elements
  choose one after another, the most constrained first, and each takes the first free element
  that it matches; what is taken is never given back.
* `ordered`: likewise, and in the end the claimed elements must stand in the order of the query.

A validation tells, besides its verdict, the bindings it ended with, even if it failed, and the
number of comparisons whose two lists of keys differed in length, which no correct rule causes.
-/

set_option autoImplicit false

namespace CodeSearch

/-- The outcome of matching a query node with a file node. -/
structure Validation where
  agrees : Bool
  bindings : Bindings
  violations : Nat

namespace Validation

/-- A success that binds nothing further. -/
def accept (b : Bindings) : Validation := ⟨true, b, 0⟩

/-- A failure that binds nothing further. -/
def reject (b : Bindings) : Validation := ⟨false, b, 0⟩

/-- Goes on with the next step if the first one succeeded. -/
def andThen (first : Validation) (next : Bindings → Validation) : Validation :=
  if first.agrees then
    let second := next first.bindings
    { second with violations := first.violations + second.violations }
  else first

/-- Takes steps one after another, up to the first that fails. -/
def inTurn : List (Bindings → Validation) → Bindings → Validation
  | [], b => accept b
  | step :: rest, b => (step b).andThen (inTurn rest)

end Validation

/-- A way to match a file node and a query node, given in this order. -/
abbrev Validator := Node → Node → Bindings → Validation

/-- How constrained an element of a query list is: nodes without identifier wildcards before
names with wildcards before node-tree wildcards, and names by the length of their literal
text. -/
structure Specificity where
  rank : Nat
  literal : Nat
  deriving DecidableEq, Repr

namespace Specificity

/-- How constrained a query node is. -/
def ofNode (cx : MatchContext) (n : Node) : Specificity :=
  let name := if cx.kinds.isIdentifier n.kind then n.text.filter cx.markers.hasWildcard else none
  match name with
  | none => ⟨0, 0⟩
  | some text =>
      if cx.markers.isNodeTree text then ⟨2, 0⟩ else ⟨1, cx.markers.literalLength text⟩

/-- Whether an element may choose before another. -/
def before (a b : Specificity) : Bool :=
  a.rank < b.rank || a.rank == b.rank && b.literal ≤ a.literal

end Specificity

/-- An element of a list and its place. -/
abbrev Placed := Nat × Node

/-- Elements with their places. -/
def placed (nodes : List Node) : List Placed := nodes.zipIdx.map fun (node, place) => (place, node)

/-- What became of an attempt to claim an element of the file. -/
structure Claim where
  /-- The place of the claimed element, the bindings and the elements still free; none if no
  element matched. -/
  taken : Option (Nat × Bindings × List Placed)
  violations : Nat

/-- Claims the first free element that a query element matches. -/
def claim (validator : Validator) (query : Node) (b : Bindings) : List Placed → Claim
  | [] => ⟨none, 0⟩
  | (place, file) :: free =>
      -- what a failed attempt bound is forgotten; its violations are not
      let trial := validator file query b
      if trial.agrees then ⟨some (place, trial.bindings, free), trial.violations⟩
      else
        let later := claim validator query b free
        { taken := later.taken.map fun (found, b, rest) => (found, b, (place, file) :: rest)
          violations := trial.violations + later.violations }

/-- The claims of all elements of a query list. -/
structure Claims where
  /-- The place of each query element and that of the element it claimed; none if an element
  found nothing to claim. -/
  places : Option (List (Nat × Nat))
  bindings : Bindings
  violations : Nat

/-- Lets query elements claim elements of the file one after another. -/
def claimAll (validator : Validator) : List Placed → List Placed → Bindings → Claims
  | [], _, b => ⟨some [], b, 0⟩
  | (place, query) :: rest, free, b =>
      let first := claim validator query b free
      match first.taken with
      | none => ⟨none, b, first.violations⟩
      | some (found, b, free) =>
          let later := claimAll validator rest free b
          { later with
            places := later.places.map ((place, found) :: ·)
            violations := first.violations + later.violations }

/-- Whether numbers strictly increase. -/
def increasing : List Nat → Bool
  | a :: b :: rest => a < b && increasing (b :: rest)
  | _ => true

/-- The places that were claimed, in the order of the query. -/
def claimedPlaces (places : List (Nat × Nat)) : List Nat :=
  (List.range places.length).filterMap fun place => places.lookup place

/-- Puts an element of a query list in front of the first one that it may choose before. -/
def insertToChoose (cx : MatchContext) (a : Placed) : List Placed → List Placed
  | [] => [a]
  | b :: rest =>
      if (Specificity.ofNode cx a.2).before (Specificity.ofNode cx b.2) then a :: b :: rest
      else b :: insertToChoose cx a rest

/-- The elements of a query list in the order in which they choose: the most constrained first,
those that are equally constrained in the order of the list. -/
def choosingOrder (cx : MatchContext) (query : List Node) : List Placed :=
  (placed query).foldr (insertToChoose cx) []

/-- Matches two lists of comparable nodes. -/
def validateComparable (cx : MatchContext) (validator : Validator) (file query : List Node)
    (b : Bindings) : Validation :=
  if cx.config.mode = .exact then
    if file.length = query.length then
      .inTurn ((file.zip query).map fun (f, q) => validator f q) b
    else .reject b
  else if file.length < query.length then .reject b
  else
    let claims := claimAll validator (choosingOrder cx query) (placed file) b
    match claims.places with
    | none => ⟨false, claims.bindings, claims.violations⟩
    | some places =>
        ⟨cx.config.mode != .ordered || increasing (claimedPlaces places), claims.bindings,
          claims.violations⟩

/-- Matches two lists of nodes. Nodes that the grammar does not compare are left out. -/
def validateList (cx : MatchContext) (validator : Validator) (file query : List Node)
    (b : Bindings) : Validation :=
  validateComparable cx validator (file.filter cx.grammar.isComparable)
    (query.filter cx.grammar.isComparable) b

/-- Matches what two nodes have at the ends of two paths. -/
def validatePath (cx : MatchContext) (validator : Validator) (file query : Node)
    (filePath queryPath : FieldPath) (b : Bindings) : Validation :=
  match file.resolve filePath, query.resolve queryPath with
  | some (.node fileChild), some (.node queryChild) => validator fileChild queryChild b
  | some (.nodes fileChildren), some (.nodes queryChildren) =>
      validateList cx validator fileChildren queryChildren b
  | _, _ => .reject b

/-- Matches the fields that a comparison left to agree, pair by pair. -/
def validateKeys (cx : MatchContext) (validator : Validator) (file query : Node)
    (found : Comparison) (b : Bindings) : Validation :=
  if found.queryKeys.length = found.fileKeys.length then
    .inTurn ((found.fileKeys.zip found.queryKeys).map fun (fileKey, queryKey) =>
      validatePath cx validator file query fileKey queryKey) b
  else ⟨false, b, 1⟩

/-- Goes on from a comparison to the fields it left to agree. -/
def validateFound (cx : MatchContext) (validator : Validator) (file query : Node) :
    Comparison × Bindings → Validation
  | (found, b) =>
      if found.agrees then validateKeys cx validator file query found b else .reject b

/-- Matches a file node with a query node that is at most so high. -/
def validateUpTo (cx : MatchContext) : Nat → Validator
  | 0 => fun _ _ b => .reject b
  | height + 1 => fun file query b =>
      validateFound cx (validateUpTo cx height) file query (compare cx file query b)

/-- Matches a file node with a query node at every depth. -/
def validate (cx : MatchContext) : Validator :=
  fun file query b => validateUpTo cx query.height file query b

end CodeSearch
