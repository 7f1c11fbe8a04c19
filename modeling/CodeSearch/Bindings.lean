import CodeSearch.Node.Equality
import CodeSearch.Text.Lowercase
import CodeSearch.Wildcard.Pattern

/-!
# Bindings of aliases

While a query is matched its aliases are bound to pieces of the file. Identifier and string
aliases are bound to texts and share one name space: `$$_a` in an identifier and `$$_a` in a
string stand for the same text. Node-tree aliases are bound to subtrees and have a name space
of their own.

Every operation that has to agree with earlier bindings returns the extended bindings, or
`none` if it does not agree.
-/

set_option autoImplicit false

namespace CodeSearch

/-- What an alias stands for: a text, and the subtree it was taken from for a node-tree
alias. -/
structure Binding where
  value : String
  node : Option Node := none
  deriving Inhabited

/-- Bindings by alias, in the order of the aliases. -/
abbrev AliasMap := List (String × Binding)

namespace AliasMap

/-- Binds an alias, replacing a former binding. -/
def insert (aliasName : String) (binding : Binding) : AliasMap → AliasMap
  | [] => [(aliasName, binding)]
  | (key, old) :: rest =>
      if aliasName = key then (aliasName, binding) :: rest
      else if aliasName < key then (aliasName, binding) :: (key, old) :: rest
      else (key, old) :: insert aliasName binding rest

theorem lookup_insert (aliasName other : String) (binding : Binding) (entries : AliasMap) :
    (insert aliasName binding entries).lookup other =
      if other = aliasName then some binding else entries.lookup other := by
  induction entries with
  | nil =>
      by_cases h : other = aliasName
      · simp [insert, h]
      · have h' : (other == aliasName) = false := by simpa using h
        simp [insert, List.lookup_cons, h, h']
  | cons entry rest ih =>
      obtain ⟨key, old⟩ := entry
      by_cases h : other = aliasName
      · subst h
        by_cases hk : other = key
        · simp [insert, hk]
        · have hk' : (other == key) = false := by simpa using hk
          by_cases hlt : other < key
          · simp [insert, hk, hlt]
          · simp [insert, hk, hlt, List.lookup_cons, hk', ih]
      · have h' : (other == aliasName) = false := by simpa using h
        by_cases hk : aliasName = key
        · subst hk
          simp [insert, List.lookup_cons, h, h']
        · by_cases hlt : aliasName < key
          · simp [insert, hk, hlt, List.lookup_cons, h, h']
          · simp [insert, hk, hlt, List.lookup_cons, h, ih]

end AliasMap

/-- The bindings of one match, by the kind of wildcard that made them. -/
structure Bindings where
  identifier : AliasMap := []
  string : AliasMap := []
  nodeTree : AliasMap := []
  deriving Inhabited

namespace Bindings

/-- Nothing is bound. -/
def empty : Bindings := {}

/-- Whether nothing is bound. -/
def isEmpty (b : Bindings) : Bool :=
  b.identifier.isEmpty && b.string.isEmpty && b.nodeTree.isEmpty

/-- What an identifier or string alias is bound to. -/
def textual? (b : Bindings) (aliasName : String) : Option Binding :=
  (b.identifier.lookup aliasName).or (b.string.lookup aliasName)

/-- Binds an alias of the given kind. -/
def bind (b : Bindings) (kind : WildcardKind) (aliasName : String) (binding : Binding) : Bindings :=
  match kind with
  | .identifier => { b with identifier := AliasMap.insert aliasName binding b.identifier }
  | .string => { b with string := AliasMap.insert aliasName binding b.string }
  | .nodeTree => { b with nodeTree := AliasMap.insert aliasName binding b.nodeTree }

/-- The bindings once a node-tree alias stands for `node`, whose source is `code`. An alias
bound to a subtree only agrees with structurally equal ones. -/
def matchNode? (b : Bindings) (aliasName code : String) (node : Node) : Option Bindings :=
  match (b.nodeTree.lookup aliasName).bind Binding.node with
  | some bound => if bound.structEq node then some b else none
  | none => some (b.bind .nodeTree aliasName ⟨code, some node⟩)

/-- The captures of aliases that were not bound, one for each, given those found so far. There
are none if a capture differs from what its alias stands for. -/
def fresh? (b : Bindings) (ignoreCase : Bool) :
    List Capture → List (String × String) → Option (List (String × String))
  | [], found => some found
  | capture :: rest, found =>
      let bound? := (b.textual? capture.aliasName).map Binding.value
      match bound?.or (found.lookup capture.aliasName) with
      | some bound =>
          if Text.sameText ignoreCase bound capture.text then fresh? b ignoreCase rest found
          else none
      | none => fresh? b ignoreCase rest (found ++ [(capture.aliasName, capture.text)])

/-- Binds several aliases to texts. -/
def bindTexts (b : Bindings) (kind : WildcardKind) (texts : List (String × String)) : Bindings :=
  texts.foldl (fun b (aliasName, text) => b.bind kind aliasName ⟨text, none⟩) b

/-- The bindings once a pattern has matched a value, its new aliases bound with the given
kind. -/
def matchText? (b : Bindings) (ignoreCase : Bool) (pattern : Pattern) (value : String)
    (kind : WildcardKind) : Option Bindings := do
  let captures ← pattern.captures? ignoreCase value
  let fresh ← b.fresh? ignoreCase captures []
  some (b.bindTexts kind fresh)

end Bindings

end CodeSearch
