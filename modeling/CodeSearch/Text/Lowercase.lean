import CodeSearch.Text.LowercaseTable

/-!
# Lower case

Text in lower case, by the full Unicode mapping. Two rules go beyond a map on characters: the
capital I with a dot becomes two characters, and a capital sigma becomes a final sigma at the
end of a word.
-/

set_option autoImplicit false

namespace CodeSearch.Text

/-- The lower-case form of one character, where it is one character. -/
def lowercaseChar (c : Char) : Char :=
  if c.toNat < 0x80 then c.toLower else lowercaseRows.apply c

/-- Characters with a case. -/
def isCased (c : Char) : Bool :=
  if c.toNat < 0x80 then c.isAlpha else casedRanges.has c

/-- Characters that are skipped when looking for the letters around a character. -/
def isCaseIgnorable (c : Char) : Bool :=
  if c.toNat < 0x80 then c ∈ ['\'', '.', ':', '^', '\x60'] else caseIgnorableRanges.has c

/-- Whether the first character that case does not ignore is a cased one. -/
def startsCased (cs : List Char) : Bool :=
  ((cs.dropWhile isCaseIgnorable).head?.map isCased).getD false

/-- The lower-case form of a text whose preceding characters, nearest first, are `before`.
A sigma is final when a letter comes before it and none after it. -/
def lowercaseAfter (before : List Char) : List Char → List Char
  | [] => []
  | c :: cs =>
      let image :=
        if c = 'Σ' then
          if startsCased before && !startsCased cs then ['ς'] else ['σ']
        else if c = 'İ' then ['i', Char.ofNat 0x307]
        else [lowercaseChar c]
      image ++ lowercaseAfter (c :: before) cs

/-- A text in lower case. -/
def lowercase (cs : List Char) : List Char := lowercaseAfter [] cs

/-- Two texts agree, up to letter case if it is ignored. -/
def sameText (ignoreCase : Bool) (left right : String) : Bool :=
  if ignoreCase then lowercase left.toList == lowercase right.toList else left == right

/-- A text in lower case. -/
def lowercaseString (s : String) : String := String.ofList (lowercase s.toList)

/-- An ASCII text in lower case; other characters stay as they are. -/
def lowercaseAscii (s : String) : String := String.ofList (s.toList.map Char.toLower)

end CodeSearch.Text
