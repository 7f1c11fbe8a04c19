/-!
# Byte offsets into texts

Positions in source text are counted in UTF-8 bytes, while texts are lists of characters.
This file relates the two: the byte length of a text, cutting a text at a byte offset,
and the slice between two offsets. A cut inside a character does not exist.
-/

set_option autoImplicit false

namespace CodeSearch.Text

/-- The number of UTF-8 bytes of a text. -/
def byteLength : List Char → Nat
  | [] => 0
  | c :: cs => c.utf8Size + byteLength cs

@[simp] theorem byteLength_nil : byteLength [] = 0 := rfl

@[simp] theorem byteLength_cons (c : Char) (cs : List Char) :
    byteLength (c :: cs) = c.utf8Size + byteLength cs := rfl

@[simp] theorem byteLength_append (a b : List Char) :
    byteLength (a ++ b) = byteLength a + byteLength b := by
  induction a with
  | nil => simp
  | cons c cs ih => simp [ih, Nat.add_assoc]

theorem byteLength_eq_zero {cs : List Char} (h : byteLength cs = 0) : cs = [] := by
  cases cs with
  | nil => rfl
  | cons c cs =>
      have := c.utf8Size_pos
      rw [byteLength_cons] at h
      omega

/-- Cuts a text `n` bytes after its start. There is no cut past the end or inside a
character. -/
def cutAt? : Nat → List Char → Option (List Char × List Char)
  | 0, cs => some ([], cs)
  | _ + 1, [] => none
  | n + 1, c :: cs =>
      if c.utf8Size ≤ n + 1 then
        (cutAt? (n + 1 - c.utf8Size) cs).map fun (before, after) => (c :: before, after)
      else none

/-- The text between two byte offsets, if both are character boundaries in order. -/
def slice? (cs : List Char) (start stop : Nat) : Option (List Char) :=
  if start ≤ stop then do
    let (_, rest) ← cutAt? start cs
    let (middle, _) ← cutAt? (stop - start) rest
    some middle
  else none

/-- The text between two byte offsets; empty where there is no such slice. -/
def slice (cs : List Char) (start stop : Nat) : List Char :=
  (slice? cs start stop).getD []

/-- The two parts of a cut make up the text, and the first has the length asked for. -/
theorem cutAt?_eq_some {n : Nat} {cs before after : List Char}
    (h : cutAt? n cs = some (before, after)) :
    before ++ after = cs ∧ byteLength before = n := by
  induction cs generalizing n before with
  | nil =>
      cases n with
      | zero => simp_all [cutAt?]
      | succ n => simp [cutAt?] at h
  | cons c cs ih =>
      cases n with
      | zero => simp_all [cutAt?]
      | succ n =>
          simp only [cutAt?] at h
          split at h
          next hc =>
            obtain ⟨⟨b, a⟩, hb, hp⟩ := Option.map_eq_some_iff.1 h
            obtain ⟨rfl, rfl⟩ := Prod.mk.inj hp
            obtain ⟨hcat, hlen⟩ := ih hb
            exact ⟨by simp [hcat], by simp [hlen]; omega⟩
          next => simp at h

/-- A text can be cut between any two of its parts. -/
theorem cutAt?_append (before after : List Char) :
    cutAt? (byteLength before) (before ++ after) = some (before, after) := by
  induction before with
  | nil => simp [cutAt?]
  | cons c cs ih =>
      have hpos : 0 < c.utf8Size := c.utf8Size_pos
      obtain ⟨k, hk⟩ : ∃ k, c.utf8Size + byteLength cs = k + 1 :=
        ⟨c.utf8Size + byteLength cs - 1, by omega⟩
      have hrest : k + 1 - c.utf8Size = byteLength cs := by omega
      have hle : c.utf8Size ≤ k + 1 := by omega
      simp [hk, cutAt?, hle, hrest, ih]

/-- A slice is a part of the text with the given bytes before it and in it. -/
theorem slice?_append (before middle after : List Char) :
    slice? (before ++ middle ++ after) (byteLength before)
      (byteLength before + byteLength middle) = some middle := by
  simp [slice?, List.append_assoc, cutAt?_append]

/-- A slice is a part of the text that starts and ends at the bytes asked for. -/
theorem slice?_eq_some {cs piece : List Char} {start stop : Nat}
    (h : slice? cs start stop = some piece) :
    ∃ before after, cs = before ++ piece ++ after ∧ byteLength before = start ∧
      start + byteLength piece = stop := by
  unfold slice? at h
  split at h
  next hle =>
    obtain ⟨⟨before, rest⟩, hbefore, h⟩ := Option.bind_eq_some_iff.1 h
    obtain ⟨⟨middle, after⟩, hmiddle, heq⟩ := Option.bind_eq_some_iff.1 h
    obtain rfl : middle = piece := Option.some.inj heq
    obtain ⟨hcat, hlength⟩ := cutAt?_eq_some hbefore
    obtain ⟨hcat', hlength'⟩ := cutAt?_eq_some hmiddle
    refine ⟨before, after, ?_, hlength, by omega⟩
    rw [← hcat, ← hcat', List.append_assoc]
  next => simp at h

end CodeSearch.Text
