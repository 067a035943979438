/-!
# Text.Bytes — how many bytes a run of characters takes in UTF-8

Places in a text are counted in bytes (`extract_toByteArray`).  The count of a text is the sum of the counts of its
parts (`byteLen_append`), so it grows with every character (`byteLen_take_lt`).  It is the count of the characters if
each of them takes one byte (`byteLen_eq_length_iff`), and else more.
-/
namespace Wordcode.Text

/-- The bytes that a run of characters takes in UTF-8. -/
def byteLen : List Char → Nat
  | [] => 0
  | c :: cs => c.utf8Size + byteLen cs

@[simp] theorem byteLen_nil : byteLen [] = 0 := rfl

@[simp] theorem byteLen_cons (c : Char) (cs : List Char) : byteLen (c :: cs) = c.utf8Size + byteLen cs := rfl

@[simp] theorem byteLen_append (a b : List Char) : byteLen (a ++ b) = byteLen a + byteLen b := by
  induction a with
  | nil => simp
  | cons c a ih => simp [ih, Nat.add_assoc]

/-- The count is that of the bytes which encode the characters. -/
theorem size_utf8Encode (cs : List Char) : cs.utf8Encode.size = byteLen cs := by
  induction cs with
  | nil => rfl
  | cons c cs ih =>
    rw [List.utf8Encode_cons, ByteArray.size_append, ih, byteLen_cons, List.utf8Encode_singleton,
      List.size_toByteArray, String.length_utf8EncodeChar]

/-- **The bytes of a part of a text** stand behind as many bytes as the characters in front take. -/
theorem extract_toByteArray {text : String} {before part behind : List Char}
    (h : text.toList = before ++ (part ++ behind)) :
    text.toByteArray.extract (byteLen before) (byteLen before + byteLen part) = (String.ofList part).toByteArray := by
  have hbytes : text.toByteArray = before.utf8Encode ++ (part.utf8Encode ++ behind.utf8Encode) := by
    rw [← String.ofList_toList (s := text), h, String.toByteArray_ofList, List.utf8Encode_append,
      List.utf8Encode_append]
  have hskip : ∀ bytes : ByteArray, (before.utf8Encode ++ bytes).extract (byteLen before)
      (byteLen before + byteLen part) = bytes.extract 0 (byteLen part) := fun _ =>
    ByteArray.extract_append_size_add' (i := 0) (size_utf8Encode before).symm
  rw [hbytes, hskip, ByteArray.extract_append_eq_left (size_utf8Encode part).symm, String.toByteArray_ofList]

theorem length_le_byteLen : ∀ cs : List Char, cs.length ≤ byteLen cs
  | [] => Nat.le_refl _
  | c :: cs => by
    have hc := c.utf8Size_pos
    have ih := length_le_byteLen cs
    rw [List.length_cons, byteLen_cons]
    omega

theorem le_byteLen_take {cs : List Char} {n : Nat} (hn : n ≤ cs.length) : n ≤ byteLen (cs.take n) := by
  have h := length_le_byteLen (cs.take n)
  rwa [List.length_take, Nat.min_eq_left hn] at h

theorem byteLen_eq_length_iff : ∀ {cs : List Char}, byteLen cs = cs.length ↔ ∀ c ∈ cs, c.utf8Size = 1
  | [] => by simp
  | c :: cs => by
    have hc := c.utf8Size_pos
    have hcs := length_le_byteLen cs
    rw [List.forall_mem_cons, ← byteLen_eq_length_iff, byteLen_cons, List.length_cons]
    omega

/-- **Each character takes the count further.** -/
theorem byteLen_take_lt {cs : List Char} {i j : Nat} (h : i < j) (hj : j ≤ cs.length) :
    byteLen (cs.take i) < byteLen (cs.take j) := by
  have hsplit : cs.take j = cs.take i ++ (cs.take j).drop i := by
    have htake := List.take_append_drop i (cs.take j)
    rwa [List.take_take, Nat.min_eq_left (Nat.le_of_lt h), eq_comm] at htake
  have hmore := length_le_byteLen ((cs.take j).drop i)
  rw [List.length_drop, List.length_take, Nat.min_eq_left hj] at hmore
  rw [hsplit, byteLen_append]
  omega

theorem byteLen_take_le_iff {cs : List Char} {i j : Nat} (hi : i ≤ cs.length) (hj : j ≤ cs.length) :
    byteLen (cs.take i) ≤ byteLen (cs.take j) ↔ i ≤ j := by
  constructor
  · intro h
    refine Nat.le_of_not_lt fun hji => ?_
    have hlt := byteLen_take_lt hji hi
    omega
  · intro h
    rcases Nat.lt_or_eq_of_le h with hlt | rfl
    · exact Nat.le_of_lt (byteLen_take_lt hlt hj)
    · exact Nat.le_refl _

end Wordcode.Text
