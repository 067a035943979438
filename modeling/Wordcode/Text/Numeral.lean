/-!
# Text.Numeral — decimal numerals and hexadecimal bytes

A decimal numeral is a run of ASCII digits that is not empty; zeros in front do not count.
-/
namespace Wordcode.Text

/-- The number that a run of digits stands for. -/
def digitsValue (cs : List Char) : Nat := cs.foldl (fun n c => 10 * n + (c.toNat - '0'.toNat)) 0

/-- **The number of a decimal numeral**, `none` for a text that is no numeral. -/
def decimal? (cs : List Char) : Option Nat :=
  if cs ≠ [] ∧ cs.all Char.isDigit = true then some (digitsValue cs) else none

/-- The byte of a decimal numeral, `none` for a numeral beyond 255 too. -/
def byte? (cs : List Char) : Option UInt8 :=
  (decimal? cs).bind fun n => if n < 256 then some n.toUInt8 else none

/-- A decimal integer with an optional sign in front. -/
def integer? : List Char → Option Int
  | '+' :: cs => (decimal? cs).map Int.ofNat
  | '-' :: cs => (decimal? cs).map fun n => -Int.ofNat n
  | cs => (decimal? cs).map Int.ofNat

/-- An integer that fits in 32 bits without a sign. -/
def word? (cs : List Char) : Option UInt32 :=
  (integer? cs).bind fun n => if 0 ≤ n ∧ n.toNat < UInt32.size then some n.toNat.toUInt32 else none

/-- The hexadecimal digit of a number below sixteen, letters in upper case. -/
def hexDigit (n : Nat) : Char := if n < 10 then Char.ofNat ('0'.toNat + n) else Char.ofNat ('A'.toNat + (n - 10))

/-- A byte as two hexadecimal digits. -/
def hexByte (b : UInt8) : String := String.ofList [hexDigit (b.toNat / 16), hexDigit (b.toNat % 16)]

theorem decimal?_eq_some_iff {cs : List Char} {n : Nat} :
    decimal? cs = some n ↔ cs ≠ [] ∧ (∀ c ∈ cs, c.isDigit = true) ∧ digitsValue cs = n := by
  unfold decimal?
  split
  · rename_i h
    rw [List.all_eq_true] at h
    exact ⟨fun hn => ⟨h.1, h.2, Option.some.inj hn⟩, fun hn => congrArg some hn.2.2⟩
  · rename_i h
    rw [List.all_eq_true] at h
    exact ⟨fun hn => (by cases hn), fun hn => absurd ⟨hn.1, hn.2.1⟩ h⟩

/-- **The numerals of a byte** are the decimal numerals whose value it is. -/
theorem byte?_eq_some_iff {cs : List Char} {b : UInt8} :
    byte? cs = some b ↔ cs ≠ [] ∧ (∀ c ∈ cs, c.isDigit = true) ∧ digitsValue cs = b.toNat := by
  rw [← decimal?_eq_some_iff]
  unfold byte?
  constructor
  · intro h
    obtain ⟨n, hn, hb⟩ := Option.bind_eq_some_iff.1 h
    split at hb
    · rename_i hlt
      rw [hn, ← Option.some.inj hb]
      simp [UInt8.toNat_ofNat', Nat.mod_eq_of_lt hlt]
    · cases hb
  · intro h
    rw [h, Option.bind_some, if_pos b.toNat_lt]
    simp

end Wordcode.Text
