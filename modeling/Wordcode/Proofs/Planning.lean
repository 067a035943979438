import Mathlib.Algebra.Group.Nat.Defs
import Mathlib.Order.Bounds.Defs
import Wordcode.Proofs.Memory
/-!
# Proofs.Planning — a layout is planned exactly, and nothing overflows

Planning refuses a base that is no multiple of eight, then an end that 32 bits cannot address, and accepts all else
(`plan_of_not_dvd`, `plan_of_dvd`).  No sum of planning overflows a word of 64 bits (`planInWords_eq`), and none of an
accepted layout the 32 bits of its fields and of the addresses that are computed from them (`Planned.toExact`).
-/
namespace Wordcode.Layout

variable {dataLen : UInt32} {codeLen : Nat} {o : Options} {l : Layout}

/-- The address behind the stack. -/
def stop (dataLen : UInt32) (codeLen : Nat) (o : Options) : Nat :=
  o.staticBase.toNat + alignUp (alignUp dataLen.toNat + codeLen) + o.stackCapacity.toNat

theorem plan_of_not_dvd (hb : ¬ 8 ∣ o.staticBase.toNat) :
    plan dataLen codeLen o = .error (.misalignedStaticBase o.staticBase) := by
  have hmod : o.staticBase.toNat % alignment ≠ 0 := fun h => hb (Nat.dvd_of_mod_eq_zero h)
  rw [plan, if_pos hmod]

theorem plan_of_dvd (hb : 8 ∣ o.staticBase.toNat) :
    (stop dataLen codeLen o ≤ 2 ^ 32 - 1 ∧ ∃ l, plan dataLen codeLen o = .ok l) ∨
    (2 ^ 32 - 1 < stop dataLen codeLen o ∧
      plan dataLen codeLen o = .error (.addressSpaceExhausted (stop dataLen codeLen o))) := by
  have hmod : ¬ o.staticBase.toNat % alignment ≠ 0 := fun h => h (Nat.mod_eq_zero_of_dvd hb)
  have hsize : UInt32.size = 2 ^ 32 := rfl
  rw [plan, if_neg hmod]
  simp only [← Nat.add_assoc]
  by_cases hs : stop dataLen codeLen o < UInt32.size
  · exact .inl ⟨by omega, _, if_pos hs⟩
  · exact .inr ⟨by omega, if_neg hs⟩

/-! ## In words -/

/-- The sum of two words, if it is a word. -/
def sum? (a b : UInt64) : Option UInt64 :=
  if a.toNat + b.toNat < UInt64.size then some (a + b) else none

/-- The least multiple of eight that is not below a word, if it is a word. -/
def alignUp? (n : UInt64) : Option UInt64 :=
  if n % 8 = 0 then some n else sum? n (8 - n % 8)

/-- Planning with sums of 64-bit words, cut to 32 bits field by field, if no sum overflows. -/
def planInWords (dataLen : UInt32) (codeLen : Nat) (o : Options) : Option (Except Fault Layout) :=
  if o.staticBase % 8 ≠ 0 then return .error (.misalignedStaticBase o.staticBase)
  else do
    let codeOffset ← alignUp? dataLen.toUInt64
    let codeEnd ← sum? codeOffset codeLen.toUInt64
    let stackOffset ← alignUp? codeEnd
    let staticSize ← sum? stackOffset o.stackCapacity.toUInt64
    let stop ← sum? o.staticBase.toUInt64 staticSize
    if stop > 4294967295 then return .error (.addressSpaceExhausted stop.toNat)
    else
      return .ok { staticBase := o.staticBase
                   dataLen
                   codeOffset := codeOffset.toUInt32
                   codeLen := codeLen.toUInt32
                   stackOffset := stackOffset.toUInt32
                   stackCapacity := o.stackCapacity
                   staticSize := staticSize.toUInt32 }

theorem sum?_of_lt {a b : UInt64} (h : a.toNat + b.toNat < UInt64.size) :
    ∃ c, sum? a b = some c ∧ c.toNat = a.toNat + b.toNat := by
  refine ⟨a + b, if_pos h, ?_⟩
  rw [UInt64.toNat_add]
  exact Nat.mod_eq_of_lt h

theorem alignUp?_of_lt {n : UInt64} (h : n.toNat + 8 < UInt64.size) :
    ∃ c, alignUp? n = some c ∧ c.toNat = alignUp n.toNat := by
  have hmod : (n % 8).toNat = n.toNat % 8 := UInt64.toNat_mod n 8
  unfold alignUp? alignUp alignment
  by_cases h8 : n % 8 = 0
  · have : n.toNat % 8 = 0 := by rw [← hmod, h8]; rfl
    exact ⟨n, if_pos h8, by omega⟩
  · have hne : n.toNat % 8 ≠ 0 := fun h0 => h8 (UInt64.toNat_inj.1 (hmod.trans h0))
    have hle : n % 8 ≤ 8 := by
      rw [UInt64.le_iff_toNat_le, hmod]
      exact Nat.le_of_lt (Nat.mod_lt _ (by decide))
    have hsub : (8 - n % 8).toNat = 8 - n.toNat % 8 := by
      rw [UInt64.toNat_sub_of_le _ _ hle, hmod]
      rfl
    rw [if_neg h8]
    obtain ⟨c, hc, hval⟩ := sum?_of_lt (a := n) (b := 8 - n % 8) (by omega)
    exact ⟨c, hc, by omega⟩

theorem toUInt32_eq (n : UInt64) : n.toUInt32 = n.toNat.toUInt32 := (UInt32.ofNat_uInt64ToNat n).symm

/-- **Planning in words is planning, and no sum overflows**, for bytecode whose length is a number of 32 bits. -/
theorem planInWords_eq (hcode : codeLen < 2 ^ 32) :
    planInWords dataLen codeLen o = some (plan dataLen codeLen o) := by
  have hdata := dataLen.toNat_lt
  have hbase := o.staticBase.toNat_lt
  have hcapacity := o.stackCapacity.toNat_lt
  have hup := alignUp_lt dataLen.toNat
  have hup' := alignUp_lt (alignUp dataLen.toNat + codeLen)
  have halign : alignment = 8 := rfl
  have hsize : UInt64.size = 2 ^ 64 := rfl
  have hcodeLen : codeLen.toUInt64.toNat = codeLen := UInt64.toNat_ofNat_of_lt' (by omega)
  have hdataLen : dataLen.toUInt64.toNat = dataLen.toNat := dataLen.toNat_toUInt64
  have hstackCapacity : o.stackCapacity.toUInt64.toNat = o.stackCapacity.toNat := o.stackCapacity.toNat_toUInt64
  have hstaticBase : o.staticBase.toUInt64.toNat = o.staticBase.toNat := o.staticBase.toNat_toUInt64
  -- each sum is far below 2^64
  obtain ⟨codeOffset, hc, hcodeOffset⟩ := alignUp?_of_lt (n := dataLen.toUInt64) (by omega)
  rw [hdataLen] at hcodeOffset
  obtain ⟨codeEnd, he, hcodeEnd⟩ := sum?_of_lt (a := codeOffset) (b := codeLen.toUInt64) (by omega)
  rw [hcodeOffset, hcodeLen] at hcodeEnd
  obtain ⟨stackOffset, hk, hstackOffset⟩ := alignUp?_of_lt (n := codeEnd) (by omega)
  rw [hcodeEnd] at hstackOffset
  obtain ⟨staticSize, hz, hstaticSize⟩ := sum?_of_lt (a := stackOffset) (b := o.stackCapacity.toUInt64) (by omega)
  rw [hstackOffset, hstackCapacity] at hstaticSize
  obtain ⟨stop, hs, hstop⟩ := sum?_of_lt (a := o.staticBase.toUInt64) (b := staticSize) (by omega)
  rw [hstaticSize, hstaticBase] at hstop
  have haligned : o.staticBase % 8 ≠ 0 ↔ o.staticBase.toNat % alignment ≠ 0 := by
    rw [Ne, ← UInt32.toNat_inj, UInt32.toNat_mod]
    rfl
  have hfits : stop > 4294967295 ↔ ¬ stop.toNat < UInt32.size := by
    rw [gt_iff_lt, UInt64.lt_iff_toNat_lt, Nat.not_lt]
    exact Iff.rfl
  simp only [planInWords, plan, haligned, hfits, hc, he, hk, hz, hs, Option.bind_eq_bind, Option.bind_some,
    Option.pure_def, toUInt32_eq, hstop, hstaticSize, hstackOffset, hcodeOffset, ite_not, apply_ite some]

/-! ## What is accepted -/

/-- **What an accepted layout is, and what is computed from it**, in numbers without a bound. -/
structure Exact (dataLen : UInt32) (codeLen : Nat) (o : Options) (l : Layout) : Prop
    extends l.Planned dataLen codeLen o where
  codeOffset_least : IsLeast {n | 8 ∣ n ∧ dataLen.toNat ≤ n} l.codeOffset.toNat
  stackOffset_least : IsLeast {n | 8 ∣ n ∧ l.codeOffset.toNat + codeLen ≤ n} l.stackOffset.toNat
  codeStart_eq : l.codeStart.toNat = o.staticBase.toNat + l.codeOffset.toNat
  stackStart_eq : l.stackStart.toNat = o.staticBase.toNat + l.stackOffset.toNat
  stackMax_eq : l.stackMax.toNat = l.stackStart.toNat + o.stackCapacity.toNat
  stackMax_eq_stop : l.stackMax.toNat = o.staticBase.toNat + l.staticSize.toNat
  dvd_codeStart : 8 ∣ l.codeStart.toNat
  dvd_stackStart : 8 ∣ l.stackStart.toNat
  dataLen_le : dataLen.toNat ≤ l.staticSize.toNat
  growth_eq : l.growth.toNat = l.staticSize.toNat - dataLen.toNat
  /-- The transform adds the bytecode, the stack and less than eight bytes in front of each. -/
  pads : ∃ pad pad', pad < 8 ∧ pad' < 8 ∧ l.codeOffset.toNat = dataLen.toNat + pad ∧
    l.stackOffset.toNat = l.codeOffset.toNat + codeLen + pad' ∧
    l.growth.toNat = pad + codeLen + pad' + o.stackCapacity.toNat

theorem isLeast_alignUp (n : Nat) : IsLeast {m | 8 ∣ m ∧ n ≤ m} (alignUp n) :=
  ⟨⟨dvd_alignUp n, le_alignUp n⟩, fun _ h => alignUp_le h.2 h.1⟩

namespace Planned

theorem dvd_stackOffset (h : l.Planned dataLen codeLen o) : alignment ∣ l.stackOffset.toNat := by
  rw [h.stackOffset_eq]
  exact dvd_alignUp _

theorem data_le_staticSize (h : l.Planned dataLen codeLen o) : dataLen.toNat ≤ l.staticSize.toNat := by
  have hdata := h.data_le_code
  have hcode := h.code_le_stack
  have hsize := h.staticSize_eq
  omega

/-- Nothing is borrowed when the data is taken from static memory. -/
theorem toNat_growth (h : l.Planned dataLen codeLen o) :
    l.growth.toNat = l.staticSize.toNat - dataLen.toNat := by
  have hle := h.data_le_staticSize
  rw [growth, h.dataLen_eq]
  exact UInt32.toNat_sub_of_le _ _ (UInt32.le_iff_toNat_le.2 hle)

theorem growth_pads (h : l.Planned dataLen codeLen o) :
    ∃ pad pad', pad < 8 ∧ pad' < 8 ∧ l.codeOffset.toNat = dataLen.toNat + pad ∧
      l.stackOffset.toNat = l.codeOffset.toNat + codeLen + pad' ∧
      l.growth.toNat = pad + codeLen + pad' + o.stackCapacity.toNat := by
  have halign : alignment = 8 := rfl
  have hdata := h.data_le_code
  have hcode := h.code_le_stack
  have hup := alignUp_lt dataLen.toNat
  have hup' := alignUp_lt (l.codeOffset.toNat + codeLen)
  rw [← h.codeOffset_eq] at hup
  rw [← h.stackOffset_eq] at hup'
  have hsize := h.staticSize_eq
  have hgrowth := h.toNat_growth
  exact ⟨l.codeOffset.toNat - dataLen.toNat, l.stackOffset.toNat - (l.codeOffset.toNat + codeLen), by omega, by omega,
    by omega, by omega, by omega⟩

theorem toExact (h : l.Planned dataLen codeLen o) : l.Exact dataLen codeLen o where
  toPlanned := h
  codeOffset_least := h.codeOffset_eq ▸ isLeast_alignUp _
  stackOffset_least := h.stackOffset_eq ▸ isLeast_alignUp _
  codeStart_eq := h.toNat_codeStart
  stackStart_eq := h.toNat_stackStart
  stackMax_eq := h.toNat_stackMax
  stackMax_eq_stop := by rw [h.toNat_stackMax, h.toNat_stackStart, h.staticSize_eq, Nat.add_assoc]
  dvd_codeStart := h.toNat_codeStart ▸ Nat.dvd_add h.aligned h.dvd_codeOffset
  dvd_stackStart := h.toNat_stackStart ▸ Nat.dvd_add h.aligned h.dvd_stackOffset
  dataLen_le := h.data_le_staticSize
  growth_eq := h.toNat_growth
  pads := h.growth_pads

end Planned

theorem exists_plan_eq_ok_iff :
    (∃ l, plan dataLen codeLen o = .ok l) ↔ 8 ∣ o.staticBase.toNat ∧ stop dataLen codeLen o ≤ 2 ^ 32 - 1 := by
  by_cases hb : 8 ∣ o.staticBase.toNat
  · rcases plan_of_dvd hb with ⟨hs, hok⟩ | ⟨hs, hplan⟩
    · exact ⟨fun _ => ⟨hb, hs⟩, fun _ => hok⟩
    · rw [hplan]
      exact ⟨fun ⟨_, h⟩ => (by cases h), fun h => absurd h.2 (Nat.not_le.2 hs)⟩
  · rw [plan_of_not_dvd hb]
    exact ⟨fun ⟨_, h⟩ => (by cases h), fun h => absurd h.1 hb⟩

theorem plan_eq_error_iff {f : Fault} :
    plan dataLen codeLen o = .error f ↔
      (¬ 8 ∣ o.staticBase.toNat ∧ f = .misalignedStaticBase o.staticBase) ∨
      (8 ∣ o.staticBase.toNat ∧ 2 ^ 32 - 1 < stop dataLen codeLen o ∧
        f = .addressSpaceExhausted (stop dataLen codeLen o)) := by
  constructor
  · intro h
    by_cases hb : 8 ∣ o.staticBase.toNat
    · rcases plan_of_dvd hb with ⟨-, l, hplan⟩ | ⟨hs, hplan⟩ <;> rw [hplan] at h <;> cases h
      exact .inr ⟨hb, hs, rfl⟩
    · rw [plan_of_not_dvd hb] at h
      cases h
      exact .inl ⟨hb, rfl⟩
  · rintro (⟨hb, rfl⟩ | ⟨hb, hs, rfl⟩)
    · exact plan_of_not_dvd hb
    · rcases plan_of_dvd hb with ⟨hle, -⟩ | ⟨-, hplan⟩
      · exact absurd hs (Nat.not_lt.2 hle)
      · exact hplan

/-- **Planning is exact and overflows nowhere.**  Whatever the data, the bytecode and the options are, planning in words
is planning; a layout is accepted exactly if the base is a multiple of eight and the end an address; a refusal names the
base, or else the end; and the numbers of an accepted layout are the ones that were computed, as are those computed from
it. -/
theorem plan_exact (dataLen : UInt32) (codeLen : Nat) (o : Options) (hcode : codeLen < 2 ^ 32) :
    planInWords dataLen codeLen o = some (plan dataLen codeLen o) ∧
    ((∃ l, plan dataLen codeLen o = .ok l) ↔
      8 ∣ o.staticBase.toNat ∧ stop dataLen codeLen o ≤ 2 ^ 32 - 1) ∧
    (∀ f, plan dataLen codeLen o = .error f ↔
      (¬ 8 ∣ o.staticBase.toNat ∧ f = .misalignedStaticBase o.staticBase) ∨
      (8 ∣ o.staticBase.toNat ∧ 2 ^ 32 - 1 < stop dataLen codeLen o ∧
        f = .addressSpaceExhausted (stop dataLen codeLen o))) ∧
    ∀ l, plan dataLen codeLen o = .ok l → l.Exact dataLen codeLen o :=
  ⟨planInWords_eq hcode, exists_plan_eq_ok_iff, fun _ => plan_eq_error_iff, fun _ h => (planned h).toExact⟩

/-- The last end that is an address. -/
theorem plan_exact_at_limit :
    20 < 2 ^ 32 ∧ stop 13 20 ⟨4294967247, 8⟩ = 2 ^ 32 - 1 ∧
      ∃ l, plan 13 20 ⟨4294967247, 8⟩ = .ok l ∧ l.Exact 13 20 ⟨4294967247, 8⟩ := by
  obtain ⟨-, hok, -, hexact⟩ := plan_exact 13 20 ⟨4294967247, 8⟩ (by decide)
  obtain ⟨l, hl⟩ := hok.2 (by decide)
  exact ⟨by decide, by decide, l, hl, hexact l hl⟩

end Wordcode.Layout
