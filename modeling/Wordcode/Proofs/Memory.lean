import Wordcode.Memory.Image
import Wordcode.Proofs.Outcome
/-!
# Proofs.Memory — what an accepted layout places, and where

A layout is accepted only if its end fits in 32 bits.  Every sum on the way there fits with it, so each of its numbers
is the one that was computed (`planned`), and an image holds the bytecode where the layout says (`Built.bytes_eq`).
-/
namespace Wordcode

variable {o : Options}

theorem toNat_toUInt32 {n : Nat} (h : n < UInt32.size) : n.toUInt32.toNat = n := UInt32.toNat_ofNat_of_lt' h

theorem toNat_add_of_lt {a b : UInt32} (h : a.toNat + b.toNat < UInt32.size) :
    (a + b).toNat = a.toNat + b.toNat := by
  rw [UInt32.toNat_add]
  exact Nat.mod_eq_of_lt h

namespace Layout

/-- **What an accepted layout is**, in numbers without a bound. -/
structure Planned (dataLen : UInt32) (codeLen : Nat) (o : Options) (l : Layout) : Prop where
  staticBase_eq : l.staticBase = o.staticBase
  dataLen_eq : l.dataLen = dataLen
  stackCapacity_eq : l.stackCapacity = o.stackCapacity
  aligned : alignment ∣ o.staticBase.toNat
  codeOffset_eq : l.codeOffset.toNat = alignUp dataLen.toNat
  codeLen_eq : l.codeLen.toNat = codeLen
  stackOffset_eq : l.stackOffset.toNat = alignUp (l.codeOffset.toNat + codeLen)
  staticSize_eq : l.staticSize.toNat = l.stackOffset.toNat + o.stackCapacity.toNat
  stop_lt : o.staticBase.toNat + l.staticSize.toNat < UInt32.size

theorem planned {dataLen : UInt32} {codeLen : Nat} {l : Layout} (h : plan dataLen codeLen o = .ok l) :
    l.Planned dataLen codeLen o := by
  unfold plan at h
  split at h
  · cases h
  rename_i hbase
  simp only at h
  split at h
  · rename_i hstop
    cases h
    have hcode := le_alignUp (alignUp dataLen.toNat + codeLen)
    have hcodeOffset : (alignUp dataLen.toNat).toUInt32.toNat = alignUp dataLen.toNat :=
      toNat_toUInt32 (by omega)
    have hstackOffset : (alignUp (alignUp dataLen.toNat + codeLen)).toUInt32.toNat =
        alignUp (alignUp dataLen.toNat + codeLen) := toNat_toUInt32 (by omega)
    have hstaticSize : (alignUp (alignUp dataLen.toNat + codeLen) + o.stackCapacity.toNat).toUInt32.toNat =
        alignUp (alignUp dataLen.toNat + codeLen) + o.stackCapacity.toNat := toNat_toUInt32 (by omega)
    exact
      { staticBase_eq := rfl
        dataLen_eq := rfl
        stackCapacity_eq := rfl
        aligned := Nat.dvd_of_mod_eq_zero (Decidable.not_not.1 hbase)
        codeOffset_eq := hcodeOffset
        codeLen_eq := toNat_toUInt32 (by omega)
        stackOffset_eq := by
          show _ = alignUp ((alignUp dataLen.toNat).toUInt32.toNat + codeLen)
          rw [hcodeOffset]
          exact hstackOffset
        staticSize_eq := by
          show _ = (alignUp (alignUp dataLen.toNat + codeLen)).toUInt32.toNat + _
          rw [hstackOffset]
          exact hstaticSize
        stop_lt := by
          show o.staticBase.toNat + UInt32.toNat _ < _
          rw [hstaticSize]
          exact hstop }
  · cases h

namespace Planned

variable {dataLen : UInt32} {codeLen : Nat} {l : Layout}

theorem data_le_code (h : l.Planned dataLen codeLen o) : dataLen.toNat ≤ l.codeOffset.toNat := by
  rw [h.codeOffset_eq]
  exact le_alignUp _

theorem code_le_stack (h : l.Planned dataLen codeLen o) : l.codeOffset.toNat + codeLen ≤ l.stackOffset.toNat := by
  rw [h.stackOffset_eq]
  exact le_alignUp _

theorem dvd_codeOffset (h : l.Planned dataLen codeLen o) : alignment ∣ l.codeOffset.toNat := by
  rw [h.codeOffset_eq]
  exact dvd_alignUp _

/-- The addresses of bytecode and stack do not wrap around. -/
theorem toNat_codeStart (h : l.Planned dataLen codeLen o) :
    l.codeStart.toNat = o.staticBase.toNat + l.codeOffset.toNat := by
  have hcode := h.code_le_stack
  have hsize := h.staticSize_eq
  have hstop := h.stop_lt
  rw [codeStart, h.staticBase_eq, toNat_add_of_lt (by omega)]

theorem toNat_stackStart (h : l.Planned dataLen codeLen o) :
    l.stackStart.toNat = o.staticBase.toNat + l.stackOffset.toNat := by
  have hsize := h.staticSize_eq
  have hstop := h.stop_lt
  rw [stackStart, h.staticBase_eq, toNat_add_of_lt (by omega)]

theorem toNat_stackMax (h : l.Planned dataLen codeLen o) :
    l.stackMax.toNat = l.stackStart.toNat + o.stackCapacity.toNat := by
  have hsize := h.staticSize_eq
  have hstop := h.stop_lt
  have hstart := h.toNat_stackStart
  rw [stackMax, toNat_add_of_lt] <;> rw [h.stackCapacity_eq]
  omega

/-- Nor does the address of any place in the bytecode or behind it. -/
theorem toNat_codeStart_add (h : l.Planned dataLen codeLen o) {offset : Nat} (ho : offset ≤ codeLen) :
    (l.codeStart + offset.toUInt32).toNat = o.staticBase.toNat + l.codeOffset.toNat + offset := by
  have hcode := h.code_le_stack
  have hsize := h.staticSize_eq
  have hstop := h.stop_lt
  have hstart := h.toNat_codeStart
  have hoffset : offset.toUInt32.toNat = offset := toNat_toUInt32 (by omega)
  rw [toNat_add_of_lt (by omega), hstart, hoffset]

end Planned
end Layout

namespace Image

/-- **What an image is**: its layout was accepted, and its bytes are the data, zeros, the bytecode and zeros. -/
structure Built (m : StaticMemory) (code : List UInt8) (o : Options) (i : Image) : Prop where
  fits : m.data.length ≤ m.size.toNat
  planned : i.layout.Planned m.size code.length o
  blob_eq : i.blob = m.data ++ List.replicate (i.layout.codeOffset.toNat - m.data.length) 0 ++ code ++
    List.replicate (i.layout.stackOffset.toNat - (i.layout.codeOffset.toNat + code.length)) 0

theorem built {m : StaticMemory} {code : List UInt8} {i : Image} (h : build m code o = .ok i) :
    i.Built m code o := by
  unfold build at h
  split at h
  · cases h
  rename_i hfits
  obtain ⟨l, hl, h⟩ := bind_eq_ok_iff.1 h
  cases h
  have hp := Layout.planned hl
  have hdata := hp.data_le_code
  refine ⟨Nat.not_lt.1 hfits, hp, ?_⟩
  have hlen : (m.data ++ List.replicate (l.codeOffset.toNat - m.data.length) 0 ++ code).length =
      l.codeOffset.toNat + code.length := by
    rw [List.length_append, List.length_append, List.length_replicate]
    omega
  show fill l m.data code = _
  rw [fill, List.rightpad, List.rightpad, hlen]
  rfl

namespace Built

variable {m : StaticMemory} {code : List UInt8} {i : Image}

/-- **A stretch of the bytecode stands in the image**, as far behind the start of the bytecode as in the stream. -/
theorem bytes_eq (h : i.Built m code o) {before part behind : List UInt8} (hc : code = before ++ part ++ behind) :
    (i.blob.drop (i.layout.codeOffset.toNat + before.length)).take part.length = part := by
  have hlead : (m.data ++ List.replicate (i.layout.codeOffset.toNat - m.data.length) 0 ++ before).length =
      i.layout.codeOffset.toNat + before.length := by
    have hfits := h.fits
    have hdata := h.planned.data_le_code
    rw [List.length_append, List.length_append, List.length_replicate]
    omega
  rw [h.blob_eq]
  generalize List.replicate (i.layout.stackOffset.toNat - _) (0 : UInt8) = zeros
  rw [hc, ← List.append_assoc, ← List.append_assoc, List.append_assoc, List.append_assoc,
    List.drop_left' hlead, List.take_left' rfl]

end Built
end Image
end Wordcode
