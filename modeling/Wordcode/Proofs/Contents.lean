import Wordcode.Proofs.Planning
/-!
# Proofs.Contents — what stands in an image, byte by byte

An image that is built holds the data, zeros up to the bytecode, the bytecode, and fewer than eight zeros (`contents`).
Its bytes are brought to a length twice; the layout is never too short for them, so neither time cuts anything off
(`buildByResizing_eq`).  An image that is not built has data that is too long, or else a layout that is refused
(`build_exact`).
-/
namespace Wordcode.Image

variable {m : StaticMemory} {code : List UInt8} {o : Options} {i : Image}

/-- Bytes brought to a length: cut off there, or filled up with zeros. -/
def resize (n : Nat) (bytes : List UInt8) : List UInt8 := bytes.take n ++ List.replicate (n - bytes.length) 0

theorem resize_of_le {n : Nat} {bytes : List UInt8} (h : bytes.length ≤ n) : resize n bytes = bytes.rightpad n 0 := by
  rw [resize, List.take_of_length_le h, List.rightpad]

/-- Building with bytes that are brought to the lengths of the layout, whether they are shorter or not. -/
def buildByResizing (m : StaticMemory) (code : List UInt8) (o : Options) : Except Fault Image :=
  if m.size.toNat < m.data.length then .error (.memoryBudgetExceeded m.data.length m.size)
  else do
    let layout ← Layout.plan m.size code.length o
    return ⟨layout, resize layout.blobLen (resize layout.codeOffset.toNat m.data ++ code)⟩

theorem fill_eq_resize {l : Layout} (hl : l.Planned m.size code.length o) (hd : m.data.length ≤ m.size.toNat) :
    fill l m.data code = resize l.blobLen (resize l.codeOffset.toNat m.data ++ code) := by
  have hdata : m.data.length ≤ l.codeOffset.toNat := Nat.le_trans hd hl.data_le_code
  have hlen : (m.data.rightpad l.codeOffset.toNat 0 ++ code).length = l.codeOffset.toNat + code.length := by
    rw [List.length_append, List.length_rightpad, Nat.max_eq_left hdata]
  rw [resize_of_le hdata, resize_of_le (hlen ▸ hl.code_le_stack), fill]

/-- **Nothing is cut off** when an image is built. -/
theorem buildByResizing_eq (m : StaticMemory) (code : List UInt8) (o : Options) :
    buildByResizing m code o = build m code o := by
  unfold buildByResizing build
  split
  · rfl
  · rename_i hd
    cases hl : Layout.plan m.size code.length o with
    | error f => rfl
    | ok l =>
      show Except.ok (Image.mk l _) = Except.ok (Image.mk l _)
      rw [fill_eq_resize (Layout.planned hl) (Nat.not_lt.1 hd)]

/-- **What stands in an image**, from its first byte to its last. -/
structure Contents (m : StaticMemory) (code : List UInt8) (o : Options) (i : Image) : Prop where
  layout_eq : Layout.plan m.size code.length o = .ok i.layout
  length_eq : i.blob.length = i.layout.blobLen
  data_eq : i.blob.take m.data.length = m.data
  /-- What the data leaves of the size declared for it is in front of the bytecode, with the zeros up to there. -/
  size_le : m.size.toNat ≤ i.layout.codeOffset.toNat
  gap_eq : ∀ k, m.data.length ≤ k → k < i.layout.codeOffset.toNat → i.blob[k]? = some 0
  bytecode_eq : (i.blob.drop i.layout.codeOffset.toNat).take code.length = code
  tail_eq : ∀ k, i.layout.codeOffset.toNat + code.length ≤ k → k < i.blob.length → i.blob[k]? = some 0
  tail_lt : i.layout.codeOffset.toNat + code.length ≤ i.blob.length ∧
    i.blob.length < i.layout.codeOffset.toNat + code.length + 8
  code_eq : i.code = code

theorem getElem?_append_replicate {α : Type} {a b : List α} {x : α} {n k : Nat} (ha : a.length ≤ k)
    (hk : k < a.length + n) : (a ++ List.replicate n x ++ b)[k]? = some x := by
  rw [List.append_assoc, List.getElem?_append_right ha,
    List.getElem?_append_left (by rw [List.length_replicate]; omega), List.getElem?_replicate, if_pos (by omega)]

theorem layout_of_build (h : build m code o = .ok i) : Layout.plan m.size code.length o = .ok i.layout := by
  unfold build at h
  split at h
  · cases h
  · obtain ⟨l, hl, h⟩ := bind_eq_ok_iff.1 h
    cases h
    exact hl

theorem contents (h : build m code o = .ok i) : i.Contents m code o := by
  have hbuilt := built h
  have hplan := hbuilt.planned
  have hdata : m.data.length ≤ i.layout.codeOffset.toNat := Nat.le_trans hbuilt.fits hplan.data_le_code
  have hcode := hplan.code_le_stack
  have hpad := Layout.alignUp_lt (i.layout.codeOffset.toNat + code.length)
  rw [← hplan.stackOffset_eq] at hpad
  have hlead : (m.data ++ List.replicate (i.layout.codeOffset.toNat - m.data.length) 0 ++ code).length =
      i.layout.codeOffset.toNat + code.length := by
    rw [List.length_append, List.length_append, List.length_replicate]
    omega
  have hlength : i.blob.length = i.layout.stackOffset.toNat := by
    rw [hbuilt.blob_eq, List.length_append, hlead, List.length_replicate]
    omega
  have hwhole : code = [] ++ code ++ [] := (List.append_nil code).symm
  have hbytecode : (i.blob.drop i.layout.codeOffset.toNat).take code.length = code := hbuilt.bytes_eq hwhole
  constructor
  · exact layout_of_build h
  · exact hlength
  · rw [hbuilt.blob_eq, List.append_assoc, List.append_assoc, List.take_left' rfl]
  · exact hplan.data_le_code
  · intro k hk hlt
    rw [hbuilt.blob_eq, List.append_assoc]
    exact getElem?_append_replicate hk (by omega)
  · exact hbytecode
  · intro k hk hlt
    rw [hbuilt.blob_eq, ← List.append_nil (_ ++ List.replicate _ _)]
    exact getElem?_append_replicate (hlead ▸ hk) (by omega)
  · rw [hlength]
    exact ⟨hcode, hpad⟩
  · rw [Image.code, hplan.codeLen_eq]
    exact hbytecode

theorem build_of_lt (h : m.size.toNat < m.data.length) :
    build m code o = .error (.memoryBudgetExceeded m.data.length m.size) := if_pos h

theorem build_eq_error_iff_plan (hd : m.data.length ≤ m.size.toNat) {f : Fault} :
    build m code o = .error f ↔ Layout.plan m.size code.length o = .error f := by
  rw [build, if_neg (Nat.not_lt.2 hd), bind_eq_error_iff]
  constructor
  · rintro (h | ⟨_, -, h⟩)
    · exact h
    · cases h
  · exact .inl

/-- A layout is never refused for the data. -/
theorem plan_ne_memoryBudgetExceeded {dataLen size : UInt32} {codeLen n : Nat} :
    Layout.plan dataLen codeLen o ≠ .error (.memoryBudgetExceeded n size) := by
  intro h
  rcases Layout.plan_eq_error_iff.1 h with ⟨-, h⟩ | ⟨-, -, h⟩ <;> cases h

/-- **An image is exact.**  If it is built, every byte of it is what the layout says, and none was cut off on the way;
it is not built for the sake of the data exactly if that is longer than the size declared for it, whatever the layout,
and otherwise exactly if the layout is refused, with the layout's fault. -/
theorem build_exact (m : StaticMemory) (code : List UInt8) (o : Options) :
    (∀ i, build m code o = .ok i → i.Contents m code o) ∧
    buildByResizing m code o = build m code o ∧
    ((∃ n size, build m code o = .error (.memoryBudgetExceeded n size)) ↔ m.size.toNat < m.data.length) ∧
    (m.size.toNat < m.data.length → build m code o = .error (.memoryBudgetExceeded m.data.length m.size)) ∧
    (m.data.length ≤ m.size.toNat →
      ∀ f, build m code o = .error f ↔ Layout.plan m.size code.length o = .error f) := by
  refine ⟨fun i h => contents h, buildByResizing_eq m code o, ⟨?_, fun h => ⟨_, _, build_of_lt h⟩⟩, build_of_lt,
    fun hd f => build_eq_error_iff_plan hd⟩
  rintro ⟨n, size, h⟩
  refine Nat.lt_of_not_le fun hd => ?_
  exact plan_ne_memoryBudgetExceeded ((build_eq_error_iff_plan hd).1 h)

/-- Zeros on both sides of the bytecode, some of them declared. -/
theorem build_exact_between_zeros :
    ∃ i, build ⟨[9, 9], 10⟩ [255, 1, 0, 0] {} = .ok i ∧
      i.blob = [9, 9, 0, 0, 0, 0, 0, 0, 0, 0, 0, 0, 0, 0, 0, 0, 255, 1, 0, 0, 0, 0, 0, 0] ∧
      i.Contents ⟨[9, 9], 10⟩ [255, 1, 0, 0] {} :=
  exists_ok_of_map_eq_ok (f := Image.blob) rfl fun i hi hblob => ⟨hblob, (build_exact _ _ _).1 i hi⟩

end Wordcode.Image
