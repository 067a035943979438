import Wordcode.Registry
/-!
# Proofs.Assembly.Indices — an index given out stays valid

Registering only ever adds to the end of one target's signatures (`extends_register`), and never beyond what one byte
can count (`bounded_register`).  So the index that registering gives out means the signature it was given out for
(`signature?_register`), in this registry and in every later one (`Extends.signature?_eq`).  The groups of a registry
list its targets with their signatures (`mem_groups_iff`, `pairwise_groups`).
-/
namespace Wordcode
namespace Registry

/-- The later registry keeps every signature of the earlier one at its index. -/
def Extends (r r' : Registry) : Prop := ∀ target, r.signatures target <+: r'.signatures target

/-- No target has more signatures than one byte can count. -/
def Bounded (r : Registry) : Prop := ∀ target, (r.signatures target).length ≤ capacity

theorem Extends.refl (r : Registry) : r.Extends r := fun _ => List.prefix_refl _

theorem Extends.trans {r r' r'' : Registry} (h : r.Extends r') (h' : r'.Extends r'') : r.Extends r'' := fun target =>
  (h target).trans (h' target)

theorem Extends.signature?_eq {r r' : Registry} (h : r.Extends r') {target index : UInt8} {s : Signature}
    (hs : r.signature? target index = some s) : r'.signature? target index = some s := by
  obtain ⟨more, hmore⟩ := h target
  obtain ⟨hlt, he⟩ := List.getElem?_eq_some_iff.1 hs
  rw [signature?, ← hmore, List.getElem?_append_left hlt]
  exact hs

theorem bounded_empty : empty.Bounded := fun _ => Nat.zero_le _

theorem extends_push (r : Registry) (target : UInt8) (s : Signature) : r.Extends (r.push target s) := by
  intro other
  by_cases h : other = target
  · subst h
    rw [signatures_push_self]
    exact List.prefix_append _ _
  · have hsame := signatures_push_of_ne r s h
    exact hsame ▸ List.prefix_rfl

/-- **What registering can do**: find the signature, add it, or have no index left for it. -/
theorem register_cases (r : Registry) (target : UInt8) (s : Signature) :
    (∃ k : Nat, (r.signatures target)[k]? = some s ∧ r.register target s = (some k.toUInt8, r)) ∨
    (s ∉ r.signatures target ∧ (r.signatures target).length < capacity ∧
      r.register target s = (some (r.signatures target).length.toUInt8, r.push target s)) ∨
    (s ∉ r.signatures target ∧ capacity ≤ (r.signatures target).length ∧ r.register target s = (none, r)) := by
  unfold register
  simp only
  cases h : (r.signatures target).idxOf? s with
  | some k =>
    obtain ⟨hlt, he, -⟩ := List.idxOf?_eq_some_iff.1 h
    exact .inl ⟨k, by rw [List.getElem?_eq_getElem hlt, he], rfl⟩
  | none =>
    have hnew : s ∉ r.signatures target := List.idxOf?_eq_none_iff.1 h
    by_cases hlt : (r.signatures target).length < capacity
    · exact .inr (.inl ⟨hnew, hlt, if_pos hlt⟩)
    · exact .inr (.inr ⟨hnew, Nat.le_of_not_lt hlt, if_neg hlt⟩)

/-- **Registering keeps all earlier indices.** -/
theorem extends_register (r : Registry) (target : UInt8) (s : Signature) : r.Extends (r.register target s).2 := by
  rcases register_cases r target s with ⟨k, -, h⟩ | ⟨-, -, h⟩ | ⟨-, -, h⟩ <;> rw [h]
  · exact .refl r
  · exact extends_push r target s
  · exact .refl r

theorem bounded_register {r : Registry} (hb : r.Bounded) (target : UInt8) (s : Signature) :
    (r.register target s).2.Bounded := by
  rcases register_cases r target s with ⟨k, -, h⟩ | ⟨-, hlt, h⟩ | ⟨-, -, h⟩ <;> rw [h]
  · exact hb
  · intro other
    by_cases ho : other = target
    · subst ho
      rw [signatures_push_self, List.length_append, List.length_singleton]
      exact hlt
    · rw [signatures_push_of_ne r s ho]
      exact hb other
  · exact hb

/-- **The index that registering gives out is the signature's.** -/
theorem signature?_register {r : Registry} (hb : r.Bounded) {target index : UInt8} {s : Signature}
    (h : (r.register target s).1 = some index) : (r.register target s).2.signature? target index = some s := by
  have hcap : capacity = 256 := rfl
  have hsmall : ∀ k, k < 256 → k.toUInt8.toNat = k := fun k hk => by simp; omega
  rcases register_cases r target s with ⟨k, hk, hr⟩ | ⟨-, hlt, hr⟩ | ⟨-, -, hr⟩ <;> rw [hr] at h ⊢
  · cases h
    have hlt := (List.getElem?_eq_some_iff.1 hk).1
    have := hb target
    rw [signature?, hsmall k (by omega)]
    exact hk
  · cases h
    rw [signature?, hsmall _ (by omega), signatures_push_self]
    simp
  · cases h

/-- The groups are those of the targets with a signature. -/
theorem mem_groups_iff {r : Registry} {target : UInt8} {signatures : List Signature} :
    (target, signatures) ∈ r.groups ↔ signatures = r.signatures target ∧ signatures ≠ [] := by
  simp only [groups, List.mem_filter, List.mem_map, List.mem_range, Prod.mk.injEq, Bool.not_eq_true',
    List.isEmpty_eq_false_iff]
  constructor
  · rintro ⟨⟨n, -, rfl, rfl⟩, hne⟩
    exact ⟨rfl, hne⟩
  · rintro ⟨rfl, hne⟩
    exact ⟨⟨target.toNat, target.toNat_lt, by simp, by simp⟩, hne⟩

/-- The groups are by ascending id. -/
theorem pairwise_groups (r : Registry) : r.groups.Pairwise fun g g' => g.1.toNat < g'.1.toNat := by
  refine List.Pairwise.filter _ (List.pairwise_map.2 (List.pairwise_lt_range.imp_of_mem ?_))
  intro m n hm hn hlt
  have hm' := List.mem_range.1 hm
  have hn' := List.mem_range.1 hn
  simp only [Nat.toUInt8_eq, UInt8.toNat_ofNat']
  omega

end Registry
end Wordcode
