import Wordcode.Fault
/-!
# Proofs.Outcome — steps that can stop

A result of several steps is a result of each of them (`bind_eq_ok_iff`, `mapM_cons_eq_some_iff`).  A closed run that
is known to succeed has a result (`exists_ok_of_isOk`), and one of which something is computed has a result with what
was computed of it (`exists_ok_of_map_eq_ok`).  What goes wrong first in a list is one thing (`First.unique`).
-/
namespace Wordcode

variable {ε ε' α β : Type}

theorem bind_eq_ok_iff {x : Except ε α} {f : α → Except ε β} {b : β} :
    x >>= f = .ok b ↔ ∃ a, x = .ok a ∧ f a = .ok b := by
  cases x with
  | error e => exact ⟨fun h => (by cases h), fun ⟨_, h, _⟩ => (by cases h)⟩
  | ok a => exact ⟨fun h => ⟨a, rfl, h⟩, fun ⟨_, h, hf⟩ => (by cases h; exact hf)⟩

theorem mapError_eq_ok_iff {x : Except ε α} {f : ε → ε'} {a : α} : x.mapError f = .ok a ↔ x = .ok a := by
  cases x with
  | error e => exact ⟨fun h => (by cases h), fun h => (by cases h)⟩
  | ok a' => exact ⟨fun h => (by cases h; rfl), fun h => (by cases h; rfl)⟩

theorem mapM_cons_eq_some_iff {f : α → Option β} {a : α} {as : List α} {bs : List β} :
    (a :: as).mapM f = some bs ↔ ∃ b bs', f a = some b ∧ as.mapM f = some bs' ∧ bs = b :: bs' := by
  rw [List.mapM_cons]
  constructor
  · intro h
    obtain ⟨b, hb, h⟩ := Option.bind_eq_some_iff.1 h
    obtain ⟨bs', hbs, h⟩ := Option.bind_eq_some_iff.1 h
    cases h
    exact ⟨b, bs', hb, hbs, rfl⟩
  · rintro ⟨b, bs', hb, hbs, rfl⟩
    rw [hb, hbs]
    rfl

/-- The values in front, and those behind, are values of the elements in front and of those behind. -/
theorem mapM_take_drop {f : α → Option β} {as : List α} {bs : List β} (h : as.mapM f = some bs) (k : Nat) :
    (as.take k).mapM f = some (bs.take k) ∧ (as.drop k).mapM f = some (bs.drop k) := by
  induction k generalizing as bs with
  | zero => exact ⟨rfl, h⟩
  | succ k ih =>
    cases as with
    | nil => cases h; exact ⟨rfl, rfl⟩
    | cons a as =>
      obtain ⟨b, bs', hb, hbs, rfl⟩ := mapM_cons_eq_some_iff.1 h
      exact ⟨mapM_cons_eq_some_iff.2 ⟨b, bs'.take k, hb, (ih hbs).1, rfl⟩, (ih hbs).2⟩

theorem getElem?_of_mapM_eq_some {f : α → Option β} {as : List α} {bs : List β} (h : as.mapM f = some bs) {k : Nat}
    {a : α} (ha : as[k]? = some a) : ∃ b, bs[k]? = some b ∧ f a = some b := by
  induction k generalizing as bs with
  | zero =>
    cases as with
    | nil => cases ha
    | cons a' as =>
      cases ha
      obtain ⟨b, bs', hb, -, rfl⟩ := mapM_cons_eq_some_iff.1 h
      exact ⟨b, rfl, hb⟩
  | succ k ih =>
    cases as with
    | nil => cases ha
    | cons a' as =>
      obtain ⟨b, bs', -, hbs, rfl⟩ := mapM_cons_eq_some_iff.1 h
      exact ih hbs ha

theorem exists_mem_of_mapM_eq_some {f : α → Option β} {as : List α} {bs : List β} (h : as.mapM f = some bs) {a : α}
    (ha : a ∈ as) : ∃ b ∈ bs, f a = some b := by
  obtain ⟨k, hk⟩ := List.getElem?_of_mem ha
  obtain ⟨b, hb, hab⟩ := getElem?_of_mapM_eq_some h hk
  exact ⟨b, List.mem_of_getElem? hb, hab⟩

/-- Each value of a run over a list is the value of one of the list's elements. -/
theorem exists_of_mem_of_mapM_eq_some {f : α → Option β} {as : List α} {bs : List β} (h : as.mapM f = some bs) :
    ∀ b ∈ bs, ∃ a ∈ as, f a = some b := by
  induction as generalizing bs with
  | nil => cases h; intro b hb; cases hb
  | cons a as ih =>
    obtain ⟨b, bs', hb, hbs, rfl⟩ := mapM_cons_eq_some_iff.1 h
    intro b' hb'
    rcases List.mem_cons.1 hb' with rfl | hb'
    · exact ⟨a, List.mem_cons_self, hb⟩
    · obtain ⟨a', ha', hf⟩ := ih hbs b' hb'
      exact ⟨a', List.mem_cons_of_mem a ha', hf⟩

theorem exists_ok_of_isOk {x : Except ε α} (h : x.isOk = true) : ∃ a, x = .ok a := by
  cases x with
  | error e => cases h
  | ok a => exact ⟨a, rfl⟩

theorem exists_ok_of_map_eq_ok {x : Except ε α} {f : α → β} {b : β} {P : α → Prop} (h : x.map f = .ok b)
    (hP : ∀ a, x = .ok a → f a = b → P a) : ∃ a, x = .ok a ∧ P a := by
  cases x with
  | error e => cases h
  | ok a => exact ⟨a, rfl, hP a rfl (Except.ok.inj h)⟩

theorem bind_eq_error_iff {x : Except ε α} {f : α → Except ε β} {e : ε} :
    x >>= f = .error e ↔ x = .error e ∨ ∃ a, x = .ok a ∧ f a = .error e := by
  cases x with
  | error e' =>
    refine ⟨fun h => .inl (by cases h; rfl), ?_⟩
    rintro (h | ⟨_, h, -⟩) <;> cases h
    rfl
  | ok a =>
    refine ⟨fun h => .inr ⟨a, rfl, h⟩, ?_⟩
    rintro (h | ⟨_, h, hf⟩) <;> cases h
    exact hf

/-- **The first thing that goes wrong in a list**: an element goes wrong behind a front in which nothing did. -/
inductive First (Clean : List α → Prop) (Bad : List α → α → ε → Prop) (as : List α) (e : ε) : Prop
  | intro {front : List α} {a : α} {behind : List α} (hs : as = front ++ a :: behind) (hc : Clean front)
      (hb : Bad front a e) : First Clean Bad as e

namespace First

variable {Clean : List α → Prop} {Bad : List α → α → ε → Prop} {as : List α} {e e' : ε}

theorem append_right (h : First Clean Bad as e) (more : List α) : First Clean Bad (as ++ more) e := by
  obtain ⟨rfl, hc, hb⟩ := h
  exact .intro (List.append_assoc _ _ _) hc hb

theorem not_clean (h : First Clean Bad as e)
    (spoils : ∀ {front a e behind}, Bad front a e → ¬ Clean (front ++ a :: behind)) : ¬ Clean as := by
  obtain ⟨rfl, -, hb⟩ := h
  exact spoils hb

/-- **What goes wrong first is one thing**: of two places, the later one has the earlier one in its clean front. -/
theorem unique (h : First Clean Bad as e) (h' : First Clean Bad as e')
    (spoils : ∀ {front a e behind}, Bad front a e → ¬ Clean (front ++ a :: behind))
    (determines : ∀ {front a e e'}, Bad front a e → Bad front a e' → e = e') : e = e' := by
  obtain ⟨rfl, hc, hb⟩ := h
  obtain ⟨hs, hc', hb'⟩ := h'
  -- the two places are the same, or the one further back has the other in a front that is clean
  rcases List.append_eq_append_iff.1 hs with ⟨between, rfl, hrest⟩ | ⟨between, rfl, hrest⟩
  · cases between with
    | nil =>
      cases hrest
      rw [List.append_nil] at hb'
      exact determines hb hb'
    | cons =>
      cases hrest
      exact absurd hc' (spoils hb)
  · cases between with
    | nil =>
      cases hrest
      rw [List.append_nil] at hb
      exact determines hb hb'
    | cons =>
      cases hrest
      exact absurd hc (spoils hb')

end First

end Wordcode
