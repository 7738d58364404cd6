import Mathlib.Tactic

/-! # Who holds which block

Owners hold lists of blocks, and a map marks the blocks that are taken. -/

namespace Holdings

variable {ι β : Type*}

/-- Every block has at most one place in one list, and the marked blocks are those in the
lists. -/
structure Exact (marked : β → Bool) (held : ι → List β) : Prop where
  nodup : ∀ i, (held i).Nodup
  disjoint : ∀ i j, i ≠ j → (held i).Disjoint (held j)
  marked : ∀ b, marked b = true ↔ ∃ i, b ∈ held i

variable {marked marked' : β → Bool} {held : ι → List β}

theorem Exact.marked_of_mem (h : Exact marked held) {i : ι} {b : β} (hb : b ∈ held i) :
    marked b = true :=
  (h.marked b).mpr ⟨i, hb⟩

theorem Exact.not_mem_of_clear (h : Exact marked held) {b : β} (hb : marked b = false) (i : ι) :
    b ∉ held i := by
  intro hmem
  rw [h.marked_of_mem hmem] at hb
  cases hb

/-- A block says who holds it. -/
theorem Exact.owner_unique (h : Exact marked held) {i j : ι} {b : β} (hi : b ∈ held i)
    (hj : b ∈ held j) : i = j := by
  by_contra hne
  exact h.disjoint i j hne hi hj

variable [DecidableEq ι]

/-- An owner that holds nothing takes blocks that are clear. -/
theorem Exact.acquire (h : Exact marked held) {i : ι} (hempty : held i = []) {taken : List β}
    (hnodup : taken.Nodup) (hclear : ∀ b ∈ taken, marked b = false)
    (hmarked : ∀ b, marked' b = true ↔ marked b = true ∨ b ∈ taken) :
    Exact marked' (Function.update held i taken) where
  nodup j := by
    by_cases hj : j = i
    · rwa [hj, Function.update_self]
    · rw [Function.update_of_ne hj]
      exact h.nodup j
  disjoint j k hne := by
    by_cases hj : j = i
    · subst hj
      rw [Function.update_self, Function.update_of_ne hne.symm]
      exact fun b hb hb' => h.not_mem_of_clear (hclear b hb) k hb'
    · rw [Function.update_of_ne hj]
      by_cases hk : k = i
      · subst hk
        rw [Function.update_self]
        exact fun b hb hb' => h.not_mem_of_clear (hclear b hb') j hb
      · rw [Function.update_of_ne hk]
        exact h.disjoint j k hne
  marked b := by
    rw [hmarked, h.marked]
    constructor
    · rintro (⟨j, hj⟩ | hb)
      · have hne : j ≠ i := fun heq => by simp [heq, hempty] at hj
        exact ⟨j, by rwa [Function.update_of_ne hne]⟩
      · exact ⟨i, by rwa [Function.update_self]⟩
    · rintro ⟨j, hj⟩
      by_cases heq : j = i
      · rw [heq, Function.update_self] at hj
        exact .inr hj
      · rw [Function.update_of_ne heq] at hj
        exact .inl ⟨j, hj⟩

/-- An owner gives back what it holds. -/
theorem Exact.release (h : Exact marked held) {i : ι}
    (hmarked : ∀ b, marked' b = true ↔ marked b = true ∧ b ∉ held i) :
    Exact marked' (Function.update held i []) where
  nodup j := by
    by_cases hj : j = i
    · rw [hj, Function.update_self]
      exact List.nodup_nil
    · rw [Function.update_of_ne hj]
      exact h.nodup j
  disjoint j k hne := by
    by_cases hj : j = i
    · rw [hj, Function.update_self]
      exact List.disjoint_nil_left _
    · rw [Function.update_of_ne hj]
      by_cases hk : k = i
      · rw [hk, Function.update_self]
        exact List.disjoint_nil_right _
      · rw [Function.update_of_ne hk]
        exact h.disjoint j k hne
  marked b := by
    rw [hmarked, h.marked]
    constructor
    · rintro ⟨⟨j, hj⟩, hb⟩
      have hne : j ≠ i := fun heq => hb (heq ▸ hj)
      exact ⟨j, by rwa [Function.update_of_ne hne]⟩
    · rintro ⟨j, hj⟩
      by_cases heq : j = i
      · rw [heq, Function.update_self] at hj
        cases hj
      · rw [Function.update_of_ne heq] at hj
        exact ⟨⟨j, hj⟩, fun hb => heq (h.owner_unique hj hb)⟩

end Holdings
