import Mathlib.Order.Bounds.Basic
import Mathlib.Tactic

/-! # The next number with a residue

The least number from `a` on that leaves the residue of `s` modulo `n`, and the same among the
multiples of a unit. -/

namespace Residues

variable {n r x b : ℤ}

theorem emod_le_self (hn : 0 < n) (hx : 0 ≤ x) : x % n ≤ x := by
  have hsplit := Int.emod_add_mul_ediv x n
  have hquotient := mul_nonneg hn.le (Int.ediv_nonneg hx hn.le)
  omega

theorem isLeast_residue (hn : 0 < n) (a s : ℤ) :
    IsLeast {k | a ≤ k ∧ k % n = s % n} (a + (s - a) % n) := by
  refine ⟨⟨?_, ?_⟩, ?_⟩
  · have hnonneg := Int.emod_nonneg (s - a) hn.ne'
    omega
  · rw [Int.add_emod, Int.emod_emod, ← Int.add_emod, add_sub_cancel]
  · rintro k ⟨hle, hk⟩
    have hsame : (s - a) % n = (k - a) % n := by
      rw [Int.sub_emod, ← hk, ← Int.sub_emod]
    have hdistance := emod_le_self hn (sub_nonneg.mpr hle)
    omega

/-- Some number from `a` on, below `c`, has the residue of `s` when the least one is below. -/
theorem exists_residue_iff (hn : 0 < n) (a c s : ℤ) :
    (∃ k, a ≤ k ∧ k < c ∧ k % n = s % n) ↔ a + (s - a) % n < c := by
  have hleast := isLeast_residue hn a s
  constructor
  · rintro ⟨k, hle, hlt, hk⟩
    exact (hleast.2 ⟨hle, hk⟩).trans_lt hlt
  · intro hlt
    exact ⟨_, hleast.1.1, hlt, hleast.1.2⟩

theorem isLeast_multiple (hr : 0 < r) (x : ℤ) : IsLeast {t | x ≤ t ∧ r ∣ t} (x + -x % r) := by
  have hleast := isLeast_residue hr x 0
  simpa only [zero_sub, Int.zero_emod, ← Int.dvd_iff_emod_eq_zero] using hleast

/-- The least multiple of `r` from `x` on whose quotient has the residue of `s`; `b` is the
least multiple. -/
theorem isLeast_multiple_residue (hr : 0 < r) (hn : 0 < n)
    (hb : IsLeast {t | x ≤ t ∧ r ∣ t} b) (s : ℤ) :
    IsLeast {t | x ≤ t ∧ r ∣ t ∧ t / r % n = s % n} (b + (s - b / r) % n * r) := by
  obtain ⟨⟨hx, j, rfl⟩, hlow⟩ := hb
  have hleast := isLeast_residue hn j s
  rw [Int.mul_ediv_cancel_left _ hr.ne', mul_comm _ r, ← mul_add]
  refine ⟨⟨?_, dvd_mul_right _ _, ?_⟩, ?_⟩
  · exact hx.trans (mul_le_mul_of_nonneg_left hleast.1.1 hr.le)
  · rw [Int.mul_ediv_cancel_left _ hr.ne']
    exact hleast.1.2
  · rintro t ⟨ht, ⟨k, rfl⟩, hk⟩
    rw [Int.mul_ediv_cancel_left _ hr.ne'] at hk
    have hjk : j ≤ k := le_of_mul_le_mul_left (hlow ⟨ht, dvd_mul_right _ _⟩) hr
    exact mul_le_mul_of_nonneg_left (hleast.2 ⟨hjk, hk⟩) hr.le

end Residues
