/-
  Single bits of status words: a word is tested, set and cleared with masks
  `1 <<< k` that may be narrower than the word.
-/
import Mathlib.Data.BitVec

namespace Bits

variable {w n : ℕ}

/-- The bits of a one-bit mask, widened. -/
theorem getLsbD_mask {k : ℕ} (hk : k < w) (hw : w ≤ n) (j : ℕ) :
    ((1#w <<< k).setWidth n).getLsbD j = decide (j = k) := by
  rw [← BitVec.twoPow_eq, BitVec.getLsbD_setWidth, BitVec.getLsbD_twoPow]
  rw [Bool.eq_iff_iff]
  simp only [Bool.and_eq_true, decide_eq_true_eq]
  omega

/-- Testing a bit. -/
theorem and_mask_ne_zero {k : ℕ} (hk : k < w) (hw : w ≤ n) (v : BitVec n) :
    v &&& (1#w <<< k).setWidth n ≠ 0 ↔ v.getLsbD k = true := by
  constructor
  · intro h
    by_contra hv
    apply h
    apply BitVec.eq_of_getLsbD_eq
    intro j hj
    rw [BitVec.getLsbD_and, getLsbD_mask hk hw]
    by_cases hjk : j = k
    · subst hjk; simp [hv]
    · simp [hjk]
  · intro hv h
    have hbit := congrArg (·.getLsbD k) h
    simp only [BitVec.getLsbD_and, getLsbD_mask hk hw, hv] at hbit
    simp at hbit

/-- Testing all bits of the narrower width but one. -/
theorem and_not_mask_ne_zero {k : ℕ} (hk : k < w) (hw : w ≤ n) (v : BitVec n) :
    v &&& (~~~(1#w <<< k)).setWidth n ≠ 0 ↔ ∃ j < w, j ≠ k ∧ v.getLsbD j = true := by
  have hmask : ∀ j, ((~~~(1#w <<< k)).setWidth n).getLsbD j = (decide (j < w) && decide (j ≠ k)) := by
    intro j
    have hbit := getLsbD_mask hk (le_refl w) j
    rw [BitVec.setWidth_eq] at hbit
    rw [BitVec.getLsbD_setWidth, BitVec.getLsbD_not, hbit]
    by_cases hj : j < w
    · simp [hj, hj.trans_le hw]
    · simp [hj]
  constructor
  · intro h
    by_contra hnone
    apply h
    apply BitVec.eq_of_getLsbD_eq
    intro j hj
    rw [BitVec.getLsbD_and, hmask]
    by_cases hjk : j < w ∧ j ≠ k
    · have hv : ¬ v.getLsbD j = true := fun hv => hnone ⟨j, hjk.1, hjk.2, hv⟩
      simp [hv]
    · rw [not_and_or] at hjk
      rcases hjk with hjk | hjk <;> simp [hjk]
  · rintro ⟨j, hj, hjk, hv⟩ h
    have hbit := congrArg (·.getLsbD j) h
    simp only [BitVec.getLsbD_and, hmask, hv] at hbit
    simp [hj, hjk] at hbit

/-- Setting a bit. -/
theorem getLsbD_or_mask {k : ℕ} (hk : k < w) (hw : w ≤ n) (v : BitVec n) (j : ℕ) :
    (v ||| (1#w <<< k).setWidth n).getLsbD j = (v.getLsbD j || decide (j = k)) := by
  rw [BitVec.getLsbD_or, getLsbD_mask hk hw]

/-- Clearing the bits of a narrower word. -/
theorem getLsbD_and_not (v : BitVec w) (u : BitVec w) (j : ℕ) :
    (v &&& ~~~u).getLsbD j = (v.getLsbD j && !u.getLsbD j) := by
  by_cases hj : j < w
  · simp [hj]
  · have h : w ≤ j := by omega
    simp [BitVec.getLsbD_of_ge _ _ h]

/-- A word without the bits of another has none left exactly when it is contained in it. -/
theorem and_not_eq_zero {v u : BitVec w} :
    v &&& ~~~u = 0 ↔ ∀ j, v.getLsbD j = true → u.getLsbD j = true := by
  constructor
  · intro h j hv
    have hbit := congrArg (·.getLsbD j) h
    simp only [getLsbD_and_not, hv] at hbit
    simpa using hbit
  · intro h
    apply BitVec.eq_of_getLsbD_eq
    intro j _
    rw [getLsbD_and_not]
    cases hv : v.getLsbD j with
    | false => simp
    | true => simp [h j hv]

/-- Widening loses nothing. -/
theorem setWidth_injective (h : w ≤ n) : Function.Injective (BitVec.setWidth n (w := w)) := by
  intro a b hab
  have hback := congrArg (BitVec.setWidth w) hab
  rw [BitVec.setWidth_setWidth_of_le a h, BitVec.setWidth_setWidth_of_le b h] at hback
  simpa using hback

end Bits
