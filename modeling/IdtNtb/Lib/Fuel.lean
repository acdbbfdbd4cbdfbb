/-
  Computations with fuel.

  A loop that need not end is run with a bound on how often it goes around; it
  has no result when the bound is reached.

  * `Settles`: with enough fuel there is a result, and never another one;
  * `Hangs`: no fuel is enough;
  * both are known of two computations, one after the other, when they are known
    of each.
-/
import Mathlib.Data.Nat.Basic
import Mathlib.Order.Lattice

namespace Fuel

variable {α β : Type} {run : ℕ → Option α} {f : α → ℕ → Option β} {a a' : α} {b : β} {fuel : ℕ}

/-- From some fuel on the result is `a`, and before there is none. -/
structure Settles (run : ℕ → Option α) (a : α) : Prop where
  ends : ∃ fuel, ∀ fuel', fuel ≤ fuel' → run fuel' = some a
  only : ∀ fuel, run fuel = none ∨ run fuel = some a

/-- There is no result, whatever the fuel. -/
def Hangs (run : ℕ → Option α) : Prop := ∀ fuel, run fuel = none

theorem Settles.some (a : α) : Settles (fun _ => some a) a := ⟨⟨0, fun _ _ => rfl⟩, fun _ => Or.inr rfl⟩

/-- A computation whose result stays when there is more fuel settles on it. -/
theorem Settles.of_mono (hmono : ∀ fuel fuel' a, fuel ≤ fuel' → run fuel = .some a → run fuel' = .some a)
    (h : run fuel = .some a) : Settles run a := by
  refine ⟨⟨fuel, fun fuel' hle => hmono fuel fuel' a hle h⟩, fun fuel' => ?_⟩
  cases hrun : run fuel' with
  | none => exact Or.inl rfl
  | some a' =>
    rcases Nat.le_total fuel fuel' with hle | hle
    · exact Or.inr (hrun.symm.trans (hmono fuel fuel' a hle h))
    · exact Or.inr ((hmono fuel' fuel a' hle hrun).symm.trans h)

theorem Settles.eq (h : Settles run a) (h' : run fuel = .some a') : a' = a := by
  rcases h.only fuel with hnone | hsome
  · rw [hnone] at h'
    cases h'
  · rw [hsome] at h'
    exact (Option.some.inj h').symm

/-- Two computations that settle, one after the other. -/
theorem Settles.bind (h : Settles run a) (hf : Settles (f a) b) :
    Settles (fun fuel => (run fuel).bind fun a => f a fuel) b := by
  obtain ⟨fuel₁, h₁⟩ := h.ends
  obtain ⟨fuel₂, h₂⟩ := hf.ends
  refine ⟨⟨max fuel₁ fuel₂, fun fuel hle => ?_⟩, fun fuel => ?_⟩
  · rw [h₁ fuel (le_trans (Nat.le_max_left fuel₁ fuel₂) hle)]
    exact h₂ fuel (le_trans (Nat.le_max_right fuel₁ fuel₂) hle)
  · rcases h.only fuel with hnone | hsome
    · rw [hnone]
      exact Or.inl rfl
    · rw [hsome]
      exact hf.only fuel

/-- The second one may hang. -/
theorem Settles.bind_hangs (h : Settles run a) (hf : Hangs (f a)) :
    Hangs fun fuel => (run fuel).bind fun a => f a fuel := by
  intro fuel
  dsimp only
  rcases h.only fuel with hnone | hsome
  · rw [hnone]
    rfl
  · rw [hsome]
    exact hf fuel

/-- Or the first one. -/
theorem Hangs.bind (h : Hangs run) : Hangs fun fuel => (run fuel).bind fun a => f a fuel := by
  intro fuel
  dsimp only
  rw [h fuel]
  rfl

/-- One more time around a loop. -/
theorem Settles.succ (h0 : run 0 = none) (h : Settles (fun fuel => run (fuel + 1)) a) :
    Settles run a := by
  obtain ⟨fuel, hends⟩ := h.ends
  refine ⟨⟨fuel + 1, fun fuel' hle => ?_⟩, fun fuel' => ?_⟩
  · obtain ⟨k, rfl⟩ := Nat.exists_eq_add_of_le' hle
    exact hends (k + fuel) (Nat.le_add_left fuel k)
  · cases fuel' with
    | zero => exact Or.inl h0
    | succ fuel' => exact h.only fuel'

theorem Hangs.succ (h0 : run 0 = none) (h : Hangs fun fuel => run (fuel + 1)) : Hangs run := by
  intro fuel
  cases fuel with
  | zero => exact h0
  | succ fuel => exact h fuel

end Fuel
