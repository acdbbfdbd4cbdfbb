/-
  Ledgers: what flows into a system is held by it or has flowed out.

  The stock of a state is an element of a commutative monoid: a multiset of
  resources, a number, a weight.

  * `Run.balance` is the rule for runs: where every step balances the stock
    before and what comes in with the stock after and what goes out, so does
    the whole run;
  * `sum_set_add` is the rule for a stock that is the sum of the entries of a
    table, one of which is replaced.
-/
import IdtNtb.Lib.Runs
import Mathlib.Algebra.BigOperators.Group.List.Basic

namespace Runs

variable {σ α M : Type} [AddCommMonoid M]

/-- **A run balances** if each of its steps does, under an invariant that they keep. -/
theorem Run.balance {step : σ → α → σ → Prop} {s₀ s : σ} {t : List (σ × α)} (I : σ → Prop)
    (stock : σ → M) (inn out : σ × α → M) (h0 : I s₀) (h : Run step s₀ t s)
    (hs : ∀ e ∈ t, ∀ s', I e.1 → step e.1 e.2 s' →
      I s' ∧ stock s' + out e = stock e.1 + inn e) :
    I s ∧ stock s + (t.map out).sum = stock s₀ + (t.map inn).sum := by
  induction h with
  | nil => exact ⟨h0, rfl⟩
  | @snoc t s a s' _ ha ih =>
    obtain ⟨hi, ih⟩ := ih fun e he => hs e (by simp [he])
    obtain ⟨hi', hbal⟩ := hs (s, a) (by simp) s' hi ha
    refine ⟨hi', ?_⟩
    simp only [List.map_append, List.sum_append, List.map_cons, List.map_nil, List.sum_cons,
      List.sum_nil, add_zero]
    calc stock s' + ((t.map out).sum + out (s, a))
        = (stock s' + out (s, a)) + (t.map out).sum := by rw [add_comm (t.map out).sum, add_assoc]
      _ = (stock s + (t.map out).sum) + inn (s, a) := by rw [hbal, add_right_comm]
      _ = stock s₀ + ((t.map inn).sum + inn (s, a)) := by rw [ih, add_assoc]

/-- **Replacing an entry**: the sum of a table changes by the entry that goes and the one that
    comes. -/
theorem sum_set_add {l : List M} {i : ℕ} {a : M} (h : l[i]? = some a) (b : M) :
    (l.set i b).sum + a = l.sum + b := by
  induction l generalizing i with
  | nil => cases h
  | cons m l ih =>
    cases i with
    | zero =>
      obtain rfl : m = a := by simpa using h
      simp only [List.set_cons_zero, List.sum_cons]
      ac_rfl
    | succ i =>
      have hi : l[i]? = some a := by simpa using h
      simp only [List.set_cons_succ, List.sum_cons, add_assoc]
      rw [ih hi]

end Runs
