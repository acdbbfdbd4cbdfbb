/-
  What a system can be brought to.

  `Attains step P Q s` says that some run from `s`, all of whose actions are in
  `P`, ends in a state that satisfies `Q`.

  * `Attains.trans` puts two such runs together;
  * `Attains.unless` takes a detour only where it is needed;
  * `attains_zero` is the rule for work that is worked off: an invariant, and a
    measure that some allowed action makes smaller, lead to measure zero;
  * `Attains.sim` carries it over to a system that can follow the steps.
-/
import IdtNtb.Lib.Runs

namespace Runs

variable {σ σ' α α' : Type}

/-- Some run from `s` with actions in `P` ends in `Q`. -/
def Attains (step : σ → α → σ → Prop) (P : α → Prop) (Q : σ → Prop) (s : σ) : Prop :=
  ∃ t s', Run step s t s' ∧ (∀ e ∈ t, P e.2) ∧ Q s'

section
variable {step : σ → α → σ → Prop} {P : α → Prop} {Q Q' : σ → Prop} {s s' : σ}

theorem attains_now (h : Q s) : Attains step P Q s :=
  ⟨[], s, .nil, by simp, h⟩

theorem attains_step {a : α} (ha : P a) (h : step s a s') (hq : Q s') : Attains step P Q s := by
  refine ⟨[] ++ [(s, a)], s', .snoc .nil h, ?_, hq⟩
  simpa using ha

theorem Attains.trans (h : Attains step P Q s) (h' : ∀ s', Q s' → Attains step P Q' s') :
    Attains step P Q' s := by
  obtain ⟨t, s₁, hrun, ht, hq⟩ := h
  obtain ⟨t', s₂, hrun', ht', hq'⟩ := h' s₁ hq
  refine ⟨t ++ t', s₂, hrun.trans hrun', fun e he => ?_, hq'⟩
  exact (List.mem_append.1 he).elim (ht e) (ht' e)

/-- A state has what is asked for, or can be brought there by one action. -/
theorem Attains.unless {C : Prop} (hq : C → Q s) (h : ¬ C → ∃ a s', P a ∧ step s a s' ∧ Q s') :
    Attains step P Q s := by
  by_cases hc : C
  · exact attains_now (hq hc)
  · obtain ⟨a, s', ha, hst, hq'⟩ := h hc
    exact attains_step ha hst hq'

/-- **The rule for work that is worked off.** -/
theorem attains_zero (I : σ → Prop) (μ : σ → ℕ)
    (hs : ∀ s, I s → μ s ≠ 0 → ∃ a s', P a ∧ step s a s' ∧ I s' ∧ μ s' < μ s) (hi : I s) :
    Attains step P (fun s' => I s' ∧ μ s' = 0) s := by
  induction hm : μ s using Nat.strong_induction_on generalizing s with
  | _ m ih =>
    by_cases h0 : μ s = 0
    · exact attains_now ⟨hi, h0⟩
    · obtain ⟨a, s', ha, hst, hi', hlt⟩ := hs s hi h0
      refine (attains_step (Q := (· = s')) ha hst rfl).trans ?_
      rintro _ rfl
      exact ih _ (hm ▸ hlt) hi' rfl

/-- **Simulation**: a system that follows the steps is brought to the same. -/
theorem Attains.sim {step' : σ' → α' → σ' → Prop} {P' : α' → Prop} {Q' : σ' → Prop} {u : σ'}
    (R : σ → σ' → Prop) (hr : R s u) (hs : ∀ s a s' u, R s u → P a → step s a s' →
      ∃ a' u', P' a' ∧ step' u a' u' ∧ R s' u') (hq : ∀ s u, R s u → Q s → Q' u)
    (h : Attains step P Q s) : Attains step' P' Q' u := by
  obtain ⟨t, s', hrun, ht, hqs⟩ := h
  obtain ⟨t', u', hrun', ht', hr'⟩ : ∃ t' u', Run step' u t' u' ∧ (∀ e ∈ t', P' e.2) ∧ R s' u' := by
    clear hqs
    induction hrun with
    | nil => exact ⟨[], u, .nil, by simp, hr⟩
    | @snoc t s₁ a s₂ _ hst ih =>
      obtain ⟨t', u₁, hrun', ht', hr₁⟩ := ih fun e he => ht e (by simp [he])
      obtain ⟨a', u₂, ha', hst', hr₂⟩ := hs s₁ a s₂ u₁ hr₁ (ht (s₁, a) (by simp)) hst
      refine ⟨t' ++ [(u₁, a')], u₂, .snoc hrun' hst', fun e he => ?_, hr₂⟩
      rcases List.mem_append.1 he with he | he
      · exact ht' e he
      · rw [List.mem_singleton.1 he]
        exact ha'
  exact ⟨t', u', hrun', ht', hq _ _ hr' hqs⟩

end

end Runs
