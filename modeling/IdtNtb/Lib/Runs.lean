/-
  Runs of labelled transition systems, and what a run has left behind.

  A `Run` records every step it took: the action together with the state the
  action was taken in.  Properties of histories are then properties of lists.

  * `Run.inv` carries an invariant along a run, `Run.split` takes a run apart at
    one of its steps, and `exec` runs a partial function on a list of actions;
  * `Since on off` says that `on` has happened and `off` has not happened since;
    `Run.latch` is the rule for a bit that `on` sets and `off` clears;
  * `Run.register` is the rule for a word that some steps store into: it holds
    the last value stored;
  * `Ends E P` says how a computation that can fail ends: with a value in `P`,
    or with an error in `E`.
-/
import Mathlib.Data.List.Basic
import Mathlib.Data.List.Infix

namespace Runs

variable {σ σ' α α' β ε τ : Type}

/-- A run from `s₀`.  The trace holds each action with the state it was taken in. -/
inductive Run (step : σ → α → σ → Prop) (s₀ : σ) : List (σ × α) → σ → Prop
  | nil : Run step s₀ [] s₀
  | snoc {t s a s'} : Run step s₀ t s → step s a s' → Run step s₀ (t ++ [(s, a)]) s'

section
variable {step : σ → α → σ → Prop} {s₀ s : σ} {t : List (σ × α)}

/-- An invariant that every step keeps holds after every run. -/
theorem Run.inv (I : σ → Prop) (h0 : I s₀) (hs : ∀ s a s', I s → step s a s' → I s')
    (h : Run step s₀ t s) : I s := by
  induction h with
  | nil => exact h0
  | snoc _ ha ih => exact hs _ _ _ ih ha

/-- `Run.inv` where the steps of the run are known to satisfy `G`. -/
theorem Run.inv_of (I : σ → Prop) (G : σ × α → Prop) (h0 : I s₀)
    (hs : ∀ s a s', I s → G (s, a) → step s a s' → I s')
    (h : Run step s₀ t s) (hG : ∀ e ∈ t, G e) : I s := by
  induction h with
  | nil => exact h0
  | snoc _ ha ih =>
    refine hs _ _ _ (ih fun e he => hG e (by simp [he])) (hG _ (by simp)) ha

/-- A run ends where it began or by a last step. -/
theorem Run.snoc_inv {e : σ × α} (h : Run step s₀ (t ++ [e]) s) :
    Run step s₀ t e.1 ∧ step e.1 e.2 s := by
  generalize ht : t ++ [e] = u at h
  cases h with
  | nil => simp at ht
  | snoc h' ha =>
    obtain ⟨rfl, he⟩ := List.append_inj' ht rfl
    simp only [List.cons.injEq, and_true] at he
    subst he
    exact ⟨h', ha⟩

theorem Run.nil_inv (h : Run step s₀ [] s) : s = s₀ := by
  generalize ht : ([] : List (σ × α)) = u at h
  cases h with
  | nil => rfl
  | snoc => simp at ht

theorem Run.trans {t' : List (σ × α)} {s' : σ} (h : Run step s₀ t s) (h' : Run step s t' s') :
    Run step s₀ (t ++ t') s' := by
  induction h' with
  | nil => simpa using h
  | snoc _ ha ih => rw [← List.append_assoc]; exact .snoc ih ha

/-- A run taken apart at one of its steps. -/
theorem Run.split {t₁ t₂ : List (σ × α)} {e : σ × α} (h : Run step s₀ (t₁ ++ e :: t₂) s) :
    Run step s₀ t₁ e.1 ∧ ∃ s₁, step e.1 e.2 s₁ ∧ Run step s₁ t₂ s := by
  induction t₂ using List.reverseRecOn generalizing s with
  | nil =>
    obtain ⟨h1, h2⟩ := h.snoc_inv
    exact ⟨h1, s, h2, .nil⟩
  | append_singleton t₂ e' ih =>
    rw [← List.cons_append, ← List.append_assoc] at h
    obtain ⟨h1, h2⟩ := h.snoc_inv
    obtain ⟨h3, s₁, h4, h5⟩ := ih h1
    exact ⟨h3, s₁, h4, .snoc h5 h2⟩

/-- Every step of a run was taken in a state that a prefix of the run reached. -/
theorem Run.fired (h : Run step s₀ t s) {e : σ × α} (he : e ∈ t) :
    ∃ t₁ t₂ s₁, t = t₁ ++ e :: t₂ ∧ Run step s₀ t₁ e.1 ∧ step e.1 e.2 s₁ := by
  obtain ⟨t₁, t₂, rfl⟩ := List.append_of_mem he
  obtain ⟨h1, s₁, h2, -⟩ := h.split
  exact ⟨t₁, t₂, s₁, rfl, h1, h2⟩

/-- **Simulation**: where every step of a run is a step of a second system, under an abstraction of
    the states and a labelling of the steps, the run is a run of that system. -/
theorem Run.map {step' : σ' → α' → σ' → Prop} (f : σ → σ') (g : σ × α → α') (h : Run step s₀ t s)
    (hs : ∀ e ∈ t, ∀ s', step e.1 e.2 s' → step' (f e.1) (g e) (f s')) :
    Run step' (f s₀) (t.map fun e => (f e.1, g e)) (f s) := by
  induction h with
  | nil => exact .nil
  | snoc _ ha ih =>
    rw [List.map_append]
    exact .snoc (ih fun e he => hs e (by simp [he])) (hs _ (by simp) _ ha)

/-- **Two runs with the same actions**: a relation between their states that every pair of equal
    steps keeps still holds at their ends. -/
theorem Run.unwind {R : σ → σ → Prop} {u₀ u : σ} {t' : List (σ × α)} (hR : R s₀ u₀)
    (h : Run step s₀ t s) (h' : Run step u₀ t' u) (ht : t.map Prod.snd = t'.map Prod.snd)
    (hs : ∀ e ∈ t, ∀ e' ∈ t', e.2 = e'.2 → R e.1 e'.1 → ∀ s₁ u₁, step e.1 e.2 s₁ →
      step e'.1 e'.2 u₁ → R s₁ u₁) : R s u := by
  induction h generalizing t' u with
  | nil =>
    obtain rfl : t' = [] := by simpa using ht.symm
    rw [h'.nil_inv]
    exact hR
  | @snoc t s a s₁ _ ha ih =>
    rcases List.eq_nil_or_concat t' with rfl | ⟨t₁, e', rfl⟩
    · simp at ht
    · rw [List.concat_eq_append] at h' ht hs
      rw [List.map_append, List.map_append] at ht
      obtain ⟨ht₁, he⟩ := List.append_inj' ht rfl
      simp only [List.map_cons, List.map_nil, List.cons.injEq, and_true] at he
      obtain ⟨h1, h2⟩ := h'.snoc_inv
      refine hs (s, a) (by simp) e' (by simp) he ?_ _ _ ha h2
      exact ih h1 ht₁ fun e hm e'' hm' => hs e (by simp [hm]) e'' (by simp [hm'])

end

/-! ## Since -/

/-- `on` has happened, and `off` has not happened since. -/
def Since (on off : τ → Prop) (t : List τ) : Prop :=
  ∃ t₁ e t₂, t = t₁ ++ e :: t₂ ∧ on e ∧ ∀ e' ∈ t₂, ¬ off e'

section
variable {on off : τ → Prop} {t : List τ}

theorem since_nil : ¬ Since on off ([] : List τ) := by
  rintro ⟨t₁, e, t₂, h, -⟩
  simp at h

/-- One step further: `on` happens now, or it had happened and `off` does not happen now. -/
theorem since_snoc {e : τ} :
    Since on off (t ++ [e]) ↔ on e ∨ (Since on off t ∧ ¬ off e) := by
  constructor
  · rintro ⟨t₁, e₁, t₂, h, h1, h2⟩
    rcases List.eq_nil_or_concat t₂ with rfl | ⟨t₃, e₂, rfl⟩
    · obtain ⟨-, he⟩ := List.append_inj' h rfl
      simp only [List.cons.injEq, and_true] at he
      exact Or.inl (he ▸ h1)
    · simp only [List.concat_eq_append] at h h2
      rw [← List.cons_append, ← List.append_assoc] at h
      obtain ⟨rfl, he⟩ := List.append_inj' h rfl
      simp only [List.cons.injEq, and_true] at he
      subst he
      exact Or.inr ⟨⟨t₁, e₁, t₃, rfl, h1, fun e' he' => h2 e' (by simp [he'])⟩, h2 _ (by simp)⟩
  · rintro (h | ⟨⟨t₁, e₁, t₂, rfl, h1, h2⟩, h⟩)
    · exact ⟨t, e, [], rfl, h, by simp⟩
    · refine ⟨t₁, e₁, t₂ ++ [e], by simp, h1, fun e' he' => ?_⟩
      rcases List.mem_append.1 he' with he' | he'
      · exact h2 e' he'
      · rw [List.mem_singleton] at he'; exact he' ▸ h

theorem since_cons {e : τ} :
    Since on off (e :: t) ↔ Since on off t ∨ (on e ∧ ∀ e' ∈ t, ¬ off e') := by
  constructor
  · rintro ⟨t₁, e₁, t₂, h, h1, h2⟩
    cases t₁ with
    | nil =>
      obtain ⟨rfl, rfl⟩ := List.cons.inj h
      exact Or.inr ⟨h1, h2⟩
    | cons e' t₁ =>
      obtain ⟨-, rfl⟩ := List.cons.inj h
      exact Or.inl ⟨t₁, e₁, t₂, rfl, h1, h2⟩
  · rintro (⟨t₁, e₁, t₂, rfl, h1, h2⟩ | ⟨h1, h2⟩)
    · exact ⟨e :: t₁, e₁, t₂, rfl, h1, h2⟩
    · exact ⟨[], e, t, rfl, h1, h2⟩

theorem Since.mono {on' : τ → Prop} (h : Since on off t) (hon : ∀ e ∈ t, on e → on' e) :
    Since on' off t := by
  obtain ⟨t₁, e, t₂, rfl, h1, h2⟩ := h
  exact ⟨t₁, e, t₂, rfl, hon e (by simp) h1, h2⟩

instance decidableSince [DecidablePred on] [DecidablePred off] : DecidablePred (Since on off)
  | [] => isFalse since_nil
  | _ :: t =>
    have : Decidable (Since on off t) := decidableSince t
    decidable_of_iff _ since_cons.symm

end

/-- **The rule for a latched bit.**  A bit that is clear at first, that `on` sets and `off`
    clears and nothing else changes, is set exactly when `on` has happened since the last `off`. -/
theorem Run.latch {step : σ → α → σ → Prop} {s₀ s : σ} {t : List (σ × α)} {on off : σ × α → Prop}
    (P : σ → Prop) (h0 : ¬ P s₀) (h : Run step s₀ t s)
    (hs : ∀ e ∈ t, ∀ s', step e.1 e.2 s' → (P s' ↔ on e ∨ (P e.1 ∧ ¬ off e))) :
    P s ↔ Since on off t := by
  induction h with
  | nil => simp only [h0, since_nil]
  | snoc _ ha ih =>
    rw [since_snoc, ← ih fun e he => hs e (by simp [he])]
    exact hs _ (by simp) _ ha

/-- **The rule for what a bit reports.**  Where every step that leaves `P` without `R` either is an
    `on` step or found them so and is no `off` step, `P` without `R` is there because of an `on`. -/
theorem Run.source {step : σ → α → σ → Prop} {s₀ s : σ} {t : List (σ × α)} {on off : σ × α → Prop}
    (P R : σ → Prop) (h0 : ¬ P s₀) (h : Run step s₀ t s)
    (hs : ∀ e ∈ t, ∀ s', step e.1 e.2 s' → P s' → ¬ R s' → on e ∨ (P e.1 ∧ ¬ R e.1 ∧ ¬ off e)) :
    P s → ¬ R s → Since on off t := by
  induction h with
  | nil => exact fun hp => absurd hp h0
  | @snoc t s a s' _ ha ih =>
    intro hp hr
    rw [since_snoc]
    rcases hs (s, a) (by simp) s' ha hp hr with hon | ⟨hp', hr', hoff⟩
    · exact Or.inl hon
    · exact Or.inr ⟨ih (fun e he => hs e (by simp [he])) hp' hr', hoff⟩

/-! ## Stores -/

/-- **The rule for a register.**  A word that each step either stores into or leaves alone holds
    the last value stored, or its first value. -/
theorem Run.register {step : σ → α → σ → Prop} {s₀ s : σ} {t : List (σ × α)}
    (store : σ × α → Option β) (word : σ → β) (h : Run step s₀ t s)
    (hs : ∀ e ∈ t, ∀ s', step e.1 e.2 s' → word s' = (store e).getD (word e.1)) :
    word s = (t.filterMap store).getLast?.getD (word s₀) := by
  induction h with
  | nil => rfl
  | @snoc t s a s' _ ha ih =>
    rw [hs (s, a) (by simp) _ ha, List.filterMap_append]
    cases hst : store (s, a) with
    | none =>
      simp only [hst, Option.getD_none, List.filterMap_cons_none, List.filterMap_nil,
        List.append_nil]
      exact ih fun e he => hs e (by simp [he])
    | some v => simp [List.filterMap_cons_some hst]

/-! ## Running a partial function -/

/-- A bind that succeeds, taken apart. -/
theorem bind_ok {γ δ : Type} {m : Except ε γ} {f : γ → Except ε δ} {r : δ} :
    (m >>= f) = .ok r ↔ ∃ a, m = .ok a ∧ f a = .ok r := by
  cases m with
  | error e => exact ⟨nofun, fun ⟨_, h, _⟩ => nomatch h⟩
  | ok a => exact ⟨fun h => ⟨a, rfl, h⟩, fun ⟨_, h, h'⟩ => by cases h; exact h'⟩

theorem map_ok {γ δ : Type} {m : Except ε γ} {f : γ → δ} {r : δ} :
    m.map f = .ok r ↔ ∃ a, m = .ok a ∧ f a = r := by
  cases m with
  | error e => exact ⟨nofun, fun ⟨_, h, _⟩ => nomatch h⟩
  | ok a => exact ⟨fun h => ⟨a, rfl, Except.ok.inj h⟩, fun ⟨_, h, h'⟩ => by cases h; rw [← h']; rfl⟩

/-- The computation ends with a value in `P`, or with an error in `E`. -/
def Ends {γ : Type} (E : ε → Prop) (P : γ → Prop) : Except ε γ → Prop
  | .ok a => P a
  | .error e => E e

section
variable {γ δ : Type} {E : ε → Prop} {P : γ → Prop} {Q : δ → Prop} {m : Except ε γ}

theorem Ends.bind {f : γ → Except ε δ} (hm : Ends E P m) (hf : ∀ a, P a → Ends E Q (f a)) :
    Ends E Q (m >>= f) := by
  cases m with
  | error e => exact hm
  | ok a => exact hf a hm

theorem Ends.ne_error {e : ε} (hm : Ends E P m) (he : ¬ E e) : m ≠ .error e := by
  rintro rfl
  exact he hm

end

/-- Take the actions of a list one after the other. -/
def exec (f : σ → α → Except ε σ) : σ → List α → Except ε σ
  | s, [] => .ok s
  | s, a :: l => (f s a).bind (exec f · l)

@[simp] theorem exec_singleton (f : σ → α → Except ε σ) (s : σ) (a : α) : exec f s [a] = f s a := by
  simp only [exec]
  cases f s a <;> rfl

/-- Two lists of actions, one after the other. -/
theorem exec_append (f : σ → α → Except ε σ) (s : σ) (l l' : List α) :
    exec f s (l ++ l') = exec f s l >>= fun s' => exec f s' l' := by
  induction l generalizing s with
  | nil => rfl
  | cons a l ih =>
    simp only [List.cons_append, exec]
    cases f s a with
    | error e => rfl
    | ok s₁ => exact ih s₁

/-- The steps that `exec` takes. -/
def trace (f : σ → α → Except ε σ) : σ → List α → List (σ × α)
  | _, [] => []
  | s, a :: l => (s, a) :: match f s a with
    | .ok s' => trace f s' l
    | .error _ => []

theorem forall_trace_nil {f : σ → α → Except ε σ} {G : σ × α → Prop} {s : σ} :
    ∀ e ∈ trace f s [], G e := nofun

/-- The first step and the others. -/
theorem forall_trace_cons {f : σ → α → Except ε σ} {G : σ × α → Prop} {s t : σ} {a : α}
    {l : List α} (h : f s a = .ok t) :
    (∀ e ∈ trace f s (a :: l), G e) ↔ G (s, a) ∧ ∀ e ∈ trace f t l, G e := by
  rw [trace, h]
  exact List.forall_mem_cons

theorem mem_of_mem_trace {f : σ → α → Except ε σ} {s : σ} {l : List α} {e : σ × α}
    (he : e ∈ trace f s l) : e.2 ∈ l := by
  induction l generalizing s with
  | nil => cases he
  | cons a l ih =>
    unfold trace at he
    rcases List.mem_cons.1 he with rfl | he
    · simp
    · cases h : f s a with
      | error => rw [h] at he; cases he
      | ok s' =>
        rw [h] at he
        exact List.mem_cons_of_mem a (ih he)

/-- **Actions that all meet a condition** are taken to the end, if those that meet it can be taken
    from a state of the invariant and keep it. -/
theorem exec_of_trace {f : σ → α → Except ε σ} (I : σ → Prop) (G : σ × α → Prop)
    (hs : ∀ s a, I s → G (s, a) → ∃ s', f s a = .ok s' ∧ I s') {s : σ} (h0 : I s) (l : List α)
    (hl : ∀ e ∈ trace f s l, G e) : ∃ s', exec f s l = .ok s' ∧ I s' := by
  induction l generalizing s with
  | nil => exact ⟨s, rfl, h0⟩
  | cons a l ih =>
    obtain ⟨s₁, h₁, hi₁⟩ := hs s a h0 (hl (s, a) List.mem_cons_self)
    rw [trace, h₁] at hl
    obtain ⟨s', h', hi'⟩ := ih hi₁ fun e he => hl e (List.mem_cons_of_mem _ he)
    refine ⟨s', ?_, hi'⟩
    rw [exec, h₁]
    exact h'

/-- **Erasing actions**: what is run with them can be run without, if the actions that are erased keep
    the states related and the others can be followed. -/
theorem exec_erase {δ : Type} {f : σ → α → Except ε σ} {g : τ → β → Except δ τ} (R : τ → σ → Prop)
    (er : α → Option β)
    (hs : ∀ t s a s', R t s → f s a = .ok s' → ∃ t', exec g t (er a).toList = .ok t' ∧ R t' s')
    {t : τ} {s s' : σ} (h0 : R t s) {l : List α} (h : exec f s l = .ok s') :
    ∃ t', exec g t (l.filterMap er) = .ok t' ∧ R t' s' := by
  induction l generalizing t s with
  | nil =>
    cases h
    exact ⟨t, rfl, h0⟩
  | cons a l ih =>
    obtain ⟨s₁, h₁, h⟩ := bind_ok.1 h
    obtain ⟨t₁, ht₁, hr₁⟩ := hs t s a s₁ h0 h₁
    obtain ⟨t', ht', hr'⟩ := ih hr₁ h
    have hcons : (a :: l).filterMap er = (er a).toList ++ l.filterMap er := by
      cases her : er a <;> simp [her]
    refine ⟨t', ?_, hr'⟩
    rw [hcons, exec_append, ht₁]
    exact ht'

/-- The invariant holds before each of the steps. -/
theorem inv_of_mem_trace {f : σ → α → Except ε σ} (I : σ → Prop) (G : σ × α → Prop)
    (hs : ∀ s a, I s → G (s, a) → ∃ s', f s a = .ok s' ∧ I s') {s : σ} (h0 : I s) (l : List α)
    (hl : ∀ e ∈ trace f s l, G e) : ∀ e ∈ trace f s l, I e.1 := by
  induction l generalizing s with
  | nil => nofun
  | cons a l ih =>
    obtain ⟨s₁, h₁, hi₁⟩ := hs s a h0 (hl (s, a) List.mem_cons_self)
    rw [trace, h₁] at hl ⊢
    intro e he
    rcases List.mem_cons.1 he with rfl | he
    · exact h0
    · exact ih hi₁ (fun e he => hl e (List.mem_cons_of_mem _ he)) e he

/-- A list that is run to its end is what its steps did. -/
theorem map_snd_trace {f : σ → α → Except ε σ} {s s' : σ} {l : List α} (h : exec f s l = .ok s') :
    (trace f s l).map Prod.snd = l := by
  induction l generalizing s with
  | nil => rfl
  | cons a l ih =>
    simp only [exec, trace] at h ⊢
    cases hst : f s a with
    | error e =>
      rw [hst] at h
      cases h
    | ok s₁ =>
      rw [hst] at h
      rw [List.map_cons]
      exact congrArg (a :: ·) (ih h)

theorem Run.of_exec {f : σ → α → Except ε σ} : ∀ {s₀ s : σ} {l : List α}, exec f s₀ l = .ok s →
    Run (fun s a s' => f s a = .ok s') s₀ (trace f s₀ l) s
  | s₀, s, [], h => by
    simp only [exec, Except.ok.injEq] at h
    subst h
    exact .nil
  | s₀, s, a :: l, h => by
    simp only [exec] at h
    cases h1 : f s₀ a with
    | error e => rw [h1] at h; simp [Except.bind] at h
    | ok s₁ =>
      rw [h1] at h
      have ht : trace f s₀ (a :: l) = [(s₀, a)] ++ trace f s₁ l := by simp [trace, h1]
      rw [ht]
      exact (Run.snoc .nil h1).trans (Run.of_exec h)

end Runs
