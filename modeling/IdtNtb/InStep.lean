/-
  The unmasked flag and the irqfd of a vector.

  The events of `IrqEvent` are the ones that change the entries of `msi_vectors`
  in irqfd mode.  What is relied on of the MSI-X core is in `IrqEvent.Admitted`.

  * `addVirqs_tracked`, `undo_tracked`, `disable_tracked` and `notices_tracked`
    are the loops, told by the vectors that have a route (`Span`);
  * `InStep` is kept by every event that is clean (`inStep_step`): no connect
    gets a route while the notifiers of an enabled MSI-X are not set, KVM
    detaches what it is asked to, and the own entry is in the table when MSI-X is
    enabled;
  * `irqfd_in_step`: in runs of such events each vector is unmasked exactly while
    its irqfd is attached, and its route is released once, after that.
-/
import IdtNtb.Irqfd
import IdtNtb.Orders

namespace IdtNtb

open Function (update)
open Runs Irqfd

variable {x : Vm} {s s' : Irqfd x} {a b i n : ℕ}

namespace Irqfd

/-- Only vectors from `a` on and below `b` have a route. -/
def Span (s : Irqfd x) (a b : ℕ) : Prop :=
  ∀ v e, s.entry v = some e → e.pdev = true → a ≤ v ∧ v < b

/-- The notifier of each vector is there. -/
def Reaches (s : Irqfd x) : Prop :=
  ∀ v, (s.entry v).isSome → ∃ n, s.ctx.dev.notifier s.ctx.dev.vmId v = .ok n

/-- The core takes those vectors to be in use that are unmasked. -/
def InUse (s : Irqfd x) : Prop := ∀ v e, s.entry v = some e → s.inUse v = e.unmasked

theorem Kept.reaches (h : Kept s s') (hr : Reaches s) : Reaches s' := by
  intro v hv
  obtain ⟨n, hn⟩ := hr v ((h.isSome v).1 hv)
  obtain ⟨ms, hdev, -⟩ := h.dev
  refine ⟨n, ?_⟩
  rw [hdev]
  exact hn

/-- A vector without a route is masked. -/
theorem Tracked.masked (h : Tracked s) (hs : Span s a a) {v : ℕ} {e : MSIVector}
    (he : s.entry v = some e) : e.pdev = false ∧ e.unmasked = false := by
  have hp : e.pdev = false := by
    by_contra hp
    rw [Bool.not_eq_false] at hp
    have hspan := hs v e he hp
    omega
  refine ⟨hp, ?_⟩
  by_contra hu
  rw [Bool.not_eq_false] at hu
  rw [(h.entry v e he).2 hu] at hp
  cases hp

theorem Tracked.report (h : Tracked s) (msg : String) : Tracked (s.report msg) :=
  ⟨h.entry, h.outside⟩

theorem Kept.report (s : Irqfd x) (msg : String) : Kept s (s.report msg) :=
  ⟨⟨_, rfl, rfl⟩, rfl, rfl⟩

end Irqfd

/-! ## The loops -/

/-- What the loops keep: with no vector unmasked, KVM and the entries agree. -/
structure Quiescent (s : Irqfd x) (a b : ℕ) : Prop where
  tracked : Tracked s
  span : Span s a b
  masked : ∀ v e, s.entry v = some e → e.unmasked = false

/-- Another entry takes the place of one. -/
theorem Quiescent.update (h : Quiescent s a b) {a' b' : ℕ} {e' : MSIVector} (ht : Tracked s')
    (hentry : s'.entry = Function.update s.entry i (some e')) (hmask : e'.unmasked = false)
    (hpdev : e'.pdev = true → a' ≤ i ∧ i < b')
    (hspan : ∀ v, v ≠ i → a ≤ v → v < b → a' ≤ v ∧ v < b') : Quiescent s' a' b' := by
  refine ⟨ht, fun v e he hp => ?_, fun v e he => ?_⟩
  · rw [hentry] at he
    by_cases hv : v = i
    · subst hv
      rw [Function.update_self] at he
      cases he
      exact hpdev hp
    · rw [Function.update_of_ne hv] at he
      obtain ⟨h1, h2⟩ := h.span v e he hp
      exact hspan v hv h1 h2
  · rw [hentry] at he
    by_cases hv : v = i
    · subst hv
      rw [Function.update_self] at he
      cases he
      exact hmask
    · rw [Function.update_of_ne hv] at he
      exact h.masked v e he

/-- **Routes are added** up to the first one that KVM refuses. -/
theorem addVirqs_tracked (routes : ℕ → ℤ) (h : Quiescent s 0 i)
    (hroom : ∀ v < i + n, (s.entry v).isSome) : ∃ s' j added,
      addVirqs routes s i n = .ok (s', j, added) ∧ Quiescent s' 0 j ∧ Kept s s' ∧ SameCore s s' ∧
      j ≤ i + n := by
  induction n generalizing s i with
  | zero => exact ⟨s, i, true, rfl, h, .refl s, ⟨rfl, rfl⟩, le_rfl⟩
  | succ n ih =>
    obtain ⟨e, he⟩ := Option.isSome_iff_exists.1 (hroom i (by omega))
    have hp : e.pdev = false := by
      by_contra hp
      rw [Bool.not_eq_false] at hp
      have hspan := h.span i e he hp
      omega
    obtain ⟨s₁, err, hadd, ht, hk, hcore, hentry, herr⟩ := add_tracked h.tracked he hp (routes i)
    rw [addVirqs, hadd]
    dsimp only [bind, Except.bind]
    cases err with
    | some err =>
      have hret : routes i < 0 := by
        by_contra hret
        cases herr.2 hret
      rw [if_pos hret] at hentry
      refine ⟨_, i, false, rfl, ⟨ht.report _, ?_, ?_⟩, hk.trans (.report s₁ _),
        ⟨hcore.useNotifier, hcore.inUse⟩, by omega⟩
      · intro v e he
        exact h.span v e (hentry ▸ he)
      · intro v e he
        exact h.masked v e (hentry ▸ he)
    | none =>
      have hret : ¬ routes i < 0 := herr.1 rfl
      rw [if_neg hret] at hentry
      have hq : Quiescent s₁ 0 (i + 1) := by
        refine h.update ht hentry (h.masked i e he)
          (fun _ => ⟨Nat.zero_le i, Nat.lt_succ_self i⟩) ?_
        intro v _ h1 h2
        exact ⟨h1, Nat.lt_succ_of_lt h2⟩
      obtain ⟨s', j, added, hrec, hq', hk', hcore', hj⟩ := ih hq fun v hv =>
        (hk.isSome v).2 (hroom v (by omega))
      exact ⟨s', j, added, hrec, hq', hk.trans hk', ⟨hcore'.useNotifier.trans hcore.useNotifier,
        hcore'.inUse.trans hcore.inUse⟩, by omega⟩

/-- **Undoing** releases all of them. -/
theorem undo_tracked (h : Quiescent s 0 i) (hroom : ∀ v < i, (s.entry v).isSome) : ∃ s',
    undoVirqs s i = .ok s' ∧ Quiescent s' 0 0 ∧ Kept s s' ∧ SameCore s s' := by
  unfold undoVirqs
  induction i generalizing s with
  | zero => exact ⟨s, rfl, h, .refl s, ⟨rfl, rfl⟩⟩
  | succ i ih =>
    obtain ⟨e, he⟩ := Option.isSome_iff_exists.1 (hroom i (by omega))
    obtain ⟨s₁, hrem, ht, hk, hcore, hentry⟩ := remove_tracked h.tracked he (h.masked i e he)
    have hq : Quiescent s₁ 0 i := by
      refine h.update ht hentry (h.masked i e he) nofun ?_
      intro v hv h1 h2
      exact ⟨h1, by omega⟩
    obtain ⟨s', hrec, hq', hk', hcore'⟩ := ih hq fun v hv => (hk.isSome v).2 (hroom v (by omega))
    refine ⟨s', ?_, hq', hk.trans hk', hcore'.useNotifier.trans hcore.useNotifier,
      hcore'.inUse.trans hcore.inUse⟩
    rw [List.range_succ, List.reverse_append, List.reverse_singleton, List.singleton_append,
      List.foldlM_cons, hrem]
    exact hrec

/-- **One vector is disabled**: its irqfd is detached, if it is attached, and its route released. -/
theorem disableVirq_tracked {removes : ℕ → ℤ} {e : MSIVector} (h : Tracked s) (hr : Reaches s)
    (he : s.entry i = some e) (hc : 0 ≤ removes i) : ∃ s', disableVirq removes s i = .ok s' ∧
      Tracked s' ∧ Kept s s' ∧ SameCore s s' ∧
      s'.entry = update s.entry i (some { e with pdev := false, unmasked := false }) := by
  unfold disableVirq
  rw [msiVector_entry he]
  dsimp only [bind, Except.bind]
  by_cases hu : e.unmasked = true
  · obtain ⟨n, hn⟩ := hr i (by rw [he]; rfl)
    obtain ⟨s₁, hmask, ht, hk, hcore, hentry⟩ := mask_tracked h he hu hn hc
    have he₁ : s₁.entry i = some { e with unmasked := false } := by
      rw [hentry, Function.update_self]
    obtain ⟨s', hrem, ht', hk', hcore', hentry'⟩ := remove_tracked ht he₁ rfl
    simp only [hu, if_true, hmask]
    refine ⟨s', hrem, ht', hk.trans hk', ⟨hcore'.useNotifier.trans hcore.useNotifier,
      hcore'.inUse.trans hcore.inUse⟩, ?_⟩
    rw [hentry', hentry, Function.update_idem]
  · rw [Bool.not_eq_true] at hu
    obtain ⟨s', hrem, ht', hk', hcore', hentry'⟩ := remove_tracked h he hu
    simp only [hu, Bool.false_eq_true, if_false, pure, Except.pure]
    refine ⟨s', hrem, ht', hk', hcore', ?_⟩
    rw [hentry', ← hu]

/-- **Disabling** releases all routes. -/
theorem disable_tracked {removes : ℕ → ℤ} (h : Tracked s) (hspan : Span s a (a + n))
    (hr : Reaches s) (hroom : ∀ v < a + n, (s.entry v).isSome) (hc : ∀ v, 0 ≤ removes v) : ∃ s',
      (List.range' a n).foldlM (disableVirq removes) s = .ok s' ∧ Tracked s' ∧
      Span s' (a + n) (a + n) ∧ Kept s s' ∧ SameCore s s' := by
  induction n generalizing s a with
  | zero => exact ⟨s, rfl, h, hspan, .refl s, ⟨rfl, rfl⟩⟩
  | succ n ih =>
    obtain ⟨e, he⟩ := Option.isSome_iff_exists.1 (hroom a (by omega))
    obtain ⟨s₁, hdis, ht, hk, hcore, hentry⟩ := disableVirq_tracked h hr he (hc a)
    have hsum : a + 1 + n = a + (n + 1) := by omega
    have hspan₁ : Span s₁ (a + 1) (a + 1 + n) := by
      intro v e₁ he₁ hp
      rw [hentry] at he₁
      by_cases hv : v = a
      · rw [hv, Function.update_self] at he₁
        cases he₁
        cases hp
      · rw [Function.update_of_ne hv] at he₁
        have hold := hspan v e₁ he₁ hp
        omega
    obtain ⟨s', hrec, ht', hspan', hk', hcore'⟩ := ih ht hspan₁ (hk.reaches hr) fun v hv =>
      (hk.isSome v).2 (hroom v (by omega))
    rw [hsum] at hspan'
    refine ⟨s', ?_, ht', hspan', hk.trans hk', hcore'.useNotifier.trans hcore.useNotifier,
      hcore'.inUse.trans hcore.inUse⟩
    rw [List.range'_succ, List.foldlM_cons, hdis]
    exact hrec

/-! ## Notices -/

/-- The core masks what is in use and unmasks what is not, of the vectors that the device has. -/
def Notice.Legal (s : Irqfd x) : Notice → Prop
  | .unmask vector _ _ => vector < s.ctx.dev.vectors ∧ s.inUse vector = false
  | .mask vector _ => vector < s.ctx.dev.vectors ∧ s.inUse vector = true

/-- KVM detaches the notifier, if it is asked to. -/
def Notice.Clean : Notice → Prop
  | .unmask .. => True
  | .mask _ remove => 0 ≤ remove

/-- What the core's calls keep. -/
structure Steady (s : Irqfd x) : Prop where
  tracked : Tracked s
  inUse : InUse s
  reaches : Reaches s
  sized : s.ctx.dev.msiVectors.map List.length = some s.ctx.dev.vectors

/-- The same vectors have a route. -/
def SameRoutes (s s' : Irqfd x) : Prop :=
  ∀ v, (s'.entry v).map MSIVector.pdev = (s.entry v).map MSIVector.pdev

theorem SameRoutes.span (h : SameRoutes s s') (hs : Span s a b) : Span s' a b := by
  intro v e' he' hp
  have hsame := h v
  rw [he', Option.map_some, hp] at hsame
  obtain ⟨e, he, hpe⟩ := Option.map_eq_some_iff.1 hsame.symm
  exact hs v e he hpe

theorem isSome_of_lt (hs : s.ctx.dev.msiVectors.map List.length = some s.ctx.dev.vectors) {v : ℕ}
    (hv : v < s.ctx.dev.vectors) : (s.entry v).isSome := (isSome_entry s v).2 ⟨_, hs, hv⟩

/-- One entry is masked or unmasked, and the core knows of it. -/
theorem Steady.update (h : Steady s) {v : ℕ} {e : MSIVector} {u : Bool} {use : ℕ → Bool}
    (he : s.entry v = some e) (ht : Tracked s') (hk : Kept s s')
    (hentry : s'.entry = Function.update s.entry v (some { e with unmasked := u }))
    (huse : use = Function.update s.inUse v u) :
    Steady { s' with inUse := use } ∧ SameRoutes s { s' with inUse := use } := by
  obtain ⟨ms, hdev, hlen⟩ := hk.dev
  refine ⟨⟨⟨ht.entry, ht.outside⟩, ?_, hk.reaches h.reaches, ?_⟩, ?_⟩
  · intro w e' (he' : s'.entry w = some e')
    show use w = e'.unmasked
    rw [hentry] at he'
    rw [huse]
    by_cases hw : w = v
    · subst hw
      rw [Function.update_self] at he' ⊢
      cases he'
      rfl
    · rw [Function.update_of_ne hw] at he' ⊢
      exact h.inUse w e' he'
  · show s'.ctx.dev.msiVectors.map List.length = some s'.ctx.dev.vectors
    rw [hdev]
    exact hlen.trans h.sized
  · intro w
    show (s'.entry w).map MSIVector.pdev = _
    rw [hentry]
    by_cases hw : w = v
    · rw [hw, Function.update_self, he]
      rfl
    · rw [Function.update_of_ne hw]

/-- **A call of the core** is handled, and the core and the entries agree again. -/
theorem notice_tracked (h : Steady s) {m : Notice} (hl : m.Legal s) (hc : m.Clean) :
    ∃ s', s.notice m = .ok s' ∧ Steady s' ∧ Kept s s' ∧ s'.useNotifier = s.useNotifier ∧
      SameRoutes s s' := by
  cases m with
  | unmask v update add =>
    obtain ⟨hv, huse⟩ := hl
    obtain ⟨e, he⟩ := Option.isSome_iff_exists.1 (isSome_of_lt h.sized hv)
    have hmask : e.unmasked = false := (h.inUse v e he).symm.trans huse
    obtain ⟨n, hn⟩ := h.reaches v (isSome_of_lt h.sized hv)
    obtain ⟨s₁, ret, hunmask, ht, hk, hcore, hentry⟩ :=
      unmask_tracked h.tracked he hmask hn update add
    dsimp only [Irqfd.notice]
    rw [hunmask]
    dsimp only [bind, Except.bind]
    by_cases hret : ret < 0
    · rw [if_pos hret]
      rw [decide_eq_false (by omega)] at hentry
      have hsame : s₁.inUse = Function.update s.inUse v false := by
        rw [hcore.inUse, ← huse, Function.update_eq_self]
      obtain ⟨hsteady, hroutes⟩ := h.update he ht hk hentry hsame
      exact ⟨s₁, rfl, hsteady, hk, hcore.useNotifier, hroutes⟩
    · rw [if_neg hret]
      rw [decide_eq_true (by omega)] at hentry
      obtain ⟨hsteady, hroutes⟩ :=
        h.update he ht hk hentry (congrArg (Function.update · v true) hcore.inUse)
      exact ⟨_, rfl, hsteady, ⟨hk.dev, hk.shm, hk.msixEnabled⟩, hcore.useNotifier, hroutes⟩
  | mask v remove =>
    obtain ⟨hv, huse⟩ := hl
    obtain ⟨e, he⟩ := Option.isSome_iff_exists.1 (isSome_of_lt h.sized hv)
    have hmask : e.unmasked = true := (h.inUse v e he).symm.trans huse
    obtain ⟨n, hn⟩ := h.reaches v (isSome_of_lt h.sized hv)
    obtain ⟨s₁, hmasked, ht, hk, hcore, hentry⟩ := mask_tracked h.tracked he hmask hn hc
    dsimp only [Irqfd.notice]
    rw [hmasked]
    dsimp only [bind, Except.bind]
    obtain ⟨hsteady, hroutes⟩ :=
      h.update he ht hk hentry (congrArg (Function.update · v false) hcore.inUse)
    exact ⟨_, rfl, hsteady, ⟨hk.dev, hk.shm, hk.msixEnabled⟩, hcore.useNotifier, hroutes⟩

/-- **All calls of the core.** -/
theorem notices_tracked (h : Steady s) {notices : List Notice} (hc : ∀ m ∈ notices, m.Clean)
    (hl : ∀ e ∈ trace Irqfd.notice s notices, e.2.Legal e.1) :
    ∃ s', exec Irqfd.notice s notices = .ok s' ∧ Steady s' ∧ Kept s s' ∧
      s'.useNotifier = s.useNotifier ∧ SameRoutes s s' := by
  refine exec_of_trace
    (fun s' => Steady s' ∧ Kept s s' ∧ s'.useNotifier = s.useNotifier ∧ SameRoutes s s')
    (fun e => e.2.Legal e.1 ∧ e.2.Clean) ?_ ⟨h, .refl s, rfl, fun _ => rfl⟩ notices ?_
  · rintro s₁ m ⟨hsteady, hk, huse, hroutes⟩ ⟨hlegal, hclean⟩
    obtain ⟨s₂, hs₂, hsteady', hk', huse', hroutes'⟩ := notice_tracked hsteady hlegal hclean
    exact ⟨s₂, hs₂, hsteady', hk.trans hk', huse'.trans huse,
      fun v => (hroutes' v).trans (hroutes v)⟩
  · intro e he
    exact ⟨hl e he, hc e.2 (mem_of_mem_trace he)⟩

/-! ## Enabling and disabling -/

theorem ownPeer_of_lt {c : Ctx x} (h : c.dev.vmId.toNat < c.dev.nbPeers) :
    ownPeer c = .ok (c.dev.peer c.dev.vmId.toNat) := by
  unfold ownPeer
  rw [IVShmemState.getElem?_peer h]

theorem Irqfd.Kept.ownPeer (h : Kept s s') : IdtNtb.ownPeer s'.ctx = IdtNtb.ownPeer s.ctx := by
  obtain ⟨ms, hdev, -⟩ := h.dev
  unfold IdtNtb.ownPeer
  rw [hdev]

theorem Irqfd.Kept.sized (h : Kept s s')
    (hs : s.ctx.dev.msiVectors.map List.length = some s.ctx.dev.vectors) :
    s'.ctx.dev.msiVectors.map List.length = some s'.ctx.dev.vectors := by
  obtain ⟨ms, hdev, hlen⟩ := h.dev
  rw [hdev]
  exact hlen.trans hs

/-- With nothing in use and all masked, the core and the entries agree. -/
theorem Quiescent.inUse (h : Quiescent s a b)
    (hnone : ∀ v, (s.entry v).isSome → s.inUse v = false) : InUse s := by
  intro v e he
  rw [hnone v (by rw [he]; rfl), h.masked v e he]

/-- What the core answers when MSI-X is enabled: it made legal calls, and took back what it had
    unmasked if it failed. -/
def EnableLegal (s : Irqfd x) (env : ConfigEnv) : Prop :=
  ∀ p s₁ i, ownPeer s.ctx = .ok p → addVirqs env.routes s 0 p.nbEventfds = .ok (s₁, i, true) →
    (∀ e ∈ trace Irqfd.notice { s₁ with useNotifier := true } env.notices, e.2.Legal e.1) ∧
    (env.ret ≠ 0 → ∀ s₂, exec Irqfd.notice { s₁ with useNotifier := true } env.notices = .ok s₂ →
      ∀ v, s₂.inUse v = false)

/-- **Enabling** sets the notifiers and adds a route for each vector that is connected, or fails and
    leaves no vector with a route. -/
theorem enable_tracked {env : ConfigEnv} {p : Peer} (h : Steady s) (hspan : Span s 0 0)
    (hoff : s.useNotifier = false) (hown : ownPeer s.ctx = .ok p)
    (hp : p.nbEventfds ≤ s.ctx.dev.vectors) (hl : EnableLegal s env)
    (hc : ∀ m ∈ env.notices, m.Clean) : ∃ s',
      ivshmemEnableIrqfd s env.routes env.notices env.ret = .ok s' ∧ Steady s' ∧ Kept s s' ∧
      Span s' 0 p.nbEventfds ∧ (s'.useNotifier = false → Span s' 0 0) := by
  have hq : Quiescent s 0 0 := ⟨h.tracked, hspan, fun v e he => (h.tracked.masked hspan he).2⟩
  have hroom : ∀ v < 0 + p.nbEventfds, (s.entry v).isSome :=
    fun v hv => isSome_of_lt h.sized (by omega)
  obtain ⟨s₁, j, added, hadd, hq₁, hk₁, hcore, hj⟩ := addVirqs_tracked env.routes hq hroom
  have hnone : ∀ v, (s₁.entry v).isSome → s₁.inUse v = false := by
    intro v hv
    obtain ⟨e, he⟩ := Option.isSome_iff_exists.1 ((hk₁.isSome v).1 hv)
    rw [hcore.inUse, h.inUse v e he, hq.masked v e he]
  -- all routes are released, and the entries are as before
  have hundo : ∀ s₂ : Irqfd x, Quiescent s₂ 0 j → Kept s₁ s₂ → (∀ v, (s₂.entry v).isSome →
      s₂.inUse v = false) → s₂.useNotifier = false → ∃ s', undoVirqs s₂ j = .ok s' ∧ Steady s' ∧
        Kept s s' ∧ Span s' 0 p.nbEventfds ∧ (s'.useNotifier = false → Span s' 0 0) := by
    intro s₂ hq₂ hk₂ hnone₂ hoff₂
    have hk₃ := hk₁.trans hk₂
    obtain ⟨s', hu, hq', hk', hcore'⟩ := undo_tracked hq₂ fun v hv =>
      (hk₃.isSome v).2 (hroom v (by omega))
    have hk := hk₃.trans hk'
    refine ⟨s', hu, ⟨hq'.tracked, hq'.inUse fun v hv => ?_, hk.reaches h.reaches, hk.sized h.sized⟩,
      hk, fun v e he hpd => ?_, fun _ => hq'.span⟩
    · rw [hcore'.inUse]
      exact hnone₂ v ((hk'.isSome v).1 hv)
    · have hempty := hq'.span v e he hpd
      omega
  unfold ivshmemEnableIrqfd
  rw [hown]
  dsimp only [bind, Except.bind]
  rw [hadd]
  dsimp only
  cases added with
  | false =>
    simp only [Bool.false_eq_true, if_false]
    exact hundo s₁ hq₁ (.refl s₁) hnone (hcore.useNotifier.trans hoff)
  | true =>
    obtain ⟨hlegal, hfail⟩ := hl p s₁ j hown hadd
    have hsteady : Steady { s₁ with useNotifier := true } :=
      ⟨⟨hq₁.tracked.entry, hq₁.tracked.outside⟩, hq₁.inUse hnone, hk₁.reaches h.reaches,
        hk₁.sized h.sized⟩
    obtain ⟨s₂, hs₂, hsteady₂, hk₂, huse, hroutes⟩ := notices_tracked hsteady hc hlegal
    have hspan₂ : Span s₂ 0 j := hroutes.span hq₁.span
    have hk₂' : Kept s₁ s₂ := ⟨hk₂.dev, hk₂.shm, hk₂.msixEnabled⟩
    simp only [if_true, hs₂]
    by_cases hret : env.ret ≠ 0
    · have hnone₂ := hfail hret s₂ hs₂
      rw [if_pos hret]
      refine hundo _ ⟨⟨hsteady₂.tracked.entry, hsteady₂.tracked.outside⟩, hspan₂, ?_⟩ ?_
        (fun v _ => hnone₂ v) rfl
      · intro v e he
        rw [← hsteady₂.inUse v e he, hnone₂]
      · exact ⟨hk₂.dev, hk₂.shm, hk₂.msixEnabled⟩
    · rw [if_neg hret]
      refine ⟨s₂, rfl, hsteady₂, hk₁.trans hk₂', ?_, ?_⟩
      · intro v e he hpd
        have hin := hspan₂ v e he hpd
        omega
      · rw [huse]
        nofun

theorem disable_idle {notices : List Notice} {removes : ℕ → ℤ} (h : s.useNotifier = false) :
    ivshmemDisableIrqfd s notices removes = .ok s := by
  unfold ivshmemDisableIrqfd
  rw [h]
  rfl

/-- **Disabling** releases all routes, and detaches the notifiers before. -/
theorem disableIrqfd_tracked {notices : List Notice} {removes : ℕ → ℤ} {p : Peer} (h : Steady s)
    (hon : s.useNotifier = true) (hown : ownPeer s.ctx = .ok p) (hspan : Span s 0 p.nbEventfds)
    (hp : p.nbEventfds ≤ s.ctx.dev.vectors)
    (hl : ∀ e ∈ trace Irqfd.notice s notices, e.2.Legal e.1) (hc : ∀ m ∈ notices, m.Clean)
    (hr : ∀ v, 0 ≤ removes v) : ∃ s', ivshmemDisableIrqfd s notices removes = .ok s' ∧ Steady s' ∧
      Kept s s' ∧ Span s' 0 0 ∧ s'.useNotifier = false := by
  obtain ⟨s₁, hs₁, hsteady, hk₁, -, hroutes⟩ := notices_tracked h hc hl
  have hown₁ : ownPeer s₁.ctx = .ok p := hk₁.ownPeer.trans hown
  have hroom : ∀ v < 0 + p.nbEventfds, (s₁.entry v).isSome := fun v hv =>
    (hk₁.isSome v).2 (isSome_of_lt h.sized (by omega))
  have hspan₁ : Span s₁ 0 (0 + p.nbEventfds) := by
    rw [Nat.zero_add]
    exact hroutes.span hspan
  obtain ⟨s', hs', ht, hout, hk', hcore⟩ := disable_tracked
    (s := { s₁ with useNotifier := false, inUse := fun _ => false })
    ⟨hsteady.tracked.entry, hsteady.tracked.outside⟩ hspan₁ hsteady.reaches hroom hr
  have hk : Kept s s' := hk₁.trans ⟨hk'.dev, hk'.shm, hk'.msixEnabled⟩
  rw [← List.range_eq_range'] at hs'
  unfold ivshmemDisableIrqfd
  simp only [hon, Bool.not_true, Bool.false_eq_true, if_false, hs₁, bind, Except.bind, hown₁]
  refine ⟨s', hs', ⟨ht, fun v e he => ?_, hk.reaches h.reaches, hk.sized h.sized⟩, hk,
    fun v e he hpd => ?_, hcore.useNotifier⟩
  · rw [hcore.inUse, (ht.masked hout he).2]
  · have hempty := hout v e he hpd
    omega

/-! ## Connects -/

section
variable {c c' c'' : Ctx x} {fd : Fd} {env : Env} {err : Option MsgError} {vector : ℕ}
  {nt : Option Fd}

/-- No notifier is attached by irqfd. -/
def Detached (c c' : Ctx x) : Prop :=
  ∃ l, c'.out = c.out ++ l ∧ ∀ fd virq, Effect.addIrqfd fd virq ∉ l

theorem Detached.refl (c : Ctx x) : Detached c c := ⟨[], (List.append_nil _).symm, by simp⟩

theorem Detached.trans (h : Detached c c') (h' : Detached c' c'') : Detached c c'' := by
  obtain ⟨l, hl, hno⟩ := h
  obtain ⟨l', hl', hno'⟩ := h'
  refine ⟨l ++ l', by rw [hl', hl, List.append_assoc], fun fd virq hm => ?_⟩
  rcases List.mem_append.1 hm with hm | hm
  · exact hno fd virq hm
  · exact hno' fd virq hm

theorem Detached.emit (c : Ctx x) {e : Effect} (h : ∀ fd virq, e ≠ .addIrqfd fd virq) :
    Detached c (c.emit e) :=
  ⟨[e], rfl, fun fd virq hm => h fd virq (List.mem_singleton.1 hm).symm⟩

theorem Detached.initVmIds (h : initVmIds c = .ok c') :
    Detached c c' ∧ c'.dev.msiVectors = c.dev.msiVectors := by
  unfold IdtNtb.initVmIds at h
  dsimp only at h
  split_ifs at h
  · cases h
    refine ⟨Detached.emit _ ?_, rfl⟩
    intro fd virq he
    cases he
  · cases h
    exact ⟨.refl c, rfl⟩

/-- The entries after a connect: a route was added for the vector, if KVM was asked for one and gave
    it. -/
def Routed (c : Ctx x) (vector : ℕ) (env : Env) (vs : Option (List MSIVector)) : Prop :=
  if env.msixEnabled = true ∧ 0 ≤ env.addMsiRoute then
    ∃ e, msiVector c vector = .ok e ∧ e.pdev = false ∧ vs = c.dev.msiVectors.map fun vs =>
      vs.set vector { e with virq := env.addMsiRoute, pdev := true }
  else vs = c.dev.msiVectors

theorem attachNotifier_routed (hirq : env.msiViaIrqfd = true)
    (hfeat : c.dev.hasFeature ivshmemMsi = true)
    (hmask : env.msixEnabled = true → 0 ≤ env.addMsiRoute → env.msixIsMasked vector = true)
    (h : attachNotifier c nt vector env = .ok (c', err)) :
    Detached c c' ∧ Routed c vector env c'.dev.msiVectors := by
  unfold Routed
  cases attachNotifier_result h with
  | watched hno =>
    rw [hirq, hfeat] at hno
    cases hno
  | @routed e _ hmsix he hp hroute c₁ hc₁ =>
    subst hc₁
    rw [if_pos (hmask hmsix hroute), if_pos ⟨hmsix, hroute⟩]
    exact ⟨.refl c, e, he, hp, rfl⟩
  | refused _ _ _ _ hroute =>
    rw [if_neg (by omega)]
    exact ⟨.refl c, rfl⟩
  | delayed _ hmsix =>
    rw [if_neg (by simp [hmsix])]
    exact ⟨.refl c, rfl⟩

/-- **A connect of the own id** adds a route for its vector if MSI-X is enabled, and attaches no
    notifier as long as the vector is masked. -/
theorem processMsg_routed {i : ℕ} (hi : (i : ℤ) ≤ ivshmemMaxPeers) (hid : (i : ℤ) = c.dev.vmId)
    (hall : (c.dev.peer i).allocated = true) (hok : c.dev.TableOk) (hirq : env.msiViaIrqfd = true)
    (hfeat : c.dev.hasFeature ivshmemMsi = true)
    (hmask : (c.dev.peer i).nbEventfds < c.dev.vectors → env.msixEnabled = true →
      0 ≤ env.addMsiRoute → env.msixIsMasked (c.dev.peer i).nbEventfds = true)
    (h : processMsg c i (some fd) env = .ok (c', err)) : Detached c c' ∧
      if c.dev.vectors ≤ (c.dev.peer i).nbEventfds then c'.dev.msiVectors = c.dev.msiVectors
      else Routed c (c.dev.peer i).nbEventfds env c'.dev.msiVectors := by
  by_cases hfull : c.dev.vectors ≤ (c.dev.peer i).nbEventfds
  · have hpeer : (c.withPeers (roomFor c.dev.vectors c.dev.peers i)).dev.peers[i]? =
        some (c.dev.peer i) := getElem?_roomFor c.dev i
    have hvec : (c.withPeers (roomFor c.dev.vectors c.dev.peers i)).dev.vectors ≤
        (c.dev.peer i).nbEventfds := hfull
    rw [processMsg_roomFor hi, processMsgConnect, hpeer] at h
    dsimp only at h
    rw [if_pos hvec] at h
    cases h
    rw [if_pos hfull]
    refine ⟨.emit _ ?_, rfl⟩
    intro fd virq he
    cases he
  · have hroom : HasRoom c i := ⟨hall, Nat.not_le.1 hfull, (hok i).length⟩
    rw [processMsg_connect hi hroom, if_pos hid] at h
    rw [if_neg hfull]
    obtain ⟨n, -, h⟩ := bind_ok.1 h
    obtain ⟨⟨c₁, e₁⟩, h₁, h⟩ := bind_ok.1 h
    obtain ⟨hdet, hroute⟩ : Detached c c₁ ∧
        Routed c (c.dev.peer i).nbEventfds env c₁.dev.msiVectors :=
      attachNotifier_routed (c := c.withPeers (connected c.dev.vectors c.dev.peers ⟨i, some fd⟩))
        hirq hfeat (hmask hroom.room) h₁
    cases e₁ with
    | some e₁ =>
      cases h
      exact ⟨hdet, hroute⟩
    | none =>
      dsimp only at h
      split_ifs at h
      · obtain ⟨c₂, h₂, h⟩ := bind_ok.1 h
        cases h
        obtain ⟨hdet', hsame⟩ := Detached.initVmIds h₂
        rw [hsame]
        exact ⟨Detached.trans hdet hdet', hroute⟩
      · cases h
        exact ⟨hdet, hroute⟩

end

/-! ## Runs -/

/-- What is relied on of QEMU around the device: the mode, and that the core's calls are legal.
    MSI-X is disabled already when a config write unsets the notifiers, and then nothing is
    called. -/
def IrqEvent.Admitted (s : Irqfd x) : IrqEvent → Prop
  | .connect _ env _ => env.msiViaIrqfd = true ∧ env.msixEnabled = s.msixEnabled ∧
      (s.useNotifier = true → ∀ v < s.ctx.dev.vectors, env.msixIsMasked v = !s.inUse v)
  | .writeConfig true env =>
      s.msixEnabled = false → EnableLegal { s with msixEnabled := true } env
  | .writeConfig false env => s.msixEnabled = true → env.notices = []
  | .notice m => s.useNotifier = true ∧ m.Legal s
  | .reset notices _ =>
      s.useNotifier = true → ∀ e ∈ trace Irqfd.notice s notices, e.2.Legal e.1

/-- **The condition.**  The notifiers are set when a connect gets a route, the own entry is in the
    table when MSI-X is enabled, and KVM detaches every notifier that it is asked to. -/
def IrqEvent.Clean (s : Irqfd x) : IrqEvent → Prop
  | .connect _ env _ => s.msixEnabled = true → s.useNotifier = true ∨ env.addMsiRoute < 0 ∨
      s.ctx.dev.vectors ≤ s.ctx.dev.nbEventfds s.ctx.dev.vmId
  | .writeConfig true env => s.msixEnabled = false →
      s.ctx.dev.vmId.toNat < s.ctx.dev.nbPeers ∧ ∀ m ∈ env.notices, m.Clean
  | .writeConfig false env => s.useNotifier = true → ∀ v, 0 ≤ env.removes v
  | .notice m => m.Clean
  | .reset notices removes =>
      s.useNotifier = true → (∀ m ∈ notices, m.Clean) ∧ ∀ v, 0 ≤ removes v

/-- The entries, KVM and the core agree, and routes are there only while the notifiers are set. -/
structure InStep (s : Irqfd x) : Prop where
  tracked : Tracked s
  inUse : InUse s
  ready : Ready s.ctx
  range : 0 ≤ s.ctx.dev.vmId ∧ s.ctx.dev.vmId ≤ ivshmemMaxPeers
  own : (s.ctx.dev.peer s.ctx.dev.vmId.toNat).allocated = true
  msi : s.ctx.dev.hasFeature ivshmemMsi = true
  idle : s.useNotifier = false → Span s 0 0
  active : s.useNotifier = true →
    s.msixEnabled = true ∧ s.ctx.dev.vmId.toNat < s.ctx.dev.nbPeers

namespace InStep

theorem sized (h : InStep s) : s.ctx.dev.msiVectors.map List.length = some s.ctx.dev.vectors := by
  obtain ⟨vs, hvs, hlen⟩ := h.ready.wireable.vectors
  rw [hvs, Option.map_some, hlen]

theorem nbEventfds_own (h : InStep s) :
    s.ctx.dev.nbEventfds s.ctx.dev.vmId = (s.ctx.dev.peer s.ctx.dev.vmId.toNat).nbEventfds :=
  IVShmemState.nbEventfds_eq _ h.range.1

theorem span (h : InStep s) : Span s 0 (s.ctx.dev.peer s.ctx.dev.vmId.toNat).nbEventfds := by
  intro v e he hp
  refine ⟨Nat.zero_le v, ?_⟩
  by_contra hge
  have hun := h.ready.unwired v (by rw [h.nbEventfds_own]; omega) e (msiVector_entry he)
  rw [hp] at hun
  cases hun

theorem steady (h : InStep s) (hlt : s.ctx.dev.vmId.toNat < s.ctx.dev.nbPeers) : Steady s := by
  refine ⟨h.tracked, h.inUse, fun v hv => ?_, h.sized⟩
  obtain ⟨n, hn, hvn⟩ := (isSome_entry s v).1 hv
  obtain rfl : s.ctx.dev.vectors = n := Option.some.inj (h.sized.symm.trans hn)
  have hlen : v < (s.ctx.dev.peer s.ctx.dev.vmId.toNat).eventfds.length := by
    rw [(h.ready.table _).length]
    exact hvn
  refine ⟨(s.ctx.dev.peer s.ctx.dev.vmId.toNat).eventfds[v], ?_⟩
  unfold IVShmemState.notifier
  rw [if_pos h.range.1, IVShmemState.getElem?_peer hlt]
  simp [h.own, hlen]

/-- What changes only the entries keeps the invariant. -/
theorem kept (h : InStep s) (hsteady : Steady s')
    (hdev : ∃ ms, s'.ctx.dev = { s.ctx.dev with msiVectors := ms })
    (hspan : Span s' 0 (s.ctx.dev.peer s.ctx.dev.vmId.toNat).nbEventfds)
    (hidle : s'.useNotifier = false → Span s' 0 0)
    (hactive : s'.useNotifier = true →
      s'.msixEnabled = true ∧ s.ctx.dev.vmId.toNat < s.ctx.dev.nbPeers) : InStep s' := by
  have hsized := hsteady.sized
  obtain ⟨ms, hdev⟩ := hdev
  have hready : Ready s'.ctx := by
    refine ⟨⟨?_, Option.map_eq_some_iff.1 hsized⟩, ?_, ?_⟩
    · rw [hdev]
      exact h.ready.wireable.realized
    · rw [hdev]
      exact h.ready.table
    · intro v hv e he
      rw [hdev] at hv
      have hge : (s.ctx.dev.peer s.ctx.dev.vmId.toNat).nbEventfds ≤ v := h.nbEventfds_own ▸ hv
      by_contra hp
      have hin := hspan v e (entry_of_msiVector he) (by simpa using hp)
      omega
  refine ⟨hsteady.tracked, hsteady.inUse, hready, ?_, ?_, ?_, hidle, ?_⟩
  · rw [hdev]
    exact h.range
  · rw [hdev]
    exact h.own
  · rw [hdev]
    exact h.msi
  · rw [hdev]
    exact hactive

theorem setEnabled (h : InStep s) (hoff : s.useNotifier = false) (isEnabled : Bool) :
    InStep { s with msixEnabled := isEnabled } :=
  ⟨⟨h.tracked.entry, h.tracked.outside⟩, h.inUse, h.ready, h.range, h.own, h.msi, h.idle,
    fun hon => absurd (hoff.symm.trans hon) (by simp)⟩

/-- **Enabling MSI-X** keeps the invariant, and a failure leaves no route. -/
theorem enable {env : ConfigEnv} (h : InStep s) (hdis : s.msixEnabled = false)
    (hl : EnableLegal { s with msixEnabled := true } env)
    (hlt : s.ctx.dev.vmId.toNat < s.ctx.dev.nbPeers) (hc : ∀ m ∈ env.notices, m.Clean) : ∃ s',
      s.next (.writeConfig true env) = .ok s' ∧ InStep s' ∧
      ∀ v, (s'.entry v).isSome ↔ (s.entry v).isSome := by
  have hoff : s.useNotifier = false := by
    by_contra hon
    rw [Bool.not_eq_false] at hon
    rw [(h.active hon).1] at hdis
    cases hdis
  have h₁ := h.setEnabled hoff true
  obtain ⟨s', hs', hsteady, hk, hspan, hidle⟩ := enable_tracked (h₁.steady hlt) (h.idle hoff) hoff
    (ownPeer_of_lt hlt) (h.ready.table _).bound hl hc
  obtain ⟨ms, hdev, -⟩ := hk.dev
  refine ⟨s', ?_, h₁.kept hsteady ⟨ms, hdev⟩ hspan hidle fun _ => ⟨hk.msixEnabled, hlt⟩, hk.isSome⟩
  simp only [Irqfd.next, ivshmemWriteConfig, hdis, Bool.not_false, Bool.and_self, if_true]
  exact hs'

/-- **Disabling** keeps the invariant, whether MSI-X is disabled before or after. -/
theorem disable {notices : List Notice} {removes : ℕ → ℤ} (h : InStep s) (isEnabled : Bool)
    (hl : s.useNotifier = true →
      ∀ e ∈ trace Irqfd.notice { s with msixEnabled := isEnabled } notices, e.2.Legal e.1)
    (hc : s.useNotifier = true → (∀ m ∈ notices, m.Clean) ∧ ∀ v, 0 ≤ removes v) : ∃ s',
      ivshmemDisableIrqfd { s with msixEnabled := isEnabled } notices removes = .ok s' ∧
      InStep s' ∧ s'.useNotifier = false := by
  by_cases hon : s.useNotifier = true
  · obtain ⟨-, hlt⟩ := h.active hon
    obtain ⟨hc, hr⟩ := hc hon
    have hsteady := h.steady hlt
    obtain ⟨s', hs', hsteady', hk, hspan, hoff⟩ := disableIrqfd_tracked
      (s := { s with msixEnabled := isEnabled })
      ⟨⟨h.tracked.entry, h.tracked.outside⟩, hsteady.inUse, hsteady.reaches, hsteady.sized⟩ hon
      (ownPeer_of_lt hlt) h.span (h.ready.table _).bound (hl hon) hc hr
    obtain ⟨ms, hdev, -⟩ := hk.dev
    refine ⟨s', hs', h.kept hsteady' ⟨ms, hdev⟩ ?_ (fun _ => hspan) ?_, hoff⟩
    · intro v e he hp
      have hempty := hspan v e he hp
      omega
    · rw [hoff]
      nofun
  · rw [Bool.not_eq_true] at hon
    exact ⟨_, disable_idle hon, h.setEnabled hon isEnabled, hon⟩

end InStep

/-- What a connect did about its vector. -/
theorem connectCalls_of {c c' : Ctx x} {vector : ℕ} {add : ℤ} (h : Detached c c') :
    connectCalls c c' vector add =
      match msiVector c vector, msiVector c' vector with
      | .ok v, .ok v' => if !v.pdev && v'.pdev then [.addMsiRoute v'.virq] else []
      | _, _ => [] := by
  obtain ⟨l, hl, hno⟩ := h
  have hnone : ∀ f : Effect → Option KvmCall, (∀ e ∈ l, f e = none) →
      (c'.out.drop c.out.length).filterMap f = [] := by
    intro f hf
    rw [hl, List.drop_left, List.filterMap_eq_nil_iff]
    exact hf
  unfold connectCalls
  rw [hnone]
  · exact List.append_nil _
  · intro e he
    cases e with
    | addIrqfd fd virq => exact absurd he (hno fd virq)
    | _ => rfl

theorem connectCalls_same {c c' : Ctx x} {vector : ℕ} {add : ℤ} (h : Detached c c')
    (hv : c'.dev.msiVectors = c.dev.msiVectors) : connectCalls c c' vector add = [] := by
  have hsame : msiVector c' vector = msiVector c vector := by
    unfold msiVector
    rw [hv]
  rw [connectCalls_of h, hsame]
  cases msiVector c vector with
  | error f => rfl
  | ok v => simp

theorem connectCalls_routed {c c' : Ctx x} {vector : ℕ} {add : ℤ} {e e' : MSIVector}
    (h : Detached c c') (he : msiVector c vector = .ok e) (hp : e.pdev = false)
    (he' : msiVector c' vector = .ok e') (hp' : e'.pdev = true) :
    connectCalls c c' vector add = [.addMsiRoute e'.virq] := by
  rw [connectCalls_of h, he, he']
  dsimp only
  rw [hp, hp']
  rfl

theorem entry_congr (h : s'.ctx.dev.msiVectors = s.ctx.dev.msiVectors) : s'.entry = s.entry := by
  funext v
  unfold entry
  rw [h]

section
variable {i : ℕ} {fd : Fd} {env : Env} {add : ℤ} {c' : Ctx x} {err : Option MsgError}

namespace InStep

theorem allocated_own (h : InStep s) (hid : s.ctx.dev.vmId = i) :
    (s.ctx.dev.peer i).allocated = true := by
  have hown := h.own
  rw [hid, Int.toNat_natCast] at hown
  exact hown

/-- The next vector to be connected has no route, and is masked. -/
theorem next_free (h : InStep s) (hid : s.ctx.dev.vmId = i) {e : MSIVector}
    (he : s.entry (s.ctx.dev.peer i).nbEventfds = some e) :
    e.pdev = false ∧ e.unmasked = false := by
  have hnb := h.nbEventfds_own
  rw [hid, Int.toNat_natCast] at hnb
  have hp : e.pdev = false := by
    refine h.ready.unwired _ ?_ e (msiVector_entry he)
    rw [hid, hnb]
  refine ⟨hp, ?_⟩
  by_contra hu
  rw [Bool.not_eq_false] at hu
  rw [(h.tracked.entry _ e he).2 hu] at hp
  cases hp

/-- A connect keeps what is not about the entries. -/
theorem connected (h : InStep s) (hid : s.ctx.dev.vmId = i)
    (hmsg : processMsg s.ctx i (some fd) env = .ok (c', err)) (hready : Ready c')
    (hctx : s'.ctx = c') (hen : s'.msixEnabled = s.msixEnabled)
    (huse : s'.useNotifier = s.useNotifier) (ht : Tracked s') (hin : InUse s')
    (hidle : s'.useNotifier = false → Span s' 0 0) : InStep s' := by
  obtain ⟨hpeer, hframe, -⟩ := processMsg_spec hmsg
  obtain ⟨hgrow, -⟩ := nbPeers_processMsg hmsg
  have hsame := hframe.vmId
  refine ⟨ht, hin, hctx ▸ hready, ?_, ?_, ?_, hidle, fun hon => ?_⟩
  · rw [hctx, hsame]
    exact h.range
  · rw [hctx, hsame, hid, Int.toNat_natCast, hpeer, ← Bool.not_eq_false]
    intro hno
    rcases (entryAfter_allocated s.ctx.dev ⟨i, some fd⟩ i).1 hno with hno | hno
    · rw [h.allocated_own hid] at hno
      cases hno
    · cases hno.1
  · obtain ⟨ps, ms, b, o, hdev⟩ := hframe
    rw [hctx, hdev]
    exact h.msi
  · obtain ⟨hon', hlt⟩ := h.active (huse ▸ hon)
    rw [hctx, hsame]
    exact ⟨hen.trans hon', Nat.lt_of_lt_of_le hlt hgrow⟩

/-- The entry of the next vector has got a route. -/
theorem tracked_routed (h : InStep s) (hid : s.ctx.dev.vmId = i) {e : MSIVector} {virq : ℤ}
    (he : s.entry (s.ctx.dev.peer i).nbEventfds = some e)
    (hkvm : s'.kvm = s.kvm ++ [((s.ctx.dev.peer i).nbEventfds, .addMsiRoute virq)])
    (hentry : s'.entry = update s.entry (s.ctx.dev.peer i).nbEventfds
      (some { e with virq := virq, pdev := true })) : Tracked s' := by
  obtain ⟨hp, hun⟩ := h.next_free hid he
  refine h.tracked.step he hkvm hentry ?_ fun _ => rfl
  simp [MSIVector.route, hp, hun, Route.next]

theorem inUse_routed (h : InStep s) {v : ℕ} {e : MSIVector} {virq : ℤ} (he : s.entry v = some e)
    (huse : s'.inUse = s.inUse)
    (hentry : s'.entry = update s.entry v (some { e with virq := virq, pdev := true })) :
    InUse s' := by
  intro w e' he'
  rw [hentry] at he'
  rw [huse]
  by_cases hw : w = v
  · subst hw
    rw [Function.update_self] at he'
    cases he'
    exact h.inUse w e he
  · rw [Function.update_of_ne hw] at he'
    exact h.inUse w e' he'

end InStep

/-- **A connect** keeps the invariant if the notifiers are set or it gets no route. -/
theorem connectOwn_inStep (h : InStep s) (hadm : (IrqEvent.connect fd env add).Admitted s)
    (hc : (IrqEvent.connect fd env add).Clean s) :
    ∃ s', s.next (.connect fd env add) = .ok s' ∧ InStep s' := by
  obtain ⟨hirq, hmsix, hmask⟩ := hadm
  obtain ⟨i, hid⟩ : ∃ i : ℕ, s.ctx.dev.vmId = i := ⟨_, (Int.toNat_of_nonneg h.range.1).symm⟩
  have hi : (i : ℤ) ≤ ivshmemMaxPeers := hid ▸ h.range.2
  have hown := h.allocated_own hid
  have hnb := h.nbEventfds_own
  rw [hid, Int.toNat_natCast] at hnb
  have hnot : ∀ k : ℕ, (i : ℤ) = k → ¬ Freed s.ctx.dev k := by
    rintro k hk ⟨-, hf⟩
    rw [← Int.natCast_inj.1 hk, hown] at hf
    cases hf
  obtain ⟨c', err, hmsg, hready⟩ :
      ∃ c' err, processMsg s.ctx i (some fd) env = .ok (c', err) ∧ Ready c' :=
    processMsg_ready h.ready hnot
  -- a route is only added while the notifiers are set
  have hset : (s.ctx.dev.peer i).nbEventfds < s.ctx.dev.vectors → env.msixEnabled = true →
      0 ≤ env.addMsiRoute → s.useNotifier = true := by
    intro hroom hon hroute
    rcases hc (hmsix ▸ hon) with hset | hneg | hfull
    · exact hset
    · omega
    · rw [hid, hnb] at hfull
      omega
  have hmasked : (s.ctx.dev.peer i).nbEventfds < s.ctx.dev.vectors → env.msixEnabled = true →
      0 ≤ env.addMsiRoute → env.msixIsMasked (s.ctx.dev.peer i).nbEventfds = true := by
    intro hroom hon hroute
    obtain ⟨e, he⟩ := Option.isSome_iff_exists.1 (isSome_of_lt h.sized hroom)
    rw [hmask (hset hroom hon hroute) _ hroom, h.inUse _ e he, (h.next_free hid he).2]
    rfl
  obtain ⟨hdet, hroute⟩ := processMsg_routed hi hid.symm hown h.ready.table hirq h.msi hmasked hmsg
  have hnext : s.next (.connect fd env add) = .ok { s with
      ctx := c'
      kvm := s.kvm ++ (connectCalls s.ctx c' (s.ctx.dev.peer i).nbEventfds add).map
        ((s.ctx.dev.peer i).nbEventfds, ·) } := by
    simp only [Irqfd.next, connectOwn]
    rw [hid, hmsg, hnb]
    rfl
  refine ⟨_, hnext, ?_⟩
  by_cases hadds : (s.ctx.dev.peer i).nbEventfds < s.ctx.dev.vectors ∧ env.msixEnabled = true ∧
      0 ≤ env.addMsiRoute
  · obtain ⟨hroom, hon, hget⟩ := hadds
    rw [if_neg (Nat.not_le.2 hroom), Routed, if_pos ⟨hon, hget⟩] at hroute
    obtain ⟨e, hmsi, hp, hvs⟩ := hroute
    have he := entry_of_msiVector hmsi
    have hentry : ∀ k, ({ s with ctx := c', kvm := k } : Irqfd x).entry =
        Function.update s.entry (s.ctx.dev.peer i).nbEventfds
          (some { e with virq := env.addMsiRoute, pdev := true }) := by
      intro k
      rw [← entry_store he, entry_congr]
      exact hvs
    have hmsi' : msiVector c' (s.ctx.dev.peer i).nbEventfds =
        .ok { e with virq := env.addMsiRoute, pdev := true } := by
      refine msiVector_entry (s := { s with ctx := c' }) ?_
      rw [hentry s.kvm, Function.update_self]
    rw [connectCalls_routed hdet hmsi hp hmsi' rfl]
    refine h.connected hid hmsg hready rfl rfl rfl ?_ ?_ fun hoff => ?_
    · exact h.tracked_routed hid he rfl (hentry _)
    · exact h.inUse_routed he rfl (hentry _)
    · rw [hset hroom hon hget] at hoff
      cases hoff
  · have hvs : c'.dev.msiVectors = s.ctx.dev.msiVectors := by
      split_ifs at hroute with hfull
      · exact hroute
      · rw [Routed, if_neg fun hc => hadds ⟨Nat.not_le.1 hfull, hc⟩] at hroute
        exact hroute
    have hentry : ∀ k, ({ s with ctx := c', kvm := k } : Irqfd x).entry = s.entry :=
      fun k => entry_congr hvs
    rw [connectCalls_same hdet hvs, List.map_nil, List.append_nil]
    refine h.connected hid hmsg hready rfl rfl rfl ⟨?_, ?_⟩ ?_ ?_
    · rw [hentry]
      exact h.tracked.entry
    · rw [hentry]
      exact h.tracked.outside
    · intro v e he
      rw [hentry] at he
      exact h.inUse v e he
    · intro hoff v e he
      rw [hentry] at he
      exact h.idle hoff v e he

end

/-- **Every clean event** is handled, and keeps the invariant. -/
theorem inStep_step (h : InStep s) {ev : IrqEvent} (hadm : ev.Admitted s) (hc : ev.Clean s) :
    ∃ s', s.next ev = .ok s' ∧ InStep s' := by
  cases ev with
  | connect fd env add => exact connectOwn_inStep h hadm hc
  | writeConfig isEnabled env =>
    cases hwas : s.msixEnabled <;> cases isEnabled
    · refine ⟨{ s with msixEnabled := false }, ?_, ?_⟩
      · simp [Irqfd.next, ivshmemWriteConfig, hwas]
      · rw [← hwas]
        exact h
    · obtain ⟨hlt, hclean⟩ := hc hwas
      obtain ⟨s', hs', h', -⟩ := h.enable hwas (hadm hwas) hlt hclean
      exact ⟨s', hs', h'⟩
    · have hnone : env.notices = [] := hadm hwas
      have hlegal : s.useNotifier = true →
          ∀ e ∈ trace Irqfd.notice { s with msixEnabled := false } env.notices, e.2.Legal e.1 := by
        intro _
        rw [hnone]
        exact forall_trace_nil
      have hclean : s.useNotifier = true → (∀ m ∈ env.notices, m.Clean) ∧ ∀ v, 0 ≤ env.removes v := by
        intro hon
        rw [hnone]
        exact ⟨List.forall_mem_nil _, hc hon⟩
      obtain ⟨s', hs', h', -⟩ := h.disable false hlegal hclean
      refine ⟨s', ?_, h'⟩
      simp only [Irqfd.next, ivshmemWriteConfig, hwas]
      exact hs'
    · refine ⟨{ s with msixEnabled := true }, ?_, ?_⟩
      · simp [Irqfd.next, ivshmemWriteConfig, hwas]
      · rw [← hwas]
        exact h
  | notice m =>
    obtain ⟨hon, hlegal⟩ := hadm
    obtain ⟨hen, hlt⟩ := h.active hon
    obtain ⟨s', hs', hsteady, hk, huse, hroutes⟩ := notice_tracked (h.steady hlt) hlegal hc
    obtain ⟨ms, hdev, -⟩ := hk.dev
    refine ⟨s', hs', h.kept hsteady ⟨ms, hdev⟩ (hroutes.span h.span) ?_ fun _ =>
      ⟨hk.msixEnabled.trans hen, hlt⟩⟩
    rw [huse, hon]
    nofun
  | reset notices removes =>
    obtain ⟨s', hs', h', hoff⟩ := h.disable s.msixEnabled hadm hc
    refine ⟨{ s' with msixEnabled := false }, ?_, h'.setEnabled hoff false⟩
    simp only [Irqfd.next, ivshmemReset, hs']
    rfl

section
variable {shm : IdtIvshmemShmStorage} {vectors : ℕ} {bars : Fin 6 → BusAddr}
  {requesterId : BitVec 16} {masterOn : Bool} {env : Env} {msgs rest : List Msg} {c₀ : Ctx x}

theorem inStep_of_realize
    (h : ivshmemCommonRealize ⟨shm, .init x vectors bars requesterId, []⟩ masterOn env msgs =
      .ok (.ok (c₀, rest))) : InStep (Irqfd.start c₀) := by
  obtain ⟨hready, -⟩ := connects_of_realize h
  obtain ⟨-, -, hfree⟩ := freed_of_realize h
  have hrange := (realized_of_realize h).vmId
  obtain ⟨ps, c₁, hpeer, hsetup, hc⟩ := ivshmemCommonRealize_recv h
  obtain ⟨hdev, -⟩ := realizeRegs_frame (ivshmemSetupInterrupts c₁)
  have hentries : ∀ v e, (Irqfd.start c₀).entry v = some e → e = default := by
    intro v e he
    have hvs : c₀.dev.msiVectors = some (List.replicate c₁.dev.vectors default) := by
      rw [hc, hdev]
      rfl
    have he' : c₀.dev.msiVectors.bind (·[v]?) = some e := he
    rw [hvs, Option.bind_some] at he'
    exact (List.mem_replicate.1 (List.mem_of_getElem? he')).2
  have hmsi : c₀.dev.hasFeature ivshmemMsi = true := by
    obtain ⟨_, -, -, -, hframe, -⟩ := ivshmemRecvSetup_spec (x := x) rfl
      (fun i => by rw [hpeer]; exact Peer.ok_empty) hsetup
    obtain ⟨ps', ms, b, o, hdev₁⟩ := hframe
    rw [hc, hdev]
    show c₁.dev.features.getLsbD ivshmemMsi = true
    rw [hdev₁]
    show (0x1#32 <<< ivshmemMsi ||| 0x1#32 <<< ivshmemIoeventfd).getLsbD ivshmemMsi = true
    rfl
  refine ⟨⟨fun v e he => ?_, fun v _ => rfl⟩, fun v e he => ?_, hready, hrange, ?_, hmsi,
    fun _ v e he hp => ?_, nofun⟩
  · rw [hentries v e he]
    exact ⟨rfl, nofun⟩
  · rw [hentries v e he]
    rfl
  · rw [← Bool.not_eq_false]
    intro hno
    obtain ⟨m, -, -, hown, -, hne⟩ := (hfree _).1 hno
    exact hne (hown.trans (Int.toNat_of_nonneg hrange.1))
  · rw [hentries v e he] at hp
    cases hp

/-- What a run of events leaves. -/
structure Balanced (s₀ : Irqfd x) (l : List IrqEvent) (s : Irqfd x) : Prop where
  /-- A vector is unmasked exactly while a notifier is attached for it. -/
  attached : ∀ v e, s.entry v = some e →
    (e.unmasked = true ↔ ∃ virq, history v s.kvm = some (.attached virq))
  /-- The calls about each vector were in order. -/
  ordered : ∀ v, (history v s.kvm).isSome
  /-- All routes are released while the notifiers are not set, as when MSI-X is disabled. -/
  released : s.useNotifier = false → ∀ v, history v s.kvm = some .none
  disabled : s.msixEnabled = false → s.useNotifier = false
  /-- MSI-X that could not be enabled has left the entries as they were. -/
  restored : ∀ e ∈ trace Irqfd.next s₀ l, ∀ env s', e.2 = .writeConfig true env →
    e.1.msixEnabled = false → e.1.next e.2 = .ok s' → s'.useNotifier = false →
      ∀ v, (s'.entry v).map MSIVector.route = (e.1.entry v).map MSIVector.route

/-- Without the notifiers no vector has a route. -/
theorem InStep.route_idle (h : InStep s) (hoff : s.useNotifier = false) {v : ℕ} {e : MSIVector}
    (he : s.entry v = some e) : e.route = .none := by
  unfold MSIVector.route
  rw [(h.tracked.masked (h.idle hoff) he).1]
  rfl

/-- **The unmasked flag and the irqfd stay in step**, and no assertion fails, in every run of events
    that all meet the condition. -/
theorem irqfd_in_step
    (h₀ : ivshmemCommonRealize ⟨shm, .init x vectors bars requesterId, []⟩ masterOn env msgs =
      .ok (.ok (c₀, rest))) (l : List IrqEvent)
    (hadm : ∀ e ∈ trace Irqfd.next (.start c₀) l, e.2.Admitted e.1)
    (hc : ∀ e ∈ trace Irqfd.next (.start c₀) l, e.2.Clean e.1) :
    ∃ s, exec Irqfd.next (.start c₀) l = .ok s ∧ Balanced (.start c₀) l s := by
  have hstep : ∀ (s : Irqfd x) ev, InStep s → ev.Admitted s ∧ ev.Clean s →
      ∃ s', s.next ev = .ok s' ∧ InStep s' := fun s ev h hev => inStep_step h hev.1 hev.2
  have hall : ∀ e ∈ trace Irqfd.next (.start c₀) l, e.2.Admitted e.1 ∧ e.2.Clean e.1 :=
    fun e he => ⟨hadm e he, hc e he⟩
  obtain ⟨s, hs, h⟩ := exec_of_trace InStep _ hstep (inStep_of_realize h₀) l hall
  have hbefore := inv_of_mem_trace InStep _ hstep (inStep_of_realize h₀) l hall
  refine ⟨s, hs, fun v e he => ?_, fun v => ?_, fun hoff v => ?_, fun hdis => ?_, ?_⟩
  · obtain ⟨hhist, hp⟩ := h.tracked.entry v e he
    rw [hhist]
    unfold MSIVector.route
    cases hu : e.unmasked with
    | false => cases e.pdev <;> simp
    | true => simp [hp hu]
  · cases he : s.entry v with
    | none => rw [h.tracked.outside v he]; rfl
    | some e => rw [(h.tracked.entry v e he).1]; rfl
  · cases he : s.entry v with
    | none => exact h.tracked.outside v he
    | some e => rw [(h.tracked.entry v e he).1, h.route_idle hoff he]
  · by_contra hon
    rw [Bool.not_eq_false] at hon
    rw [(h.active hon).1] at hdis
    cases hdis
  · rintro ⟨s₁, ev⟩ hmem env s' rfl hdis hnext hoff v
    have h₁ : InStep s₁ := hbefore _ hmem
    have hoff₁ : s₁.useNotifier = false := by
      by_contra hon
      rw [Bool.not_eq_false] at hon
      rw [(h₁.active hon).1] at hdis
      cases hdis
    obtain ⟨hlegal, hclean⟩ := hall _ hmem
    obtain ⟨hlt, hclean⟩ := hclean hdis
    obtain ⟨s₂, hs₂, h₂, hsome⟩ := h₁.enable hdis (hlegal hdis) hlt hclean
    obtain rfl := Except.ok.inj (hs₂.symm.trans hnext)
    cases he : s₁.entry v with
    | none =>
      have hnone : s₂.entry v = none := by
        rw [← Option.not_isSome_iff_eq_none, hsome, he]
        simp
      rw [hnone]
    | some e =>
      obtain ⟨e₂, he₂⟩ := Option.isSome_iff_exists.1 ((hsome v).2 (by rw [he]; rfl))
      rw [he₂, Option.map_some, Option.map_some, h₁.route_idle hoff₁ he, h₂.route_idle hoff he₂]

end

/-- MSI-X is enabled while all vectors are masked.  An own vector is connected, used and disabled
    with MSI-X. -/
def usedOnce : List IrqEvent :=
  [.writeConfig true ⟨fun _ => 5, [], 0, fun _ => 0⟩,
    .connect ⟨0, 1⟩ ⟨true, true, fun _ => true, 5, true, true⟩ 0,
    .notice (.unmask 0 0 0), .writeConfig false ⟨fun _ => 5, [], 0, fun _ => 0⟩]

/-- MSI-X cannot be enabled, since vector 0 is unmasked and has no route.  Then the vector is
    connected. -/
def connectedLate : List IrqEvent :=
  [.writeConfig true ⟨fun _ => 5, [.unmask 0 0 0], einval, fun _ => 0⟩,
    .connect ⟨0, 1⟩ ⟨true, true, fun _ => false, 5, true, true⟩ 0]

/-- The first device after some events. -/
def firstAfter (l : List IrqEvent) : Irqfd .vm1 :=
  match exec Irqfd.next (.start firstUp) l with
  | .ok s => s
  | .error _ => .start firstUp

theorem irqfd_in_step_used : ∃ s, exec Irqfd.next (.start firstUp) usedOnce = .ok s ∧
    Balanced (.start firstUp) usedOnce s := by
  refine irqfd_in_step firstUp_realized usedOnce ?_ ?_
  · refine (forall_trace_cons (t := firstAfter (usedOnce.take 1)) rfl).2 ⟨?_,
      (forall_trace_cons (t := firstAfter (usedOnce.take 2)) rfl).2 ⟨?_,
      (forall_trace_cons (t := firstAfter (usedOnce.take 3)) rfl).2 ⟨?_,
      (forall_trace_cons (t := firstAfter usedOnce) rfl).2 ⟨fun _ => rfl, forall_trace_nil⟩⟩⟩⟩
    · exact fun _ p s₁ i _ _ => ⟨forall_trace_nil, fun hret => absurd rfl hret⟩
    · exact ⟨rfl, rfl, fun _ v _ => rfl⟩
    · exact ⟨by decide +kernel, by decide +kernel, by decide +kernel⟩
  · refine (forall_trace_cons (t := firstAfter (usedOnce.take 1)) rfl).2 ⟨?_,
      (forall_trace_cons (t := firstAfter (usedOnce.take 2)) rfl).2 ⟨?_,
      (forall_trace_cons (t := firstAfter (usedOnce.take 3)) rfl).2 ⟨trivial,
      (forall_trace_cons (t := firstAfter usedOnce) rfl).2 ⟨?_, forall_trace_nil⟩⟩⟩⟩
    · exact fun _ => ⟨by decide +kernel, List.forall_mem_nil _⟩
    · exact fun _ => Or.inl (by decide +kernel)
    · exact fun _ _ => le_rfl

/-- **A connect after MSI-X could not be enabled** attaches the notifier of a vector that the table
    has as masked. -/
theorem late_connect_attaches :
    (∀ e ∈ trace Irqfd.next (.start firstUp) connectedLate, e.2.Admitted e.1) ∧
      ∃ s e, exec Irqfd.next (.start firstUp) connectedLate = .ok s ∧ s.entry 0 = some e ∧
        e.unmasked = false ∧ history 0 s.kvm = some (.attached 5) := by
  refine ⟨?_, firstAfter connectedLate, ⟨true, 5, false⟩, rfl, by decide +kernel, rfl,
    by decide +kernel⟩
  refine (forall_trace_cons (t := firstAfter (connectedLate.take 1)) rfl).2 ⟨?_,
    (forall_trace_cons (t := firstAfter connectedLate) rfl).2 ⟨?_, forall_trace_nil⟩⟩
  · rintro - p s₁ i hp hadd
    obtain rfl := Except.ok.inj ((rfl : ownPeer firstUp = .ok (firstUp.dev.peer 0)).symm.trans hp)
    cases hadd
    -- the notifier reports that the route is missing
    have hunmask : Irqfd.notice
        { Irqfd.start firstUp with msixEnabled := true, useNotifier := true } (.unmask 0 0 0) =
          .ok ({ Irqfd.start firstUp with msixEnabled := true, useNotifier := true }.report
            (routeMissing 0)) := rfl
    refine ⟨(forall_trace_cons hunmask).2 ⟨⟨by decide +kernel, rfl⟩, forall_trace_nil⟩, ?_⟩
    intro _ s₂ hs₂ v
    obtain rfl := Except.ok.inj ((congrArg (Except.bind · Except.ok) hunmask).symm.trans hs₂)
    rfl
  · exact ⟨rfl, rfl, fun hon => absurd hon (by decide +kernel)⟩

end IdtNtb
