/-
  Doorbells.

  The inbound doorbell register of a machine changes in two ways (`step_db`): the
  machine clears bits by writing INDBELLSTS, and its peer's OUTDBELLSET write
  replaces the whole word.  A ring is therefore kept until it is cleared only if
  no later ring leaves it out:

  * `doorbell_history` relates, for every run, "each bit reads 1 exactly when it
    was rung since it was last cleared" to "each doorbell write names every bit
    that is still pending";
  * `doorbell_overwritten` is a run in which two rings in a row lose the first.
-/
import IdtNtb.System

namespace IdtNtb

open Runs

variable {s s' s₀ : Sys} {a : Act} {t : List (Sys × Act)} {x y : Vm}

/-! ## One step -/

/-- A write by the device itself touches its doorbell word only at INDBELLSTS. -/
theorem regsAfter_db (c : Ctx x) {r : ConfigReg} (hr : r ≠ .indbellsts) (v : BitVec 64) :
    (c.regsAfter r v).db = c.regs.db := by
  unfold Ctx.regsAfter
  cases r with
  | indbellsts => exact absurd rfl hr
  | outmsg i => dsimp only; split_ifs <;> rfl
  | gasadata => dsimp only; split <;> rfl
  | _ => rfl

/-- A write by the peer touches it only at OUTDBELLSET. -/
theorem peerRegsAfter_db (c : Ctx x) {r : ConfigReg} (hr : r ≠ .outdbellset) (v : BitVec 64) :
    (c.peerRegsAfter r v).db = c.peerRegs.db := by
  unfold Ctx.peerRegsAfter
  cases r with
  | outdbellset => exact absurd rfl hr
  | outmsg i => dsimp only; split_ifs <;> rfl
  | _ => rfl

/-- The doorbell word of `y` after a step. -/
theorem step_db (hs : s.SelOk) (h : Step s a s') (y : Vm) :
    (∃ v, a = .write y ConfigReg.indbellsts.addr v ∧ (s'.regs y).db = (s.regs y).db &&& ~~~v) ∨
    (∃ v, a = .write y.other ConfigReg.outdbellset.addr v ∧ (s'.regs y).db = v) ∨
    ((∀ v, a ≠ .write y ConfigReg.indbellsts.addr v) ∧
      (∀ v, a ≠ .write y.other ConfigReg.outdbellset.addr v) ∧
      (s'.regs y).db = (s.regs y).db) := by
  rcases step_block (hs.selFor a) h y with ⟨r, v, ha, hr, -⟩ | ⟨r, v, ha, hr, -⟩ | ⟨ha, hr, -⟩
  · by_cases hd : r = .indbellsts
    · subst hd
      refine Or.inl ⟨v, ha, ?_⟩
      rw [hr]
      simp [Ctx.regsAfter]
    · refine Or.inr (Or.inr ⟨?_, ?_, ?_⟩)
      · rintro w rfl
        simp only [Act.write.injEq, ConfigReg.addr_inj] at ha
        exact hd ha.2.1.symm
      · rintro w rfl
        simp at ha
      · rw [hr, regsAfter_db _ hd]
        rfl
  · by_cases hd : r = .outdbellset
    · subst hd
      refine Or.inr (Or.inl ⟨v, ha, ?_⟩)
      rw [hr]
      simp [Ctx.peerRegsAfter]
    · refine Or.inr (Or.inr ⟨?_, ?_, ?_⟩)
      · rintro w rfl
        simp at ha
      · rintro w rfl
        simp only [Act.write.injEq, ConfigReg.addr_inj] at ha
        exact hd ha.2.1.symm
      · rw [hr, peerRegsAfter_db _ hd]
        simp
  · exact Or.inr (Or.inr ⟨fun v => ha _ _ v, fun v => ha _ _ v, by rw [hr]⟩)

/-! ## Whole runs -/

/-- `x` rings bit `b` of its peer's doorbell. -/
def Rings (x : Vm) (b : ℕ) (e : Sys × Act) : Prop :=
  ∃ v, e.2 = .write x ConfigReg.outdbellset.addr v ∧ v.getLsbD b = true

/-- `y` clears bit `b` of its own doorbell. -/
def Clears (y : Vm) (b : ℕ) (e : Sys × Act) : Prop :=
  ∃ v, e.2 = .write y ConfigReg.indbellsts.addr v ∧ v.getLsbD b = true

/-- What the guest of `y` sees in bit `b` of INDBELLSTS. -/
def Rung (y : Vm) (b : ℕ) (s : Sys) : Prop := (s.read y ConfigReg.indbellsts.addr).getLsbD b = true

/-- A doorbell write of `x` leaves out no bit that is pending at its peer. -/
def KeepsPending (x : Vm) (e : Sys × Act) : Prop :=
  ∀ v, e.2 = .write x ConfigReg.outdbellset.addr v → (e.1.regs x.other).db &&& ~~~v = 0

theorem rung_iff {b : ℕ} : Rung y b s ↔ (s.regs y).db.getLsbD b = true := by
  unfold Rung
  rw [Sys.read_addr]
  simp only [readReg, Sys.ctx_regs, BitVec.getLsbD_setWidth, Bool.and_eq_true, decide_eq_true_eq,
    and_iff_right_iff_imp]
  intro hb
  have := BitVec.lt_of_getLsbD hb
  omega

/-- One step keeps the history of a bit, if it is no doorbell write that leaves out a pending
    bit. -/
theorem rung_step (hs : s.SelOk) (hk : KeepsPending y.other (s, a)) (h : Step s a s') (b : ℕ) :
    Rung y b s' ↔ Rings y.other b (s, a) ∨ (Rung y b s ∧ ¬ Clears y b (s, a)) := by
  rw [rung_iff, rung_iff]
  rcases step_db hs h y with ⟨v, rfl, hd⟩ | ⟨v, rfl, hd⟩ | ⟨h1, h2, hd⟩
  · rw [hd, Bits.getLsbD_and_not]
    simp [Rings, Clears]
  · rw [hd]
    have hkeep := hk v rfl
    rw [Vm.other_other, Bits.and_not_eq_zero] at hkeep
    constructor
    · intro hv
      exact Or.inl ⟨v, rfl, hv⟩
    · rintro (⟨w, hw, hb⟩ | ⟨hb, -⟩)
      · cases hw; exact hb
      · exact hkeep b hb
  · rw [hd]
    constructor
    · intro hb
      exact Or.inr ⟨hb, fun ⟨v, hv, _⟩ => h1 v hv⟩
    · rintro (⟨v, hv, -⟩ | ⟨hb, -⟩)
      · exact absurd hv (h2 v)
      · exact hb

/-- A run whose doorbell writes name every pending bit keeps every ring until it is cleared. -/
theorem rung_run (h : Run Step s₀ t s) (h0 : (s₀.regs y).db = 0)
    (hsel : ∀ e ∈ t, e.1.SelOk) (hk : ∀ e ∈ t, KeepsPending y.other e) (b : ℕ) :
    Rung y b s ↔ Since (Rings y.other b) (Clears y b) t := by
  refine Run.latch (Rung y b) ?_ h ?_
  · rw [rung_iff, h0]
    simp
  · intro e he s' hst
    exact rung_step (hsel e he) (hk e he) hst b

/-- **No ring is lost exactly in the runs whose doorbell writes name every pending bit.** -/
theorem doorbell_history (h : Run Step s₀ t s) (h0 : (s₀.regs y).db = 0)
    (hsel : ∀ e ∈ t, e.1.SelOk) :
    (∀ t₁ t₂ s₁, t = t₁ ++ t₂ → Run Step s₀ t₁ s₁ → ∀ b,
      (Rung y b s₁ ↔ Since (Rings y.other b) (Clears y b) t₁)) ↔
    ∀ e ∈ t, KeepsPending y.other e := by
  constructor
  · intro hall e he v hw
    obtain ⟨t₁, t₂, s₁, rfl, h1, h2⟩ := h.fired he
    rw [Vm.other_other]
    refine Bits.and_not_eq_zero.2 fun b hb => ?_
    -- the bit is pending before the write, so by its history it is pending after it
    have hbefore := (hall t₁ (e :: t₂) e.1 rfl h1 b).1 (rung_iff.2 hb)
    have hclear : ¬ Clears y b e := by
      rintro ⟨w, hc, -⟩
      rw [hw] at hc
      simp at hc
    have hafter := (hall (t₁ ++ [e]) t₂ s₁ (by simp) (.snoc h1 h2) b).2
      (since_snoc.2 (Or.inr ⟨hbefore, hclear⟩))
    rw [rung_iff] at hafter
    rcases step_db (hsel e he) h2 y with ⟨w, hc, -⟩ | ⟨w, hc, hd⟩ | ⟨-, hc, -⟩
    · rw [hw] at hc
      simp at hc
    · rw [hw] at hc
      cases hc
      rwa [hd] at hafter
    · exact absurd hw (hc v)
  · intro hk t₁ t₂ s₁ ht h1 b
    refine rung_run h1 h0 (fun e he => ?_) (fun e he => ?_) b
    · exact hsel e (by simp [ht, he])
    · exact hk e (by simp [ht, he])

/-- One ring after the other, the second one with the bit of the first. -/
def ringsKept : List Act :=
  [.write .vm1 ConfigReg.outdbellset.addr 1, .write .vm1 ConfigReg.outdbellset.addr 3,
    .write .vm2 ConfigReg.indbellsts.addr 1]

theorem doorbell_history_started : ∃ s, Run Step Sys.started (trace Sys.next Sys.started ringsKept) s ∧
    ((∀ t₁ t₂ s₁, trace Sys.next Sys.started ringsKept = t₁ ++ t₂ → Run Step Sys.started t₁ s₁ →
      ∀ b, (Rung .vm2 b s₁ ↔ Since (Rings .vm1 b) (Clears .vm2 b) t₁)) ↔
    ∀ e ∈ trace Sys.next Sys.started ringsKept, KeepsPending .vm1 e) := by
  refine ⟨_, Run.of_exec rfl, doorbell_history (Run.of_exec rfl) rfl ?_⟩
  decide

/-- One ring after the other, each with a bit of its own. -/
def ringsTwice : List Act :=
  [.write .vm1 ConfigReg.outdbellset.addr 1, .write .vm1 ConfigReg.outdbellset.addr 2]

/-- **The second of two rings in a row takes the first away.** -/
theorem doorbell_overwritten : (Sys.started.regs .vm2).db = 0 ∧
    ¬ ∀ t s, Run Step Sys.started t s → (∀ e ∈ t, e.1.SelOk) → ∀ b,
      (Rung .vm2 b s ↔ Since (Rings .vm1 b) (Clears .vm2 b) t) := by
  refine ⟨rfl, fun hall => ?_⟩
  obtain ⟨s, hs⟩ : ∃ s, exec Sys.next Sys.started ringsTwice = .ok s := ⟨_, rfl⟩
  have hread : exec Sys.next Sys.started ringsTwice = .ok s → ¬ Rung .vm2 0 s := by
    rintro ⟨⟩
    unfold Rung
    decide
  refine hread hs ((hall _ s (Run.of_exec hs) (by decide) 0).2 ?_)
  refine ⟨[], _, _, rfl, ⟨1, rfl, by decide⟩, ?_⟩
  intro e he
  obtain rfl := List.mem_singleton.1 he
  rintro ⟨v, hv, -⟩
  cases hv

end IdtNtb
