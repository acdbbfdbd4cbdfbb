/-
  Where window accesses land.

  A window admits the offsets up to its limit, and an admitted access touches the
  peer's memory at the window's base plus the offset.  Nothing compares the
  result with the size of the peer's memory file:

  * `windowSafe_iff` says, for one state and window, when every access stays
    inside the file, and `windows_bounded` lifts it to the states of a run;
  * `window_escapes` is a run after which a window leads out of the file.
-/
import IdtNtb.System

namespace IdtNtb

open Runs

/-! ## The target of an access -/

namespace BARConfig
variable (c : BARConfig)

/-- The translation base. -/
def base : ℕ := c.utbase.toNat * 2 ^ 32 + c.ltbase.toNat

theorem base_lt : c.base < 2 ^ 64 := by
  have h1 := c.utbase.isLt
  have h2 := c.ltbase.isLt
  unfold base
  omega

theorem toNat_translate (addr : BitVec 64) :
    ((c.utbase.setWidth 64 <<< 32) + c.ltbase.setWidth 64 + addr).toNat =
      (c.base + addr.toNat) % 2 ^ 64 := by
  have h1 := c.utbase.isLt
  have h2 := c.ltbase.isLt
  simp only [BitVec.toNat_add, BitVec.toNat_shiftLeft, BitVec.toNat_setWidth, Nat.shiftLeft_eq,
    base]
  omega

/-- A window admits the offsets up to its limit. -/
theorem target_eq_some {bar : BusAddr} {addr off : BitVec 64}
    (haddr : addr.toNat < idtBarApertureSize) : c.target bar.val addr = some off ↔
      c.limit ≠ 0 ∧ bar.val.toNat + addr.toNat ≤ c.limit.toNat ∧
        off = (c.utbase.setWidth 64 <<< 32) + c.ltbase.setWidth 64 + addr := by
  have hbar := bar.below
  have hap : idtBarApertureSize = 2 ^ 20 := rfl
  have hsum : (bar.val + addr).toNat = bar.val.toNat + addr.toNat := by
    rw [BitVec.toNat_add]
    omega
  have hlim : (c.limit.setWidth 64).toNat = c.limit.toNat := by
    have := c.limit.isLt
    rw [BitVec.toNat_setWidth]
    omega
  have hgt : bar.val + addr > c.limit.setWidth 64 ↔ c.limit.toNat < bar.val.toNat + addr.toNat := by
    show c.limit.setWidth 64 < bar.val + addr ↔ _
    rw [BitVec.lt_def, hsum, hlim]
  unfold target
  by_cases h : c.limit = 0 ∨ bar.val + addr > c.limit.setWidth 64
  · rw [if_pos h]
    rw [hgt] at h
    simp only [reduceCtorEq, false_iff]
    rintro ⟨h1, h2, -⟩
    rcases h with h | h
    · exact h1 h
    · omega
  · rw [if_neg h]
    rw [hgt] at h
    obtain ⟨h1, h2⟩ := not_or.1 h
    simp only [Option.some.injEq]
    constructor
    · intro ho
      exact ⟨h1, by omega, ho.symm⟩
    · intro ho
      exact ho.2.2.symm

/-- It refuses all others. -/
theorem target_eq_none {bar : BusAddr} {addr : BitVec 64}
    (haddr : addr.toNat < idtBarApertureSize) : c.target bar.val addr = none ↔
      c.limit = 0 ∨ c.limit.toNat < bar.val.toNat + addr.toNat := by
  rw [Option.eq_none_iff_forall_ne_some]
  constructor
  · intro h
    by_contra hopen
    obtain ⟨h1, h2⟩ := not_or.1 hopen
    exact h _ ((c.target_eq_some haddr).2 ⟨h1, Nat.not_lt.1 h2, rfl⟩)
  · intro h off hoff
    obtain ⟨h1, h2, -⟩ := (c.target_eq_some haddr).1 hoff
    rcases h with h | h
    · exact h1 h
    · omega

/-- The window is inactive, has its limit below its base, or leads to at least eight bytes of a
    file of size `M` wherever it admits an access. -/
def InRam (bar : BusAddr) (M : ℕ) : Prop :=
  c.limit = 0 ∨ c.limit.toNat < bar.val.toNat ∨
    c.base + min (c.limit.toNat - bar.val.toNat) (idtBarApertureSize - 1) + 8 ≤ M

instance (bar : BusAddr) (M : ℕ) : Decidable (c.InRam bar M) :=
  inferInstanceAs (Decidable (_ ∨ _ ∨ _))

/-- The condition is exact for eight-byte accesses. -/
theorem inRam_iff {bar : BusAddr} {M : ℕ} (hM : M < 2 ^ 63) : c.InRam bar M ↔
    ∀ addr off : BitVec 64, addr.toNat < idtBarApertureSize → c.target bar.val addr = some off →
      off.toNat + 8 ≤ M := by
  have hap : idtBarApertureSize = 2 ^ 20 := rfl
  constructor
  · intro h addr off haddr ht
    obtain ⟨h1, h2, rfl⟩ := (c.target_eq_some haddr).1 ht
    rw [toNat_translate]
    rcases h with h | h | h
    · exact absurd h h1
    · omega
    · have := Nat.mod_le (c.base + addr.toNat) (2 ^ 64)
      omega
  · intro h
    unfold InRam
    by_cases hl : c.limit = 0
    · exact Or.inl hl
    by_cases hb : c.limit.toNat < bar.val.toNat
    · exact Or.inr (Or.inl hb)
    refine Or.inr (Or.inr ?_)
    -- the first offset shows that the base itself is inside, so the last one does not wrap
    have hzero : (0 : BitVec 64).toNat = 0 := rfl
    have hfirst := h 0 _ (by omega) ((c.target_eq_some (by omega)).2 ⟨hl, by omega, rfl⟩)
    rw [toNat_translate, hzero] at hfirst
    have hbase := c.base_lt
    have hlim := c.limit.isLt
    have hlast : (BitVec.ofNat 64 (min (c.limit.toNat - bar.val.toNat)
        (idtBarApertureSize - 1))).toNat =
        min (c.limit.toNat - bar.val.toNat) (idtBarApertureSize - 1) := by
      rw [BitVec.toNat_ofNat]
      omega
    have := h (BitVec.ofNat 64 (min (c.limit.toNat - bar.val.toNat) (idtBarApertureSize - 1))) _
      (by rw [hlast]; omega) ((c.target_eq_some (by rw [hlast]; omega)).2
        ⟨hl, by rw [hlast]; omega, rfl⟩)
    rw [toNat_translate, hlast] at this
    omega

end BARConfig

/-! ## Accesses of the guest -/

/-- Every access of the guest of `x` to the window `w` stays inside the peer's memory file, or is
    refused: a read returns 0, and a write has no effect. -/
def WindowSafe (s : Sys) (x : Vm) (w : Window) : Prop :=
  ∀ (map : Bool) (addr : BitVec 64) (size : ℕ),
    addr.toNat < idtBarApertureSize → size = 4 ∨ size = 8 →
    (∀ r, idtBarRead (s.ctx x) (s.ram x.other) map addr size w.idx = .ok r →
      match r.at? with
      | some off => off.toNat + size ≤ (s.ram x.other).size
      | none => r.ret = 0) ∧
    (∀ value r, idtBarWrite (s.ctx x) (s.ram x.other) map addr value size w.idx = .ok r →
      match r.at? with
      | some off => off.toNat + size ≤ (s.ram x.other).size
      | none => r.mem = s.ram x.other)

/-- The window of `x` leads nowhere, or into the peer's memory file. -/
def WindowInRam (s : Sys) (x : Vm) (w : Window) : Prop :=
  (s.barConfig x w.idx).InRam ((s.dev x).bars w.idx) (s.ram x.other).size

instance (s : Sys) (x : Vm) (w : Window) : Decidable (WindowInRam s x w) :=
  inferInstanceAs (Decidable (BARConfig.InRam _ _ _))

/-- **One state and window**: all accesses are safe exactly when the window leads into the file. -/
theorem windowSafe_iff (s : Sys) (x : Vm) (w : Window) : WindowSafe s x w ↔ WindowInRam s x w := by
  unfold WindowInRam
  rw [BARConfig.inRam_iff _ (s.ram x.other).size_lt]
  constructor
  · intro h addr off haddr ht
    -- an eight-byte read, with the memory mapped, does touch the target
    obtain ⟨r, hr, -, hat, -⟩ :=
      idtBarRead_spec (s.ctx x) (s.ram x.other) true addr (Or.inr rfl) w.idx
    have hsafe := (h true addr 8 haddr (Or.inr rfl)).1 r hr
    rw [hat, if_pos (Or.inr rfl), Sys.ctx_barConfig, Sys.ctx_dev, ht] at hsafe
    exact hsafe
  · intro h map addr size haddr hsize
    have hoff : ∀ off, (if (s.ctx x).dev.peerMem ∨ map then
        ((s.ctx x).barConfig w.idx).target ((s.ctx x).dev.bars w.idx).val addr else none) =
          some off → off.toNat + size ≤ (s.ram x.other).size := by
      intro off ho
      split_ifs at ho
      have := h addr off haddr ho
      omega
    refine ⟨fun r hr => ?_, fun value r hr => ?_⟩
    · obtain ⟨r', hr', -, hat, hret⟩ :=
        idtBarRead_spec (s.ctx x) (s.ram x.other) map addr hsize w.idx
      rw [hr'] at hr
      cases hr
      split
      · next off ho => exact hoff off (hat.symm.trans ho)
      · next ho =>
        rw [hret, ho]
        rfl
    · obtain ⟨r', hr', -, hat, hmem⟩ :=
        idtBarWrite_spec (s.ctx x) (s.ram x.other) map addr value hsize w.idx
      rw [hr'] at hr
      cases hr
      split
      · next off ho => exact hoff off (hat.symm.trans ho)
      · next ho =>
        rw [hmem, ho]
        rfl

/-- **Along a run all window accesses stay inside the peer's memory exactly when every window leads
    into it in every state that the run reaches.** -/
theorem windows_bounded (s₀ : Sys) (t : List (Sys × Act)) :
    (∀ t₁ s, t₁ <+: t → Run Step s₀ t₁ s → ∀ x w, WindowSafe s x w) ↔
      ∀ t₁ s, t₁ <+: t → Run Step s₀ t₁ s → ∀ x w, WindowInRam s x w := by
  simp only [windowSafe_iff]

/-- The second guest opens its window 2 and points it 4 GiB into the memory of the first. -/
def windowBeyond : List Act :=
  [.write .vm2 (ConfigReg.bar .limit 2).addr 0xFFFFFFFF, .write .vm2 (ConfigReg.bar .utbase 2).addr 1]

/-- **A guest reads past the end of the other machine's memory file.** -/
theorem window_escapes :
    ¬ ∀ t s, Run Step Sys.started t s → ∀ x w, WindowSafe s x w := by
  intro hall
  obtain ⟨s, hs, hout⟩ : ∃ s, exec Sys.next Sys.started windowBeyond = .ok s ∧
      ¬ WindowInRam s .vm2 .bar2 := ⟨_, rfl, by decide⟩
  exact hout ((windowSafe_iff s .vm2 .bar2).1 (hall _ s (Run.of_exec hs) .vm2 .bar2))

end IdtNtb
