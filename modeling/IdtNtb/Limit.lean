/-
  What a window admits when its limit was programmed for `W` bytes.

  The driver's convention is that BARLIMIT holds the first bus address behind the
  window, cut to 32 bits.  The device takes it for the last address admitted, and
  compares the first byte of an access only:

  * `performed_limit` says which accesses are performed;
  * `limit_exact_iff` says for which offsets and widths this is what the window's
    size asks for: not for the accesses that start in the window and end behind
    it, nor for the one right behind it, nor in a window that ends at 4 GiB,
    whose limit is the one of an inactive window.
-/
import IdtNtb.Placement

namespace IdtNtb

open Runs

variable {s : Sys} {y : Vm} {w : Window} {W n : ℕ} {off : BitVec 64}

/-- The limit register holds the low half of the bus address behind a window of `W` bytes. -/
structure LimitFor (s : Sys) (y : Vm) (w : Window) (W : ℕ) : Prop where
  pos : 0 < W
  fits : W ≤ idtBarApertureSize
  below : s.bus y w + W ≤ 2 ^ 32
  limit : (s.barConfig y w.idx).limit = BitVec.ofNat 32 (s.bus y w + W)

/-- An access of `n` bytes at `off` is performed if it lies in a window of `W` bytes, and otherwise
    refused: a read returns 0, and a write leaves the peer's memory alone. -/
def AdmittedWithin (s : Sys) (y : Vm) (w : Window) (W : ℕ) (off : BitVec 64) (n : ℕ) : Prop :=
  ∀ map : Bool, ((s.dev y).peerMem ∨ map) →
    (∃ r, idtBarRead (s.ctx y) (s.ram y.other) map off n w.idx = .ok r ∧
      (off.toNat + n ≤ W → r.at?.isSome) ∧ (W < off.toNat + n → r.at? = none ∧ r.ret = 0)) ∧
    ∀ value, ∃ r, idtBarWrite (s.ctx y) (s.ram y.other) map off value n w.idx = .ok r ∧
      (off.toNat + n ≤ W → r.at?.isSome) ∧
      (W < off.toNat + n → r.at? = none ∧ r.mem = s.ram y.other)

/-- Reads and writes decide by the target of the window. -/
theorem admittedWithin_iff (hask : Asked off n) : AdmittedWithin s y w W off n ↔
    (((s.barConfig y w.idx).target ((s.dev y).bars w.idx).val off).isSome ↔ off.toNat + n ≤ W) := by
  constructor
  · intro h
    obtain ⟨⟨r, hr, h1, h2⟩, -⟩ := h true (Or.inr rfl)
    obtain ⟨r', hr', -, hat, -⟩ :=
      idtBarRead_spec (s.ctx y) (s.ram y.other) true off hask.2 w.idx
    rw [hr'] at hr
    cases hr
    rw [if_pos (Or.inr rfl), Sys.ctx_barConfig, Sys.ctx_dev] at hat
    rw [← hat]
    constructor
    · intro hs
      by_contra hlt
      rw [(h2 (by omega)).1] at hs
      cases hs
    · exact h1
  · intro h map hmap
    have hside : ∀ o, o = (s.barConfig y w.idx).target ((s.dev y).bars w.idx).val off →
        (off.toNat + n ≤ W → o.isSome) ∧ (W < off.toNat + n → o = none) := by
      rintro o rfl
      refine ⟨h.2, fun hlt => Option.not_isSome_iff_eq_none.1 fun hs => ?_⟩
      have := h.1 hs
      omega
    constructor
    · obtain ⟨r, hr, -, hat, hret⟩ :=
        idtBarRead_spec (s.ctx y) (s.ram y.other) map off hask.2 w.idx
      obtain ⟨hin, hout⟩ := hside _ (hat.trans (if_pos hmap))
      exact ⟨r, hr, hin, fun hlt => ⟨hout hlt, by rw [hret, hout hlt]; rfl⟩⟩
    · intro value
      obtain ⟨r, hr, -, hat, hmem⟩ :=
        idtBarWrite_spec (s.ctx y) (s.ram y.other) map off value hask.2 w.idx
      obtain ⟨hin, hout⟩ := hside _ (hat.trans (if_pos hmap))
      exact ⟨r, hr, hin, fun hlt => ⟨hout hlt, by rw [hmem, hout hlt]; rfl⟩⟩

/-- **What the limit admits**: the offsets up to the window's size, and none if it wraps to 0. -/
theorem target_limit (h : LimitFor s y w W) (hask : Asked off n) :
    ((s.barConfig y w.idx).target ((s.dev y).bars w.idx).val off).isSome ↔
      s.bus y w + W < 2 ^ 32 ∧ off.toNat ≤ W := by
  have hpos := h.pos
  have hbelow := h.below
  have hnat : (s.barConfig y w.idx).limit.toNat = (s.bus y w + W) % 2 ^ 32 := by
    rw [h.limit, BitVec.toNat_ofNat]
  have hzero : (s.barConfig y w.idx).limit ≠ 0 ↔ (s.bus y w + W) % 2 ^ 32 ≠ 0 := by
    rw [← hnat, ne_eq, ne_eq, ← BitVec.toNat_inj]
    rfl
  have hbus : ((s.dev y).bars w.idx).val.toNat = s.bus y w := rfl
  rw [Option.isSome_iff_exists]
  simp only [BARConfig.target_eq_some _ hask.1, hzero, hnat, hbus]
  constructor
  · rintro ⟨t, h1, h2, -⟩
    omega
  · rintro ⟨h1, h2⟩
    exact ⟨_, by omega, by omega, rfl⟩

/-- **The limit is exact**, in a window below 4 GiB, for an access that lies in it or starts behind
    the byte after it, and in a window that ends at 4 GiB for the accesses that leave it. -/
theorem limit_exact_iff (h : LimitFor s y w W) (hask : Asked off n) : AdmittedWithin s y w W off n ↔
    if s.bus y w + W < 2 ^ 32 then off.toNat + n ≤ W ∨ W < off.toNat else W < off.toNat + n := by
  rw [admittedWithin_iff hask, target_limit h hask]
  split_ifs with h4
  · rw [and_iff_right h4]
    omega
  · simp only [h4, false_and, false_iff]
    omega

/-- The second guest programs the limit of its window for 4 KiB behind the first MiB. -/
def limitWritten : List Act := [.write .vm2 (ConfigReg.bar .limit 2).addr 0x101000]

theorem limit_exact_placed : ∃ s,
    exec Sys.next (Sys.placed (.mib 1) (.mib 1)) limitWritten = .ok s ∧
      AdmittedWithin s .vm2 .bar2 0x1000 0xFFC 4 := by
  obtain ⟨s, hs, hbelow, hlim, hlt⟩ : ∃ s,
      exec Sys.next (Sys.placed (.mib 1) (.mib 1)) limitWritten = .ok s ∧
      s.bus .vm2 .bar2 + 0x1000 ≤ 2 ^ 32 ∧
      (s.barConfig .vm2 (Window.idx .bar2)).limit = BitVec.ofNat 32 (s.bus .vm2 .bar2 + 0x1000) ∧
      s.bus .vm2 .bar2 + 0x1000 < 2 ^ 32 := ⟨_, rfl, by decide, by decide, by decide⟩
  refine ⟨s, hs, (limit_exact_iff ⟨by decide, by decide, hbelow, hlim⟩ ⟨by decide, Or.inl rfl⟩).2 ?_⟩
  rw [if_pos hlt]
  exact Or.inl (by decide)

/-- **The word behind the window is admitted.** -/
theorem limit_off_by_one : ¬ ∀ t s y w W off n, Run Step (Sys.placed (.mib 1) (.mib 1)) t s →
    LimitFor s y w W → Asked off n → AdmittedWithin s y w W off n := by
  intro hall
  obtain ⟨s, hs, hbelow, hlim, hperf⟩ : ∃ s,
      exec Sys.next (Sys.placed (.mib 1) (.mib 1)) limitWritten = .ok s ∧
      s.bus .vm2 .bar2 + 0x1000 ≤ 2 ^ 32 ∧
      (s.barConfig .vm2 (Window.idx .bar2)).limit = BitVec.ofNat 32 (s.bus .vm2 .bar2 + 0x1000) ∧
      ((s.barConfig .vm2 (Window.idx .bar2)).target
        ((s.dev .vm2).bars (Window.idx .bar2)).val 0x1000).isSome :=
    ⟨_, rfl, by decide, by decide, by decide⟩
  have hask : Asked 0x1000 4 := ⟨by decide, Or.inl rfl⟩
  have hin := (admittedWithin_iff hask).1
    (hall _ s .vm2 .bar2 0x1000 0x1000 4 (Run.of_exec hs) ⟨by decide, by decide, hbelow, hlim⟩ hask)
  exact absurd (hin.1 hperf) (by decide)

end IdtNtb
