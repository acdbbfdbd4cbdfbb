/-
  What a guest's store through a window does to the peer's memory.

  The guest stores 1, 2, 4 or 8 bytes.  Between it and `idt_bar_write` stands the
  memory core of QEMU, which makes the callbacks of the region's operations
  (`BAR_OPS`) out of the store: it is a parameter (`MemoryCore`), and all that is
  used of it is what it does with aligned accesses up to the largest width of
  the callbacks.

  * `step_barWrite` says what a window write leaves in the memories;
  * `stored_iff` says when a store changes the bytes it stores and no other: a
    store of less than 4 bytes is handed on as a write of 4.
-/
import IdtNtb.Mapping
import IdtNtb.Placement

namespace IdtNtb

open Function (update)
open Runs

variable {s s' : Sys} {x : Vm} {w : Window} {n : ℕ} {addr value T : BitVec 64} {map : Bool}

/-! ## Window writes -/

theorem idtBarWrite_lands (hn : n = 4 ∨ n = 8) (h : Lands s x w map addr T) :
    idtBarWrite (s.ctx x) (s.ram x.other) map addr value n w.idx =
      .ok ⟨⟨s.shm, { s.dev x with peerMem := true }, []⟩, (s.ram x.other).store T n value, some T⟩ := by
  obtain ⟨hmap, ht⟩ := h
  unfold BARConfig.target at ht
  split_ifs at ht with hlim
  obtain ⟨h1, h2⟩ := not_or.1 hlim
  cases ht
  have hmem : ¬ (!(s.dev x).peerMem && !map) = true := by
    rcases hmap with hm | hm <;> simp [hm]
  unfold idtBarWrite
  rw [if_neg (by exact h1), if_neg (by exact h2), if_neg (by exact hmem), if_pos hn]
  rfl

/-- **A window write that lands** stores into the peer's memory, and nowhere else. -/
theorem step_barWrite (hn : n = 4 ∨ n = 8) (h : Lands s x w map addr T) :
    ∃ s', Step s (.barWrite x w addr value n map) s' ∧
      s'.ram = update s.ram x.other ((s.ram x.other).store T n value) := by
  refine ⟨{ s with
    dev := update s.dev x { s.dev x with peerMem := true }
    ram := update s.ram x.other ((s.ram x.other).store T n value) }, ?_, rfl⟩
  simp only [Step, Sys.next, Sys.handle, idtBarWrite_lands hn h]
  rfl

/-! ## The memory core -/

/-- What `BAR_OPS` declares: the widths of the callbacks. -/
structure MemoryRegionOps where
  minAccessSize : ℕ
  maxAccessSize : ℕ

def idtBarOps : MemoryRegionOps := ⟨4, 8⟩

/-- A call of the `write` of a region. -/
structure Callback where
  addr : BitVec 64
  value : BitVec 64
  size : ℕ
deriving DecidableEq

/-- The memory core, as far as the windows rely on it: how it makes callbacks out of aligned
    stores of `size` bytes that are not wider than the widest callback. -/
structure MemoryCore where
  callbacks : MemoryRegionOps → BitVec 64 → (size : ℕ) → BitVec (8 * size) → List Callback
  /-- A narrow store is one callback of the smallest width, with the value zero-extended. -/
  narrow : ∀ ops addr size value, 0 < size → size < ops.minAccessSize → size ∣ addr.toNat →
    callbacks ops addr size value = [⟨addr, value.setWidth 64, ops.minAccessSize⟩]
  /-- A store of a supported width is handed on. -/
  whole : ∀ ops addr size value, 0 < size → ops.minAccessSize ≤ size → size ≤ ops.maxAccessSize →
    size ∣ addr.toNat → callbacks ops addr size value = [⟨addr, value.setWidth 64, size⟩]

/-- What the guest of `x` starts when it stores `n` bytes through a window. -/
def MemoryCore.store (core : MemoryCore) (x : Vm) (w : Window) (addr : BitVec 64) (n : ℕ)
    (value : BitVec (8 * n)) (map : Bool) : List Act :=
  (core.callbacks idtBarOps addr n value).map fun cb => .barWrite x w cb.addr cb.value cb.size map

/-- A store is one window write, of at least 4 bytes. -/
theorem MemoryCore.store_eq (core : MemoryCore) (hn : n ∈ [1, 2, 4, 8]) (ha : n ∣ addr.toNat)
    (value : BitVec (8 * n)) : core.store x w addr n value map =
      [.barWrite x w addr (value.setWidth 64) (max n 4) map] := by
  have hmin : idtBarOps.minAccessSize = 4 := rfl
  have hmax : idtBarOps.maxAccessSize = 8 := rfl
  simp only [List.mem_cons, List.not_mem_nil, or_false] at hn
  unfold store
  by_cases h4 : n < 4
  · rw [core.narrow _ _ _ _ (by omega) (by omega) ha, hmin, max_eq_right h4.le]
    rfl
  · rw [core.whole _ _ _ _ (by omega) (by omega) (by omega) ha, max_eq_left (not_lt.1 h4)]
    rfl

/-! ## Stores -/

/-- Of the bytes of `m`, those from `T` on take the bytes of the value, and no other one
    changes. -/
def StoresExactly (m m' : Ram) (T : BitVec 64) (value : BitVec (8 * n)) : Prop :=
  ∀ a < m.size, m'.byte a = if T.toNat ≤ a ∧ a < T.toNat + n then
    (value >>> (8 * (a - T.toNat))).setWidth 8 else m.byte a

/-- The bytes that a store of at least 4 bytes writes. -/
theorem store_byte (m : Ram) (hn : n ∈ [1, 2, 4, 8]) (value : BitVec (8 * n)) (a : ℕ) :
    (m.store T (max n 4) (value.setWidth 64)).byte a =
      if T.toNat ≤ a ∧ a < T.toNat + n then (value >>> (8 * (a - T.toNat))).setWidth 8
      else if T.toNat + n ≤ a ∧ a < T.toNat + 4 then 0 else m.byte a := by
  simp only [List.mem_cons, List.not_mem_nil, or_false] at hn
  have hbyte : ∀ j, ((value.setWidth 64) >>> (8 * j)).setWidth 8 = (value >>> (8 * j)).setWidth 8 := by
    intro j
    apply BitVec.eq_of_getLsbD_eq
    intro i hi
    simp only [BitVec.getLsbD_setWidth, BitVec.getLsbD_ushiftRight, hi, decide_true, Bool.true_and]
    by_cases hj : 8 * j + i < 64
    · simp [hj]
    · rw [BitVec.getLsbD_of_ge value _ (by omega)]
      simp
  simp only [Ram.store, hbyte]
  by_cases h1 : T.toNat ≤ a ∧ a < T.toNat + n
  · rw [if_pos h1, if_pos (by omega)]
  · rw [if_neg h1]
    by_cases h2 : T.toNat + n ≤ a ∧ a < T.toNat + 4
    · rw [if_pos h2, if_pos (by omega)]
      apply BitVec.eq_of_getLsbD_eq
      intro i hi
      rw [BitVec.getLsbD_setWidth, BitVec.getLsbD_ushiftRight,
        BitVec.getLsbD_of_ge value _ (by omega)]
      simp
    · rw [if_neg h2, if_neg (by omega)]

/-- When the bytes that are written are the bytes stored. -/
theorem storesExactly_iff (m : Ram) (hn : n ∈ [1, 2, 4, 8]) (value : BitVec (8 * n)) :
    StoresExactly m (m.store T (max n 4) (value.setWidth 64)) T value ↔
      4 ≤ n ∨ ∀ a < m.size, T.toNat + n ≤ a → a < T.toNat + 4 → m.byte a = 0 := by
  simp only [StoresExactly, store_byte _ hn]
  constructor
  · intro hall
    refine or_iff_not_imp_left.2 fun h4 a hsz h1 h2 => ?_
    have := hall a hsz
    rw [if_neg (by omega), if_pos ⟨h1, h2⟩, if_neg (by omega)] at this
    exact this.symm
  · intro hcond a hsz
    by_cases h1 : T.toNat ≤ a ∧ a < T.toNat + n
    · rw [if_pos h1, if_pos h1]
    · rw [if_neg h1, if_neg h1]
      split_ifs with h2
      · rcases hcond with h4 | hz
        · omega
        · exact (hz a hsz h2.1 h2.2).symm
      · rfl

/-- **A store through a window** changes the bytes it stores and no other one exactly if at least
    4 bytes from its target on lie inside the peer's memory file, and it stores at least 4 bytes or
    the rest of the 4 bytes is zero already. -/
theorem stored_iff (core : MemoryCore) (behind : ℕ) (hn : n ∈ [1, 2, 4, 8]) (ha : n ∣ addr.toNat)
    (h : Lands s x w map addr T) (value : BitVec (8 * n)) :
    (∃ s', exec (Sys.nextMapped behind) s (core.store x w addr n value map) = .ok s' ∧
        StoresExactly (s.ram x.other) (s'.ram x.other) T value) ↔
      T.toNat + max n 4 ≤ (s.ram x.other).size ∧
        (4 ≤ n ∨ ∀ a, T.toNat + n ≤ a → a < T.toNat + 4 → (s.ram x.other).byte a = 0) := by
  have hsize : max n 4 = 4 ∨ max n 4 = 8 := by
    simp only [List.mem_cons, List.not_mem_nil, or_false] at hn
    omega
  obtain ⟨u, hst, hram⟩ := @step_barWrite s x w _ addr (value.setWidth 64) T map hsize h
  have hexec : ∀ s', exec (Sys.nextMapped behind) s (core.store x w addr n value map) = .ok s' ↔
      T.toNat + max n 4 ≤ (s.ram x.other).size ∧ s' = u := by
    intro s'
    have hst' : s.next (.barWrite x w addr (value.setWidth 64) (max n 4) map) = .ok u := hst
    rw [core.store_eq hn ha, exec_singleton, Sys.nextMapped_ok, Sys.mapped_barWrite,
      Sys.landsInside_iff h, hst', Except.ok.injEq, eq_comm (a := u)]
  simp only [hexec]
  constructor
  · rintro ⟨s', ⟨hin, rfl⟩, hexact⟩
    rw [hram, Function.update_self, storesExactly_iff _ hn] at hexact
    refine ⟨hin, hexact.imp_right fun hz a h1 h2 => hz a ?_ h1 h2⟩
    omega
  · rintro ⟨hin, hcond⟩
    refine ⟨u, ⟨hin, rfl⟩, ?_⟩
    rw [hram, Function.update_self, storesExactly_iff _ hn]
    exact hcond.imp_right fun hz a _ h1 h2 => hz a h1 h2

/-! ## A memory core -/

/-- `access_with_adjusted_size`: callbacks of one width, as near to that of the store as the region
    allows. -/
def accessWithAdjustedSize (ops : MemoryRegionOps) (addr : BitVec 64) (size : ℕ)
    (value : BitVec (8 * size)) : List Callback :=
  let accessSize := max (min size ops.maxAccessSize) ops.minAccessSize
  (List.range ((size + accessSize - 1) / accessSize)).map fun i =>
    ⟨addr + BitVec.ofNat 64 (accessSize * i),
      ((value.setWidth 64 >>> (8 * (accessSize * i))).setWidth (8 * accessSize)).setWidth 64,
      accessSize⟩

/-- A store that fits in one callback. -/
theorem accessWithAdjustedSize_one {ops : MemoryRegionOps} {size : ℕ} (h0 : 0 < size)
    (hle : size ≤ max (min size ops.maxAccessSize) ops.minAccessSize) (addr : BitVec 64)
    (value : BitVec (8 * size)) : accessWithAdjustedSize ops addr size value =
      [⟨addr, value.setWidth 64, max (min size ops.maxAccessSize) ops.minAccessSize⟩] := by
  unfold accessWithAdjustedSize
  generalize max (min size ops.maxAccessSize) ops.minAccessSize = k at hle ⊢
  have hcount : (size + k - 1) / k = 1 := by
    rw [Nat.div_eq_iff (by omega)]
    omega
  have hvalue : ((value.setWidth 64).setWidth (8 * k)).setWidth 64 = value.setWidth 64 := by
    apply BitVec.eq_of_getLsbD_eq
    intro i hi
    simp only [BitVec.getLsbD_setWidth, hi, decide_true, Bool.true_and]
    by_cases hik : i < 8 * k
    · simp [hik]
    · rw [BitVec.getLsbD_of_ge value _ (by omega)]
      simp
  simp [hcount, hvalue]

def MemoryCore.adjusted : MemoryCore where
  callbacks := accessWithAdjustedSize
  narrow ops addr size value h0 hlt _ := by
    rw [accessWithAdjustedSize_one h0 (by omega)]
    congr 2
    omega
  whole ops addr size value h0 hmin hmax _ := by
    rw [accessWithAdjustedSize_one h0 (by omega)]
    congr 2
    omega

/-- The second guest opens its window and writes a word of ones into the memory of the first. -/
def wordStored : List Act :=
  [.write .vm2 (ConfigReg.bar .limit 2).addr 0x101000, .barWrite .vm2 .bar2 0 0xFFFFFFFF 4 true]

theorem stored_placed : ∃ s s',
    exec Sys.next (Sys.placed (.mib 1) (.mib 1)) wordStored = .ok s ∧
      exec (Sys.nextMapped 0) s (MemoryCore.adjusted.store .vm2 .bar2 4 1 0x5A true) = .ok s' ∧
      StoresExactly (n := 1) (s.ram .vm1) (s'.ram .vm1) 4 0x5A := by
  obtain ⟨s, hs, hland, hin, hzero⟩ : ∃ s,
      exec Sys.next (Sys.placed (.mib 1) (.mib 1)) wordStored = .ok s ∧
      Lands s .vm2 .bar2 true 4 4 ∧ 8 ≤ (s.ram .vm1).size ∧ ∀ k < 3, (s.ram .vm1).byte (5 + k) = 0 :=
    ⟨_, rfl, by decide, by decide, by decide⟩
  obtain ⟨s', hs', hexact⟩ :=
    (stored_iff (n := 1) MemoryCore.adjusted 0 (by decide) (by decide) hland 0x5A).2
      ⟨hin, Or.inr fun a h1 h2 => by
        have hT : (4 : BitVec 64).toNat = 4 := rfl
        obtain ⟨k, rfl⟩ : ∃ k, a = 5 + k := ⟨a - 5, by omega⟩
        exact hzero k (by omega)⟩
  exact ⟨s, s', hs, hs', hexact⟩

/-- **A byte stored through a window takes its neighbours with it.** -/
theorem byte_clobbers : ¬ ∀ t s s' x w addr n (value : BitVec (8 * n)) map T,
    Run Step (Sys.placed (.mib 1) (.mib 1)) t s → n ∈ [1, 2, 4, 8] → n ∣ addr.toNat →
    addr.toNat < idtBarApertureSize → Lands s x w map addr T →
    exec (Sys.nextMapped 0) s (MemoryCore.adjusted.store x w addr n value map) = .ok s' →
    StoresExactly (s.ram x.other) (s'.ram x.other) T value := by
  intro hall
  obtain ⟨s, s', hs, hland, hin, hst, hsize, h1, h2⟩ : ∃ s s',
      exec Sys.next (Sys.placed (.mib 1) (.mib 1)) wordStored = .ok s ∧
      Lands s .vm2 .bar2 true 0 0 ∧ 4 ≤ (s.ram .vm1).size ∧
      Step s (.barWrite .vm2 .bar2 0 0 4 true) s' ∧
      1 < (s.ram .vm1).size ∧ (s.ram .vm1).byte 1 = 0xFF ∧ (s'.ram .vm1).byte 1 = 0 :=
    ⟨_, _, rfl, by decide, by decide, rfl, by decide, by decide, by decide⟩
  have hs' : exec (Sys.nextMapped 0) s (MemoryCore.adjusted.store .vm2 .bar2 0 1 0 true) = .ok s' := by
    rw [MemoryCore.store_eq _ (by decide) (by decide), exec_singleton]
    exact Sys.nextMapped_ok.2 ⟨Sys.mapped_barWrite.2 ((Sys.landsInside_iff hland).2 hin), hst⟩
  have := hall _ s s' .vm2 .bar2 0 1 0 true 0 (Run.of_exec hs) (by decide) (by decide) (by decide)
    hland hs' 1 hsize
  rw [if_neg (by decide)] at this
  have hother : Vm.vm2.other = .vm1 := rfl
  rw [hother, h1, h2] at this
  exact absurd this (by decide)

end IdtNtb
