/-
  Windows that the peer sets up, and where the two machines placed their BARs.

  The driver of `x` takes the limit of a window from its own bus address of the
  BAR, and the device of `x.other` compares it with the bus address that the
  other machine gave its BAR.  With `a` and `b` the two bus addresses and `z` the
  size asked for:

  * `Fits a b z` is when the window opens as asked for, and `fits_iff` that this
    is exact;
  * `mw_placement` compares two placements, and closes the window again.
-/
import IdtNtb.Bounds
import IdtNtb.Driver

namespace IdtNtb

open Runs

/-! ## The limit -/

section
variable {a b a' b' z off : ℕ}

/-- The offset passes the limit `(u32)(a + z)` of a BAR at `b`. -/
def Admits (a b z off : ℕ) : Prop := (a + z) % 2 ^ 32 ≠ 0 ∧ b + off ≤ (a + z) % 2 ^ 32

/-- The whole accesses below `z` are admitted, and nothing that starts above. -/
def Exact (a b z : ℕ) : Prop :=
  (∀ off, off < idtBarApertureSize → off + 4 ≤ z → Admits a b z off) ∧
    ∀ off, off < idtBarApertureSize → z < off → ¬ Admits a b z off

/-- When the limit does what it is meant to. -/
def Fits (a b z : ℕ) : Prop :=
  if z < 4 then a ≤ b
  else if z + 1 < idtBarApertureSize then a = b
  else b + min (z - 4) (idtBarApertureSize - 1) ≤ (a + z) % 2 ^ 32

instance : Decidable (Fits a b z) := by
  unfold Fits
  infer_instance

/-- A bus address of a window. -/
def IsBase (a : ℕ) : Prop := idtBarApertureSize ∣ a ∧ a < 2 ^ 32

theorem BusAddr.isBase (c : BusAddr) : IsBase c.val.toNat := ⟨c.aligned, c.below⟩

/-- Below the aperture the limit does not wrap. -/
theorem limit_small (ha : IsBase a) (hz : z < idtBarApertureSize) : (a + z) % 2 ^ 32 = a + z := by
  obtain ⟨⟨i, hi⟩, h⟩ := ha
  have hap : idtBarApertureSize = 2 ^ 20 := rfl
  rw [hap] at hi hz
  omega

/-- Two bases that are closer than the aperture are one. -/
theorem base_le (ha : IsBase a) (hb : IsBase b) (h : b < a + idtBarApertureSize) : b ≤ a := by
  obtain ⟨⟨i, hi⟩, -⟩ := ha
  obtain ⟨⟨j, hj⟩, -⟩ := hb
  have hap : idtBarApertureSize = 2 ^ 20 := rfl
  rw [hap] at hi hj h
  omega

/-- A window of at least the aperture, less one byte, that fits admits all of the BAR. -/
theorem limit_large (ha : IsBase a) (hb : IsBase b) (hz : idtBarApertureSize ≤ z + 1)
    (h : b + min (z - 4) (idtBarApertureSize - 1) ≤ (a + z) % 2 ^ 32) :
    b + idtBarApertureSize ≤ (a + z) % 2 ^ 32 + 1 := by
  obtain ⟨⟨i, hi⟩, -⟩ := ha
  obtain ⟨⟨j, hj⟩, -⟩ := hb
  have hap : idtBarApertureSize = 2 ^ 20 := rfl
  rw [hap] at hi hj hz h ⊢
  omega

/-- What a window that fits admits. -/
theorem admits_iff (ha : IsBase a) (hb : IsBase b) (h : Fits a b z)
    (hoff : off < idtBarApertureSize) :
    Admits a b z off ↔ off ≤ z ∧ (z < 4 → a = b ∧ a + z ≠ 0) := by
  have hap : idtBarApertureSize = 2 ^ 20 := rfl
  unfold Fits at h
  unfold Admits
  split_ifs at h with h1 h2
  · rw [limit_small ha (by omega)]
    constructor
    · rintro ⟨h3, h4⟩
      have := base_le ha hb (by omega)
      omega
    · rintro ⟨h3, h4⟩
      have := h4 h1
      omega
  · rw [limit_small ha (by omega)]
    omega
  · have := limit_large ha hb (by omega) h
    omega

/-- **One placement**: the limit is exact if and only if the window fits. -/
theorem fits_iff (ha : IsBase a) (hb : IsBase b) : Fits a b z ↔ Exact a b z := by
  have hap : idtBarApertureSize = 2 ^ 20 := rfl
  constructor
  · intro h
    refine ⟨fun off hoff hz => ?_, fun off hoff hz => ?_⟩
    · rw [admits_iff ha hb h hoff]
      omega
    · rw [admits_iff ha hb h hoff]
      omega
  · rintro ⟨hcov, hstop⟩
    unfold Fits
    split_ifs with h1 h2
    · by_contra hlt
      have := hstop (z + 1) (by omega) (by omega)
      unfold Admits at this
      rw [limit_small ha (by omega)] at this
      have := base_le hb ha
      omega
    · have h3 := hcov 0 (by omega) (by omega)
      have h4 := hstop (z + 1) (by omega) (by omega)
      unfold Admits at h3 h4
      rw [limit_small ha (by omega)] at h3 h4
      have := base_le ha hb (by omega)
      omega
    · exact (hcov _ (by omega) (by omega)).2

/-- **Two placements** that fit admit the same offsets unless the window is shorter than one
    access and only one of them has the two BARs at one address. -/
theorem same_iff (ha : IsBase a) (hb : IsBase b) (ha' : IsBase a') (hb' : IsBase b')
    (h : Fits a b z) (h' : Fits a' b' z) :
    (∀ off, off < idtBarApertureSize → (Admits a b z off ↔ Admits a' b' z off)) ↔
      (z < 4 → ((a = b ∧ a + z ≠ 0) ↔ (a' = b' ∧ a' + z ≠ 0))) := by
  have hap : idtBarApertureSize = 2 ^ 20 := rfl
  constructor
  · intro hsame hz
    have := hsame 0 (by omega)
    rw [admits_iff ha hb h (by omega), admits_iff ha' hb' h' (by omega)] at this
    simpa [hz] using this
  · intro hsame off hoff
    rw [admits_iff ha hb h hoff, admits_iff ha' hb' h' hoff]
    by_cases hz : z < 4
    · simp only [hz, forall_const, hsame hz]
    · simp only [hz, false_implies]

end

/-! ## The accesses of the guest -/

/-- An access through a window, with the value of a write. -/
inductive WindowAccess where
  | read
  | write (value : BitVec 64)
deriving DecidableEq

/-- Where an access of the guest of `y` touches the memory of the peer, which can be mapped; `none`
    if it is refused. -/
def performed (s : Sys) (y : Vm) (w : Window) (k : WindowAccess) (off : BitVec 64) (n : ℕ) :
    Option (BitVec 64) :=
  match k with
  | .read =>
    match idtBarRead (s.ctx y) (s.ram y.other) true off n w.idx with
    | .ok r => r.at?
    | .error _ => none
  | .write value =>
    match idtBarWrite (s.ctx y) (s.ram y.other) true off value n w.idx with
    | .ok r => r.at?
    | .error _ => none

variable {s s' u u' : Sys} {x y : Vm} {w : Window} {n : ℕ} {off addr size : BitVec 64}

theorem performed_eq (hn : n = 4 ∨ n = 8) (k : WindowAccess) : performed s y w k off n =
    (s.barConfig y w.idx).target ((s.dev y).bars w.idx).val off := by
  cases k with
  | read =>
    obtain ⟨r, hr, -, hat, -⟩ := idtBarRead_spec (s.ctx y) (s.ram y.other) true off hn w.idx
    rw [if_pos (Or.inr rfl)] at hat
    simp only [performed, hr, hat]
    rfl
  | write value =>
    obtain ⟨r, hr, -, hat, -⟩ :=
      idtBarWrite_spec (s.ctx y) (s.ram y.other) true off value hn w.idx
    rw [if_pos (Or.inr rfl)] at hat
    simp only [performed, hr, hat]
    rfl

/-- An access that the device of `y` can be asked for: 4 or 8 bytes from an offset of the BAR. -/
def Asked (off : BitVec 64) (n : ℕ) : Prop := off.toNat < idtBarApertureSize ∧ (n = 4 ∨ n = 8)

theorem toNat_offset {off : ℕ} (h : off < idtBarApertureSize) : (BitVec.ofNat 64 off).toNat = off := by
  have hap : idtBarApertureSize = 2 ^ 20 := rfl
  rw [BitVec.toNat_ofNat]
  omega

/-- The window `w` of `y` leads to the `size` bytes from `addr` on. -/
structure Opened (s : Sys) (y : Vm) (w : Window) (addr size : BitVec 64) : Prop where
  covers : ∀ k off n, Asked off n → off.toNat + n ≤ size.toNat → (performed s y w k off n).isSome
  stops : ∀ k off n, Asked off n → size.toNat < off.toNat → performed s y w k off n = none
  lands : ∀ k off n t, Asked off n → performed s y w k off n = some t → t = addr + off

/-- The same accesses are performed in two states. -/
def SameAccesses (s u : Sys) (y : Vm) (w : Window) : Prop :=
  ∀ k off n, Asked off n → ((performed s y w k off n).isSome ↔ (performed u y w k off n).isSome)

/-- No access through the window is performed. -/
def WindowShut (s : Sys) (y : Vm) (w : Window) : Prop :=
  ∀ k off n, Asked off n → performed s y w k off n = none

/-- `s` is a state of `y`'s window after `x = y.other` set it up for `size` bytes at `addr`, with
    its own BAR at bus address `a` and the one of `y` at `b`. -/
structure SetUp (s : Sys) (y : Vm) (w : Window) (addr size : BitVec 64) (a b : BusAddr) : Prop where
  limit : (s.barConfig y w.idx).limit = (a.val + size).setWidth 32
  ltbase : (s.barConfig y w.idx).ltbase = addr.setWidth 32
  utbase : (s.barConfig y w.idx).utbase = (addr >>> 32).setWidth 32
  bar : (s.dev y).bars w.idx = b

variable {a b a' b' : BusAddr}

/-- The two halves of an address, put together again. -/
theorem translate_join (addr off : BitVec 64) :
    (((addr >>> 32).setWidth 32).setWidth 64 <<< 32) + (addr.setWidth 32).setWidth 64 + off =
      addr + off := by
  congr 1
  apply BitVec.eq_of_toNat_eq
  have := addr.isLt
  simp only [BitVec.toNat_add, BitVec.toNat_shiftLeft, BitVec.toNat_setWidth,
    BitVec.toNat_ushiftRight, Nat.shiftLeft_eq, Nat.shiftRight_eq_div_pow]
  omega

/-- Which accesses are performed, and where. -/
theorem SetUp.performed_iff (h : SetUp s y w addr size a b) (hoff : Asked off n)
    (k : WindowAccess) (t : BitVec 64) : performed s y w k off n = some t ↔
      Admits a.val.toNat b.val.toNat size.toNat off.toNat ∧ t = addr + off := by
  obtain ⟨hap, hn⟩ := hoff
  rw [performed_eq hn, BARConfig.target_eq_some _ hap, h.limit, h.ltbase, h.utbase, h.bar]
  rw [translate_join]
  have hlim : ((a.val + size).setWidth 32).toNat = (a.val.toNat + size.toNat) % 2 ^ 32 := by
    rw [BitVec.toNat_setWidth, BitVec.toNat_add]
    omega
  have hzero : (a.val + size).setWidth 32 ≠ 0 ↔ (a.val.toNat + size.toNat) % 2 ^ 32 ≠ 0 := by
    rw [← hlim, ne_eq, ne_eq, ← BitVec.toNat_inj]
    rfl
  rw [hzero, hlim, Admits, and_assoc]

theorem SetUp.isSome_iff (h : SetUp s y w addr size a b) (hoff : Asked off n) (k : WindowAccess) :
    (performed s y w k off n).isSome ↔
      Admits a.val.toNat b.val.toNat size.toNat off.toNat := by
  rw [Option.isSome_iff_exists]
  constructor
  · rintro ⟨t, ht⟩
    exact ((h.performed_iff hoff k t).1 ht).1
  · intro hadm
    exact ⟨_, (h.performed_iff hoff k _).2 ⟨hadm, rfl⟩⟩

/-- A window that was set up is open as asked for if and only if the limit is exact. -/
theorem SetUp.opened_iff (h : SetUp s y w addr size a b) : Opened s y w addr size ↔
    Exact a.val.toNat b.val.toNat size.toNat := by
  constructor
  · intro ho
    refine ⟨fun off hoff hz => ?_, fun off hoff hz hadm => ?_⟩
    · have hnat := toNat_offset hoff
      have hask : Asked (BitVec.ofNat 64 off) 4 := ⟨by rw [hnat]; exact hoff, Or.inl rfl⟩
      have := (h.isSome_iff hask .read).1 (ho.covers _ _ _ hask (by rw [hnat]; exact hz))
      rwa [hnat] at this
    · have hnat := toNat_offset hoff
      have hask : Asked (BitVec.ofNat 64 off) 4 := ⟨by rw [hnat]; exact hoff, Or.inl rfl⟩
      have hsome := (h.isSome_iff hask .read).2 (by rw [hnat]; exact hadm)
      rw [ho.stops _ _ _ hask (by rw [hnat]; exact hz)] at hsome
      cases hsome
  · rintro ⟨hcov, hstop⟩
    refine ⟨fun k off n hask hz => ?_, fun k off n hask hz => ?_, fun k off n t hask ht => ?_⟩
    · rw [h.isSome_iff hask]
      refine hcov _ hask.1 ?_
      rcases hask.2 with rfl | rfl <;> omega
    · rw [← Option.not_isSome_iff_eq_none, h.isSome_iff hask]
      exact hstop _ hask.1 hz
    · exact ((h.performed_iff hask k t).1 ht).2

theorem SetUp.same_iff (h : SetUp s y w addr size a b) (h' : SetUp u y w addr size a' b') :
    SameAccesses s u y w ↔ ∀ off, off < idtBarApertureSize →
      (Admits a.val.toNat b.val.toNat size.toNat off ↔
        Admits a'.val.toNat b'.val.toNat size.toNat off) := by
  constructor
  · intro hsame off hoff
    have hnat := toNat_offset hoff
    have hask : Asked (BitVec.ofNat 64 off) 4 := ⟨by rw [hnat]; exact hoff, Or.inl rfl⟩
    have := hsame .read _ _ hask
    rwa [h.isSome_iff hask, h'.isSome_iff hask, hnat] at this
  · intro hsame k off n hask
    rw [h.isSome_iff hask, h'.isSome_iff hask]
    exact hsame _ hask.1

/-! ## The driver and the guest of the other machine -/

section
variable {ndev : IdtNtbDev} {pidx widx : ℤ} {prog prog' : List (ConfigReg × BitVec 32)}

theorem mwSetTrans_setUp (hw : (ndev.mws widx.toNat).bar = w.idx)
    (h : idtNtbMwSetTrans ndev s x pidx widx addr size = .ok prog) :
    ∃ s', exec Sys.next s (prog.map (idtNtWrite x)) = .ok s' ∧
      SetUp s' x.other w addr size ((s.dev x).bars w.idx) ((s.dev x.other).bars w.idx) := by
  obtain ⟨s', hs, hent, hbars⟩ := mwSetTrans_spec hw h
  exact ⟨s', hs, by rw [hent], by rw [hent], by rw [hent], by rw [hbars]⟩

/-- While nothing is stored into the limit of a window that is closed, it stays closed. -/
theorem shut_run {t : List (Sys × Act)} (h : Run Step s t s') (hsel : ∀ e ∈ t, e.1.SelFor e.2)
    (hl : (s.barConfig y w.idx).limit = 0)
    (hno : ∀ e ∈ t, stored y (.bar .limit w.idx) e = none) : WindowShut s' y w := by
  have hread := read_run h hsel y (.bar .limit w.idx)
  rw [List.filterMap_eq_nil_iff.2 hno, read_plain, read_plain] at hread
  have hl' : (s'.barConfig y w.idx).limit = 0 :=
    (Bits.setWidth_injective (by omega) hread).trans hl
  intro k off n hask
  rw [performed_eq hask.2, BARConfig.target, if_pos (Or.inl hl')]

/-- `idt_ntb_mw_clear_trans` closes the window until something is stored into its limit again. -/
def ClearCloses (ndev : IdtNtbDev) (x : Vm) (pidx widx : ℤ) (w : Window) : Prop :=
  ∀ s prog, idtNtbMwClearTrans ndev s x pidx widx = .ok prog →
    ∃ s', exec Sys.next s (prog.map (idtNtWrite x)) = .ok s' ∧
      ∀ t s'', Run Step s' t s'' → (∀ e ∈ t, e.1.SelFor e.2) →
        (∀ e ∈ t, stored x.other (.bar .limit w.idx) e = none) → WindowShut s'' x.other w

theorem clearCloses (hw : (ndev.mws widx.toNat).bar = w.idx) : ClearCloses ndev x pidx widx w := by
  intro s prog h
  obtain ⟨s', hs, hent, -⟩ := mwClearTrans_spec hw h
  refine ⟨s', hs, fun t s'' hrun hsel hno => shut_run hrun hsel ?_ hno⟩
  rw [hent]

/-- The bus address of a machine's window. -/
def Sys.bus (s : Sys) (x : Vm) (w : Window) : ℕ := ((s.dev x).bars w.idx).val.toNat

/-- **A window set up by the peer, under two placements of the BARs**: it is open as asked for,
    and alike, in both runs exactly when the bus addresses fit. -/
theorem mw_placement (hw : (ndev.mws widx.toNat).bar = w.idx)
    (hs : idtNtbMwSetTrans ndev s x pidx widx addr size = .ok prog)
    (hu : idtNtbMwSetTrans ndev u x pidx widx addr size = .ok prog') :
    ∃ s' u', exec Sys.next s (prog.map (idtNtWrite x)) = .ok s' ∧
      exec Sys.next u (prog'.map (idtNtWrite x)) = .ok u' ∧
      ((Opened s' x.other w addr size ∧ Opened u' x.other w addr size ∧
          SameAccesses s' u' x.other w ∧ ClearCloses ndev x pidx widx w) ↔
        Fits (s.bus x w) (s.bus x.other w) size.toNat ∧
          Fits (u.bus x w) (u.bus x.other w) size.toNat ∧
          (size.toNat < 4 →
            ((s.bus x w = s.bus x.other w ∧ s.bus x w + size.toNat ≠ 0) ↔
              (u.bus x w = u.bus x.other w ∧ u.bus x w + size.toNat ≠ 0)))) := by
  obtain ⟨s', hs', hset⟩ := mwSetTrans_setUp hw hs
  obtain ⟨u', hu', hset'⟩ := mwSetTrans_setUp hw hu
  refine ⟨s', u', hs', hu', ?_⟩
  rw [hset.opened_iff, hset'.opened_iff, hset.same_iff hset',
    ← fits_iff (BusAddr.isBase _) (BusAddr.isBase _),
    ← fits_iff (BusAddr.isBase _) (BusAddr.isBase _)]
  have hclear : ClearCloses ndev x pidx widx w := clearCloses hw
  constructor
  · rintro ⟨h1, h2, h3, -⟩
    exact ⟨h1, h2, (same_iff (BusAddr.isBase _) (BusAddr.isBase _) (BusAddr.isBase _)
      (BusAddr.isBase _) h1 h2).1 h3⟩
  · rintro ⟨h1, h2, h3⟩
    exact ⟨h1, h2, (same_iff (BusAddr.isBase _) (BusAddr.isBase _) (BusAddr.isBase _)
      (BusAddr.isBase _) h1 h2).2 h3, hclear⟩

end

/-! ## Two machines with their windows placed -/

/-- The window at the `k`-th MiB. -/
def BusAddr.mib (k : Fin 4096) : BusAddr :=
  ⟨BitVec.ofNat 64 (2 ^ 20 * k), by
    have := k.isLt
    rw [BitVec.toNat_ofNat, Nat.mod_eq_of_lt (by omega)]
    exact ⟨k, rfl⟩, by
    have := k.isLt
    rw [BitVec.toNat_ofNat]
    omega⟩

/-- Both machines are up, with all BARs of each at one bus address. -/
def Sys.placed (a b : BusAddr) : Sys :=
  { Sys.started with dev := fun x => { startedDev x with bars := fun _ => match x with
    | .vm1 => a
    | .vm2 => b } }

/-- A driver with one direct window, on BAR 2. -/
def directDev : IdtNtbDev where
  peerCnt := 1
  mwCnt := 1
  mws _ := ⟨.dir, 2, 4, 1, 2 ^ 20⟩
  part _ := 1
  is64 data := data &&& 0x6 == 0x4

theorem mw_placement_placed : ∃ s' prog,
    idtNtbMwSetTrans directDev (Sys.placed (.mib 1) (.mib 1)) .vm1 0 0 0x10000 0x1000 = .ok prog ∧
      exec Sys.next (Sys.placed (.mib 1) (.mib 1)) (prog.map (idtNtWrite .vm1)) = .ok s' ∧
      Opened s' .vm2 .bar2 0x10000 0x1000 := by
  obtain ⟨prog, hp⟩ : ∃ prog, idtNtbMwSetTrans directDev (Sys.placed (.mib 1) (.mib 1)) .vm1 0 0
      0x10000 0x1000 = .ok prog := ⟨_, rfl⟩
  obtain ⟨s', u', hs', -, h⟩ := mw_placement (w := .bar2) rfl hp hp
  exact ⟨s', prog, hp, hs', (h.2 ⟨by decide, by decide, by decide⟩).1⟩

/-- **A machine that placed its BAR elsewhere finds the window closed.** -/
theorem placement_matters : ¬ ∀ (s u s' u' : Sys) (prog prog' : List (ConfigReg × BitVec 32)),
    idtNtbMwSetTrans directDev s .vm1 0 0 0x10000 0x1000 = .ok prog →
    idtNtbMwSetTrans directDev u .vm1 0 0 0x10000 0x1000 = .ok prog' →
    exec Sys.next s (prog.map (idtNtWrite .vm1)) = .ok s' →
    exec Sys.next u (prog'.map (idtNtWrite .vm1)) = .ok u' → SameAccesses s' u' .vm2 .bar2 := by
  intro hall
  obtain ⟨prog, s', hp, hs', hopen⟩ : ∃ prog s',
      idtNtbMwSetTrans directDev (Sys.placed (.mib 1) (.mib 1)) .vm1 0 0 0x10000 0x1000 = .ok prog ∧
      exec Sys.next (Sys.placed (.mib 1) (.mib 1)) (prog.map (idtNtWrite .vm1)) = .ok s' ∧
      performed s' .vm2 .bar2 .read 0 4 = some 0x10000 := ⟨_, _, rfl, rfl, by decide⟩
  obtain ⟨prog', u', hp', hu', hshut⟩ : ∃ prog' u',
      idtNtbMwSetTrans directDev (Sys.placed (.mib 1) (.mib 2)) .vm1 0 0 0x10000 0x1000 =
        .ok prog' ∧
      exec Sys.next (Sys.placed (.mib 1) (.mib 2)) (prog'.map (idtNtWrite .vm1)) = .ok u' ∧
      performed u' .vm2 .bar2 .read 0 4 = none := ⟨_, _, rfl, rfl, by decide⟩
  have := hall _ _ s' u' prog prog' hp hp' hs' hu' .read 0 4
    ⟨by decide, Or.inl rfl⟩
  rw [hopen, hshut] at this
  exact absurd this (by decide)

end IdtNtb
