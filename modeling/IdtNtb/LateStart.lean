/-
  A machine that starts while its peer is running.

  The register set-up at the end of `ivshmem_common_realize` gives the own BAR
  entries their BARSETUP values, and copies its entries over those of the peer as
  long as the peer's BARSETUP0 is zero: the peer is then taken to be not started.
  The first machine to start so presets the entries of the second
  (`preset_alone`), and the second finds its own entries as it would leave them.

  BARSETUP0 can be written by the guest.  `late_start` says that the second
  machine leaves the first one alone exactly if the guest of the first has not
  zeroed it.
-/
import IdtNtb.Config
import IdtNtb.Notifiers

namespace IdtNtb

open Function (update)
open Runs

variable {x y : Vm} {s s' s₀ : Sys} {a : Act} {t : List (Sys × Act)}

/-! ## The register set-up -/

/-- The BARSETUP that realize gives an entry, if it does. -/
def presetup (i : Fin 6) : Option (BitVec 32) :=
  match i.val with
  | 0 => some valueNtBarsetup0
  | 2 | 3 | 4 => some valueNtBarsetup2
  | _ => none

/-- The set-up of the own registers and entries. -/
def setUpOwn (c : Ctx x) : Ctx x :=
  let c := { c with dev := { c.dev with realized := true } }
  ((((((c.modGregs fun g => { g with ntIntMask := initialNtIntMask }).modRegs
    fun r => { r with ntctl := valueNtpNtctl }).setBar 0 .setup valueNtBarsetup0).setBar
    2 .setup valueNtBarsetup2).setBar 3 .setup valueNtBarsetup2).setBar 4 .setup valueNtBarsetup2)

theorem realizeRegs_eq (c : Ctx x) : realizeRegs c =
    if ((setUpOwn c).peerBarConfig 0).setup = 0 then
      { setUpOwn c with shm := (setUpOwn c).shm.modVm x.other fun b =>
        { b with barConfig := (setUpOwn c).barConfig } }
    else setUpOwn c := rfl

theorem setUpOwn_barConfig (c : Ctx x) (i : Fin 6) : (setUpOwn c).barConfig i =
    { c.barConfig i with setup := (presetup i).getD (c.barConfig i).setup } := by
  have hown : (setUpOwn c).barConfig = update (update (update (update c.barConfig
      0 ((c.barConfig 0).set .setup valueNtBarsetup0))
      2 ((c.barConfig 2).set .setup valueNtBarsetup2))
      3 ((c.barConfig 3).set .setup valueNtBarsetup2))
      4 ((c.barConfig 4).set .setup valueNtBarsetup2) := by
    simp [setUpOwn]
    rfl
  rw [hown]
  obtain ⟨_ | _ | _ | _ | _ | _ | k, hi⟩ := i <;> rfl

theorem setUpOwn_peer (c : Ctx x) :
    (setUpOwn c).peerRegs = c.peerRegs ∧ (setUpOwn c).peerBarConfig = c.peerBarConfig := by
  constructor
  · simp [setUpOwn]
    rfl
  · simp [setUpOwn]
    rfl

/-- **What the register set-up leaves** in the entries and in the peer's registers. -/
theorem realizeRegs_spec (c : Ctx x) :
    (∀ i, (realizeRegs c).barConfig i =
      { c.barConfig i with setup := (presetup i).getD (c.barConfig i).setup }) ∧
    (realizeRegs c).peerRegs = c.peerRegs ∧
    (realizeRegs c).peerBarConfig =
      if (c.peerBarConfig 0).setup = 0 then (realizeRegs c).barConfig else c.peerBarConfig := by
  obtain ⟨hregs, hbars⟩ := setUpOwn_peer c
  rw [realizeRegs_eq, hbars]
  by_cases h0 : (c.peerBarConfig 0).setup = 0
  · simp only [if_pos h0]
    have hown : ∀ m : Ctx x, Ctx.barConfig { m with shm := m.shm.modVm x.other fun b =>
        { b with barConfig := m.barConfig } } = m.barConfig := by
      intro m
      simp [Ctx.barConfig]
    refine ⟨fun i => ?_, ?_, ?_⟩
    · rw [hown, setUpOwn_barConfig]
    · rw [← hregs]
      simp [Ctx.peerRegs]
    · rw [hown]
      simp [Ctx.peerBarConfig]
  · simp only [if_neg h0]
    exact ⟨setUpOwn_barConfig c, hregs, hbars⟩

/-! ## The first machine -/

/-- The entries of `y` have the set-up that realize gives them. -/
def Preset (y : Vm) (m : IdtIvshmemShmStorage) : Prop :=
  ∀ i b, presetup i = some b → ((m.vm y).barConfig i).setup = b

theorem preset_own (c : Ctx x) : Preset x (realizeRegs c).shm := by
  intro i b hb
  have hown := congrArg BARConfig.setup ((realizeRegs_spec c).1 i)
  rw [hb] at hown
  exact hown

/-- **The first machine presets the entries of the second.** -/
theorem preset_alone (c : Ctx y.other) (hc : c.shm = default) : Preset y (realizeRegs c).shm := by
  have hzero : (c.peerBarConfig 0).setup = 0 := by
    rw [Ctx.peerBarConfig, hc]
    rfl
  have hpeer := (realizeRegs_spec c).2.2
  rw [if_pos hzero, Ctx.peerBarConfig, Vm.other_other] at hpeer
  intro i b hb
  rw [hpeer]
  exact preset_own c i b hb

/-- Only a machine's own guest writes its BARSETUP registers. -/
theorem setup_step (hs : s.SelFor a) (ha : ∀ (r : ConfigReg) v, a ≠ .write y r.addr v)
    (h : Step s a s') (i : Fin 6) : (s'.barConfig y i).setup = (s.barConfig y i).setup := by
  rcases step_block hs h y with ⟨r, v, rfl, -⟩ | ⟨r, v, rfl, -, hb⟩ | ⟨-, -, hb⟩
  · exact absurd rfl (ha r v)
  · rw [hb]
    have hpeer : (s.ctx y.other).peerBarConfig = s.barConfig y := by
      rw [Sys.ctx_peerBarConfig, Vm.other_other]
    unfold Ctx.peerBarConfigAfter Ctx.setSelected
    cases r with
    | oofLdata | oofHdata | oofLlimit | oofHlimit =>
      dsimp only
      rw [hpeer]
      split_ifs <;> rfl
    | _ => rw [hpeer]
  · rw [hb]

/-- The machine `x` came up first, on zeroed shared memory. -/
def Alone (x : Vm) (s₀ : Sys) : Prop :=
  ∃ vectors bars requesterId masterOn env msgs rest, ∃ c : Ctx x,
    ivshmemCommonRealize ⟨default, .init x vectors bars requesterId, []⟩ masterOn env msgs =
      .ok (.ok (c, rest)) ∧ s₀.shm = c.shm ∧ s₀.dev x = c.dev

theorem Alone.preset (h : Alone y.other s₀) : Preset y s₀.shm := by
  obtain ⟨vectors, bars, requesterId, masterOn, env, msgs, rest, c, hc, hshm, -⟩ := h
  obtain ⟨c₀, rfl, hzero, -⟩ := ivshmemCommonRealize_spec hc
  rw [hshm]
  exact preset_alone _ hzero

/-- The entries stay preset while the second machine is not up. -/
theorem preset_run (h : Run Step s₀ t s) (h0 : Preset y s₀.shm) (hsel : ∀ e ∈ t, e.1.SelFor e.2)
    (hy : ∀ e ∈ t, ∀ (r : ConfigReg) v, e.2 ≠ .write y r.addr v) : Preset y s.shm := by
  refine Run.inv_of (fun s => Preset y s.shm)
    (fun e => e.1.SelFor e.2 ∧ ∀ (r : ConfigReg) v, e.2 ≠ .write y r.addr v) h0 ?_ h
    fun e he => ⟨hsel e he, hy e he⟩
  rintro s a s' hi ⟨hs, ha⟩ hst i b hb
  exact (setup_step hs ha hst i).trans (hi i b hb)

/-! ## The second machine -/

/-- The start of `y` leaves its peer alone: the peer's registers and entries, what the peer has
    programmed for `y`, and what it reads of BARSETUP through GASADATA. -/
structure Undisturbed (y : Vm) (m m' : IdtIvshmemShmStorage) : Prop where
  bars : (m'.vm y.other).barConfig = (m.vm y.other).barConfig
  regs : (m'.vm y.other).regs = (m.vm y.other).regs
  limit : ∀ i, ((m'.vm y).barConfig i).limit = ((m.vm y).barConfig i).limit
  ltbase : ∀ i, ((m'.vm y).barConfig i).ltbase = ((m.vm y).barConfig i).ltbase
  utbase : ∀ i, ((m'.vm y).barConfig i).utbase = ((m.vm y).barConfig i).utbase
  scan : ∀ (d : IVShmemState y.other) z i, d.lregs.gasaaddr = (GlobalReg.ntpBarsetup z i).addr →
    getGasadata ⟨m', d, []⟩ = getGasadata ⟨m, d, []⟩

theorem getGasadata_barsetup {m : IdtIvshmemShmStorage} {d : IVShmemState x} {z : Vm} {i : Fin 6}
    (h : d.lregs.gasaaddr = (GlobalReg.ntpBarsetup z i).addr) :
    getGasadata ⟨m, d, []⟩ = ((m.vm z).barConfig i).setup.setWidth 64 := by
  simp [getGasadata, h]

/-- The register set-up of a machine whose entries are preset. -/
theorem undisturbed_iff (c : Ctx y) (hp : Preset y c.shm) :
    Undisturbed y c.shm (realizeRegs c).shm ↔ (c.peerBarConfig 0).setup ≠ 0 := by
  obtain ⟨hown, hregs, hbars⟩ := realizeRegs_spec c
  constructor
  · intro hu h0
    -- the copied entry has a set-up
    rw [if_pos h0] at hbars
    have hcopy : ((realizeRegs c).peerBarConfig 0).setup = valueNtBarsetup0 := by
      rw [hbars]
      exact preset_own c 0 _ rfl
    have hkept : ((realizeRegs c).peerBarConfig 0).setup = 0 := by
      rw [← h0]
      exact congrArg (fun bars : Fin 6 → BARConfig => (bars 0).setup) hu.bars
    rw [hkept] at hcopy
    exact absurd hcopy (by decide)
  · intro h0
    rw [if_neg h0] at hbars
    refine ⟨hbars, hregs, fun i => ?_, fun i => ?_, fun i => ?_, fun d z i hd => ?_⟩
    · have hi := congrArg BARConfig.limit (hown i)
      exact hi
    · have hi := congrArg BARConfig.ltbase (hown i)
      exact hi
    · have hi := congrArg BARConfig.utbase (hown i)
      exact hi
    · rw [getGasadata_barsetup hd, getGasadata_barsetup hd]
      congr 1
      rcases Vm.eq_or_other y z with rfl | rfl
      · have hset := congrArg BARConfig.setup (hown i)
        cases hpre : presetup i with
        | none =>
          rw [hpre] at hset
          exact hset
        | some b =>
          rw [hpre] at hset
          exact hset.trans (hp i b hpre).symm
      · exact congrArg (fun bars : Fin 6 → BARConfig => (bars i).setup) hbars

/-- **A late start** leaves the running machine alone if and only if its BARSETUP0 is not zero. -/
theorem late_start {vectors : ℕ} {bars : Fin 6 → BusAddr} {requesterId : BitVec 16}
    {masterOn : Bool} {env : Env} {msgs rest : List Msg} {c : Ctx y} (hup : Alone y.other s₀)
    (h : Run Step s₀ t s) (hy : ∀ e ∈ t, ∀ (r : ConfigReg) v, e.2 ≠ .write y r.addr v)
    (hsel : ∀ e ∈ t, e.1.SelFor e.2)
    (hc : ivshmemCommonRealize ⟨s.shm, .init y vectors bars requesterId, []⟩ masterOn env msgs =
      .ok (.ok (c, rest))) :
    Undisturbed y s.shm c.shm ↔ (s.barConfig y.other 0).setup ≠ 0 := by
  obtain ⟨c₀, rfl, hshm, -⟩ := ivshmemCommonRealize_spec hc
  have hpre : Preset y (ivshmemSetupInterrupts c₀).shm := by
    show Preset y c₀.shm
    rw [hshm]
    exact preset_run h hup.preset hsel hy
  have hiff := undisturbed_iff (ivshmemSetupInterrupts c₀) hpre
  have hshm' : (ivshmemSetupInterrupts c₀).shm = s.shm := hshm
  rw [Ctx.peerBarConfig, hshm'] at hiff
  exact hiff

/-! ## The first machine alone -/

/-- The first machine is up, and the second has a device that is not realized. -/
def Sys.alone : Sys where
  shm := firstUp.shm
  dev := update (fun x => .init x 2 (fun _ => default) 0) .vm1 firstUp.dev
  pending _ := false
  ram := Sys.started.ram

theorem alone_firstUp : Alone (Vm.vm2).other Sys.alone :=
  ⟨2, fun _ => default, 0, false, eventfdEnv, hello 0, [], firstUp, rfl, rfl, rfl⟩

/-- The first guest opens its window 2, and writes its BARSETUP0. -/
def writesSetup (v : BitVec 32) : List Act :=
  [.write .vm1 (ConfigReg.bar .limit 2).addr 0x101000, .write .vm1 (ConfigReg.bar .setup 0).addr v]

/-- The second guest is not running, and no store goes through a selector. -/
theorem writesSetup_alone {v : BitVec 32} : ∀ e ∈ trace Sys.next Sys.alone (writesSetup v),
    (∀ (r : ConfigReg) w, e.2 ≠ .write .vm2 r.addr w) ∧ e.1.SelFor e.2 := by
  intro e he
  have hacts := mem_of_mem_trace he
  simp only [writesSetup, List.mem_cons, List.not_mem_nil, or_false] at hacts
  rcases hacts with h | h <;> rw [h]
  · exact ⟨nofun, selFor_write id⟩
  · exact ⟨nofun, selFor_write id⟩

theorem late_start_alone : ∃ s c,
    Run Step Sys.alone (trace Sys.next Sys.alone (writesSetup valueNtBarsetup0)) s ∧
      ivshmemCommonRealize (x := .vm2) ⟨s.shm, .init .vm2 2 (fun _ => default) 0, []⟩ false
        eventfdEnv (hello 1) = .ok (.ok (c, [])) ∧ Undisturbed .vm2 s.shm c.shm := by
  obtain ⟨s, c, hs, hc, h0⟩ : ∃ s c,
      exec Sys.next Sys.alone (writesSetup valueNtBarsetup0) = .ok s ∧
      ivshmemCommonRealize (x := .vm2) ⟨s.shm, .init .vm2 2 (fun _ => default) 0, []⟩ false
        eventfdEnv (hello 1) = .ok (.ok (c, [])) ∧ (s.barConfig .vm1 0).setup ≠ 0 :=
    ⟨_, _, rfl, rfl, by decide⟩
  refine ⟨s, c, Run.of_exec hs, hc, ?_⟩
  exact (late_start alone_firstUp (Run.of_exec hs) (fun e he => (writesSetup_alone e he).1)
    (fun e he => (writesSetup_alone e he).2) hc).2 h0

/-- **A guest that zeroes its BARSETUP0** loses what it has programmed when its peer starts. -/
theorem late_start_overwrites : Alone .vm1 Sys.alone ∧ ¬ ∀ t s c rest, Run Step Sys.alone t s →
    (∀ e ∈ t, (∀ (r : ConfigReg) w, e.2 ≠ .write .vm2 r.addr w) ∧ e.1.SelFor e.2) →
    ivshmemCommonRealize (x := .vm2) ⟨s.shm, .init .vm2 2 (fun _ => default) 0, []⟩ false
      eventfdEnv (hello 1) = .ok (.ok (c, rest)) → Undisturbed .vm2 s.shm c.shm := by
  refine ⟨alone_firstUp, fun hall => ?_⟩
  obtain ⟨s, c, hs, hc, hlim, hlim'⟩ : ∃ s c, exec Sys.next Sys.alone (writesSetup 0) = .ok s ∧
      ivshmemCommonRealize (x := .vm2) ⟨s.shm, .init .vm2 2 (fun _ => default) 0, []⟩ false
        eventfdEnv (hello 1) = .ok (.ok (c, [])) ∧
      ((s.shm.vm .vm1).barConfig 2).limit = 0x101000 ∧ ((c.shm.vm .vm1).barConfig 2).limit = 0 :=
    ⟨_, _, rfl, rfl, by decide, by decide⟩
  have hbars := (hall _ s c [] (Run.of_exec hs) writesSetup_alone hc).bars
  have hkept : ((c.shm.vm .vm1).barConfig 2).limit = ((s.shm.vm .vm1).barConfig 2).limit :=
    congrArg (fun bars : Fin 6 → BARConfig => (bars 2).limit) hbars
  rw [hlim, hlim'] at hkept
  exact absurd hkept (by decide)

end IdtNtb
