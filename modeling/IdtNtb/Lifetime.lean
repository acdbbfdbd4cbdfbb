/-
  The registers over the whole life of the bridge.

  The registers are not a device's own: they stay in the shared memory when a
  device leaves, and the next device of the machine finds them there.  To the
  registers a step of the bridge is an access of a guest, the set-up by a device
  that comes up, or nothing (`bridge_memory`); joins, leaves, messages of the
  server and events do not reach them.

  * `registers_for_life`: the configuration registers and NTINTMSK hold what a
    guest or the set-up of a device stored last;
  * `latches_for_life`: the bits of NTINTSTS and of the doorbell are set by what
    arrives and stay set until they are cleared or a ring leaves them out, however
    often the devices go and come back;
  * `messages_for_life`: a message that was accepted waits for the machine, not for
    the device, and is taken exactly once and in order.
-/
import IdtNtb.LateStart
import IdtNtb.Pairing
import IdtNtb.Status

namespace IdtNtb

open Runs Mailbox

/-! ## What a step does to the registers -/

/-- The registers of both machines and the global ones are the same; their ids may differ. -/
structure SameRegs (m m' : IdtIvshmemShmStorage) : Prop where
  gregs : m'.gregs = m.gregs
  regs : ∀ y, (m'.vm y).regs = (m.vm y).regs
  barConfig : ∀ y, (m'.vm y).barConfig = (m.vm y).barConfig

theorem SameRegs.refl (m : IdtIvshmemShmStorage) : SameRegs m m := ⟨rfl, fun _ => rfl, fun _ => rfl⟩

section
variable {n : ℕ} {x y : Vm}

/-- The device that announces itself writes its id, and no register. -/
theorem Announced.sameRegs {c c' : Ctx x} (h : Announced c c') : SameRegs c.shm c'.shm := by
  rw [h.shm]
  refine ⟨rfl, fun y => ?_, fun y => ?_⟩
  all_goals
    rcases eq_or_ne y x with rfl | hy
    · rw [IdtIvshmemShmStorage.modVm_self]
    · rw [IdtIvshmemShmStorage.modVm_of_ne _ hy]

theorem processMsg_sameRegs {c c' : Ctx x} {msg : ℤ} {fd : Option Fd} {env : Env}
    {err : Option MsgError} (h : processMsg c msg fd env = .ok (c', err)) :
    SameRegs c.shm c'.shm := by
  obtain ⟨-, -, ⟨-, hann⟩ | ⟨-, hsil⟩, -⟩ := processMsg_spec h
  · exact hann.sameRegs
  · rw [hsil.shm]
    exact .refl _

/-- Of the server and the devices, only a device that comes up writes registers. -/
theorem net_memory {s s' : Net} {a : NetAct} (hok : s.Ok n) (h : NetStep n s a s') :
    (∃ x env, a = .realize x env ∧ ∃ c : Ctx x, c.shm = s.shm ∧ s'.shm = (realizeRegs c).shm) ∨
      ((∀ x env, a ≠ .realize x env) ∧ SameRegs s.shm s'.shm) := by
  cases a with
  | join x id =>
    obtain ⟨-, -, -, rfl⟩ := net_join h
    exact Or.inr ⟨fun _ _ ha => (by cases ha), .refl _⟩
  | leave x =>
    obtain ⟨c, -, rfl⟩ := net_leave h
    exact Or.inr ⟨fun _ _ ha => (by cases ha), .refl _⟩
  | realize x env =>
    obtain ⟨c, r, rest, hc, hr, hrz, hf⟩ := net_realize h
    obtain ⟨hdev, -⟩ := (hok.client hc).waits hr
    have hctx : c.ctx s.shm = ⟨s.shm, .init x n (fun _ => default) 0, []⟩ := by
      rw [Client.ctx, hdev]
    rw [hctx] at hrz
    obtain ⟨c₀, rfl, hshm, -⟩ := ivshmemCommonRealize_spec hrz
    obtain ⟨pending, -, rfl⟩ := Net.finish_ok hf
    exact Or.inl ⟨x, env, rfl, ivshmemSetupInterrupts c₀, hshm, rfl⟩
  | recv x env =>
    obtain ⟨c, c', m, queue, r, err, -, -, -, hm, -, hshm, -⟩ := goes_recv h
    refine Or.inr ⟨fun _ _ ha => (by cases ha), ?_⟩
    rw [hshm]
    exact processMsg_sameRegs hm
  | notify x vector =>
    obtain ⟨c, fd, r, -, -, hv, hf⟩ := net_notify h
    obtain ⟨pending, -, rfl⟩ := Net.finish_ok hf
    have hshm : r.shm = s.shm := (ivshmemVectorNotify_spec hv).1
    refine Or.inr ⟨fun _ _ ha => (by cases ha), ?_⟩
    show SameRegs s.shm r.shm
    rw [hshm]
    exact .refl _

variable {s s' : Bridge} {a : BridgeAct}

/-- **What a step does to the registers**: a guest accesses them, a device sets them up, or they stay
    as they are. -/
theorem bridge_memory (hok : s.net.Ok n) (h : BridgeStep n s a s') :
    (∃ b, a = .access b ∧ Step (s.sys n) b (s'.sys n)) ∨
    (∃ x env, a = .net (.realize x env) ∧ ∃ c : Ctx x, c.shm = s.net.shm ∧
      s'.net.shm = (realizeRegs c).shm) ∨
    ((∀ b, a ≠ .access b) ∧ (∀ x env, a ≠ .net (.realize x env)) ∧ SameRegs s.net.shm s'.net.shm) := by
  cases a with
  | net b =>
    rcases net_memory hok (bridge_net h).1 with ⟨x, env, rfl, hc⟩ | ⟨hno, hsame⟩
    · exact Or.inr (Or.inl ⟨x, env, rfl, hc⟩)
    · exact Or.inr (Or.inr ⟨fun _ ha => (by cases ha),
        fun x env hx => hno x env (BridgeAct.net.inj hx), hsame⟩)
  | place x bars =>
    obtain ⟨c, -, -, -, hshm, -⟩ := bridge_place h
    refine Or.inr (Or.inr ⟨fun _ ha => (by cases ha), fun _ _ ha => (by cases ha), ?_⟩)
    rw [hshm]
    exact .refl _
  | access b =>
    obtain ⟨x, c, -, -, -, hst, -⟩ := bridge_access h
    exact Or.inl ⟨b, rfl, hst⟩

end

/-! ## The configuration registers -/

/-- What the set-up of the device of `x` makes of one of its entries. -/
def setUpBar (i : Fin 6) (c : BARConfig) : BARConfig :=
  { c with setup := (presetup i).getD c.setup }

/-- What the set-up of the device of `x` stores into a register of `y`, on the shared memory `m`: its
    own NTCTL and BARSETUP registers, and the entries of a peer that has not started. -/
def setUpStored (x y : Vm) (r : PlainReg) (m : IdtIvshmemShmStorage) : Option (BitVec 64) :=
  if x = y then
    match r with
    | .ntctl => some valueNtpNtctl
    | .bar .setup i => (presetup i).map (BitVec.setWidth 64)
    | _ => none
  else
    match r with
    | .bar f i =>
      if ((m.vm y).barConfig 0).setup = 0 then
        some (((setUpBar i ((m.vm x).barConfig i)).get f).setWidth 64)
      else none
    | _ => none

section
variable {x y : Vm}

theorem setUpOwn_regs (c : Ctx x) :
    (setUpOwn c).regs = { c.regs with ntctl := valueNtpNtctl } := by
  simp only [setUpOwn, Ctx.setBar_regs, Ctx.modRegs_regs]
  rfl

/-- The set-up leaves of its own registers all but NTCTL alone. -/
theorem realizeRegs_regs (c : Ctx x) :
    (realizeRegs c).regs = { c.regs with ntctl := valueNtpNtctl } := by
  rw [← setUpOwn_regs, realizeRegs_eq]
  split_ifs
  · simp [Ctx.regs]
  · rfl

theorem realizeRegs_ntIntMask (c : Ctx x) :
    (realizeRegs c).shm.gregs.ntIntMask = initialNtIntMask := by
  rw [realizeRegs_eq]
  split_ifs <;> rfl

/-- The registers of `y` after the set-up of the device of `x`. -/
theorem setUp_get (c : Ctx x) (r : PlainReg) :
    r.get ((realizeRegs c).shm.vm y).regs ((realizeRegs c).shm.vm y).barConfig =
      (setUpStored x y r c.shm).getD (r.get (c.shm.vm y).regs (c.shm.vm y).barConfig) := by
  obtain ⟨hbar, hpeer, hpeerBar⟩ := realizeRegs_spec c
  rcases Vm.eq_or_other x y with rfl | rfl
  · have hregs : ((realizeRegs c).shm.vm y).regs = { (c.shm.vm y).regs with ntctl := valueNtpNtctl } :=
      realizeRegs_regs c
    unfold setUpStored
    rw [if_pos rfl, hregs]
    cases r with
    | bar f i =>
      have hi : ((realizeRegs c).shm.vm y).barConfig i = setUpBar i ((c.shm.vm y).barConfig i) :=
        hbar i
      simp only [PlainReg.get, hi]
      cases f with
      | setup =>
        simp only [setUpBar, BARConfig.get]
        cases presetup i <;> rfl
      | _ => rfl
    | _ => rfl
  · have hne : x ≠ x.other := Vm.ne_other x
    have hregs : ((realizeRegs c).shm.vm x.other).regs = (c.shm.vm x.other).regs := hpeer
    unfold setUpStored
    rw [if_neg hne, hregs]
    cases r with
    | bar f i =>
      have hbars : ((realizeRegs c).shm.vm x.other).barConfig =
          if ((c.shm.vm x.other).barConfig 0).setup = 0 then (realizeRegs c).barConfig
          else (c.shm.vm x.other).barConfig := hpeerBar
      simp only [PlainReg.get, hbars]
      split_ifs
      · rw [hbar]
        rfl
      · rfl
    | _ => rfl

end

/-- What a step of the bridge stores into a configuration register of `y`. -/
def lifeStored (n : ℕ) (y : Vm) (r : PlainReg) (e : Bridge × BridgeAct) : Option (BitVec 64) :=
  match e.2 with
  | .access a => stored y r (e.1.sys n, a)
  | .net (.realize x _) => setUpStored x y r e.1.net.shm
  | _ => none

/-- What it stores into NTINTMSK. -/
def lifeMask (n : ℕ) (e : Bridge × BridgeAct) : Option (BitVec 32) :=
  match e.2 with
  | .access a => maskStored (e.1.sys n, a)
  | .net (.realize _ _) => some initialNtIntMask
  | _ => none

section
variable {n : ℕ} {s s' : Bridge} {a : BridgeAct} {t : List (Bridge × BridgeAct)} {y : Vm}
  {shm : IdtIvshmemShmStorage} {ram : Vm → Ram} {e : Bridge × BridgeAct}

theorem read_bridge (s : Bridge) (r : PlainReg) : (s.sys n).read y r.reg.addr =
    r.get (s.net.shm.vm y).regs (s.net.shm.vm y).barConfig := read_plain r

theorem lifeStored_other {r : PlainReg} (ha : ∀ b, a ≠ .access b)
    (hr : ∀ x env, a ≠ .net (.realize x env)) : lifeStored n y r (s, a) = none := by
  unfold lifeStored
  split
  · next b hb => exact absurd hb (ha b)
  · next x env hx => exact absurd hx (hr x env)
  · rfl

theorem lifeMask_other (ha : ∀ b, a ≠ .access b) (hr : ∀ x env, a ≠ .net (.realize x env)) :
    lifeMask n (s, a) = none := by
  unfold lifeMask
  split
  · next b hb => exact absurd hb (ha b)
  · next x env hx => exact absurd hx (hr x env)
  · rfl

/-- **One step**: a register changes by what a guest or a device that comes up stores into it. -/
theorem config_step (hok : s.net.Ok n) (hin : Inbounds n (s, a)) (h : BridgeStep n s a s')
    (r : PlainReg) : (s'.sys n).read y r.reg.addr =
      (lifeStored n y r (s, a)).getD ((s.sys n).read y r.reg.addr) := by
  rcases bridge_memory hok h with ⟨b, rfl, hst⟩ | ⟨x, env, rfl, c, hc, hs'⟩ | ⟨ha, hr, hsame⟩
  · exact step_config (hin.selector b rfl) hst y r
  · have hset := setUp_get (y := y) c r
    rw [hc] at hset
    rw [read_bridge, read_bridge, hs']
    exact hset
  · rw [lifeStored_other ha hr, read_bridge, read_bridge, hsame.regs, hsame.barConfig]
    rfl

theorem mask_step (hok : s.net.Ok n) (h : BridgeStep n s a s') : s'.net.shm.gregs.ntIntMask =
    (lifeMask n (s, a)).getD s.net.shm.gregs.ntIntMask := by
  rcases bridge_memory hok h with ⟨b, rfl, hst⟩ | ⟨x, env, rfl, c, -, hs'⟩ | ⟨ha, hr, hsame⟩
  · exact step_mask hst
  · rw [hs']
    exact realizeRegs_ntIntMask c
  · rw [lifeMask_other ha hr, hsame.gregs]
    rfl

/-- The queues and the tables are in order before each step. -/
theorem ok_before (h : Run (BridgeStep n) (.start shm ram) t s) (hin : ∀ e ∈ t, Inbounds n e)
    (he : e ∈ t) : e.1.net.Ok n := by
  obtain ⟨t₁, t₂, -, rfl, hrun, -⟩ := h.fired he
  exact bridge_ok hrun fun e he => hin e (by simp [he])

/-- **The registers for life**: whichever devices come and go, a configuration register holds what was
    stored into it last, and the interrupt mask is that of the last guest that wrote it or of the last
    device that came up. -/
theorem registers_for_life (h : Run (BridgeStep n) (.start shm ram) t s)
    (hin : ∀ e ∈ t, Inbounds n e) :
    (∀ y (r : PlainReg), (s.sys n).read y r.reg.addr = (t.filterMap (lifeStored n y r)).getLast?.getD
      (((Bridge.start shm ram).sys n).read y r.reg.addr)) ∧
    ∀ y, (s.sys n).read y ConfigReg.ntintmsk.addr =
      ((t.filterMap (lifeMask n)).getLast?.getD shm.gregs.ntIntMask).setWidth 64 := by
  constructor
  · intro y r
    refine h.register (lifeStored n y r) (fun s => (s.sys n).read y r.reg.addr) ?_
    intro e he s' hst
    exact config_step (ok_before h hin he) (hin e he) hst r
  · intro y
    have hmask := h.register (lifeMask n) (fun s => s.net.shm.gregs.ntIntMask) fun e he s' hst =>
      mask_step (ok_before h hin he) hst
    rw [Sys.read_addr]
    exact congrArg (BitVec.setWidth 64) hmask

end

/-! ## The status and the doorbell -/

/-- An access of a guest that does `P`. -/
def OnAccess (n : ℕ) (P : Sys × Act → Prop) (e : Bridge × BridgeAct) : Prop :=
  ∃ a, e.2 = .access a ∧ P (e.1.sys n, a)

/-- `x` rings its peer's doorbell without bit `b`. -/
def LeavesOut (x : Vm) (b : ℕ) (e : Sys × Act) : Prop :=
  ∃ v, e.2 = .write x ConfigReg.outdbellset.addr v ∧ v.getLsbD b = false

section
variable {s s' : Sys} {a : Act} {y : Vm}

/-- A bit of the doorbell after an access. -/
theorem doorbell_step (hs : s.SelFor a) (h : Step s a s') (b : ℕ) : Rung y b s' ↔
    Rings y.other b (s, a) ∨
      (Rung y b s ∧ ¬ (Clears y b (s, a) ∨ LeavesOut y.other b (s, a))) := by
  rw [rung_iff, rung_iff]
  rcases step_block hs h y with ⟨r, v, rfl, hr, -⟩ | ⟨r, v, rfl, hr, -⟩ | ⟨ha, hr, -⟩
  · have hout : ¬ Rings y.other b (s, .write y r.addr v) ∧
        ¬ LeavesOut y.other b (s, .write y r.addr v) := by
      simp [Rings, LeavesOut]
    by_cases hd : r = .indbellsts
    · subst hd
      have hword : (s'.regs y).db = (s.regs y).db &&& ~~~v := by
        rw [hr]
        simp [Ctx.regsAfter]
      rw [hword, Bits.getLsbD_and_not]
      simp [Clears, hout]
    · rw [hr, regsAfter_db _ hd]
      simp [Clears, hd, hout]
  · have hown : ¬ Clears y b (s, .write y.other r.addr v) := by simp [Clears]
    by_cases hd : r = .outdbellset
    · subst hd
      rw [hr]
      simp [Ctx.peerRegsAfter, Rings, LeavesOut, hown]
    · rw [hr, peerRegsAfter_db _ hd]
      simp [Rings, LeavesOut, hd, hown]
  · have hw : ∀ x (r : ConfigReg) v, a ≠ .write x r.addr v := ha
    rw [hr]
    simp [Rings, Clears, LeavesOut, hw]

end

section
variable {n : ℕ} {s s' : Bridge} {a : BridgeAct} {t : List (Bridge × BridgeAct)} {y : Vm}
  {shm : IdtIvshmemShmStorage} {ram : Vm → Ram}

/-- Of the registers of a machine, only its own and its peer's accesses reach more than NTCTL. -/
theorem bridge_regs (hok : s.net.Ok n) (h : BridgeStep n s a s') :
    (∃ b, a = .access b ∧ Step (s.sys n) b (s'.sys n)) ∨
    ((∀ b, a ≠ .access b) ∧
      ∀ y, ∃ v, (s'.sys n).regs y = { (s.sys n).regs y with ntctl := v }) := by
  rcases bridge_memory hok h with hacc | ⟨x, env, rfl, c, hc, hs'⟩ | ⟨ha, -, hsame⟩
  · exact Or.inl hacc
  · refine Or.inr ⟨fun _ ha => (by cases ha), fun y => ?_⟩
    show ∃ v, (s'.net.shm.vm y).regs = { (s.net.shm.vm y).regs with ntctl := v }
    rw [hs', ← hc]
    rcases Vm.eq_or_other x y with rfl | rfl
    · exact ⟨_, realizeRegs_regs c⟩
    · exact ⟨_, (realizeRegs_spec c).2.1⟩
  · refine Or.inr ⟨ha, fun y => ⟨_, hsame.regs y⟩⟩

theorem not_onAccess {P : Sys × Act → Prop} (ha : ∀ b, a ≠ .access b) : ¬ OnAccess n P (s, a) := by
  rintro ⟨b, hb, -⟩
  exact ha b hb

theorem onAccess_iff {P : Sys × Act → Prop} {b : Act} :
    OnAccess n P (s, .access b) ↔ P (s.sys n, b) := by
  constructor
  · rintro ⟨b', hb, h⟩
    rwa [BridgeAct.access.inj hb]
  · exact fun h => ⟨b, rfl, h⟩

/-- A latch of the two devices, which only a machine's registers are about, is one of the bridge. -/
theorem latch_for_life {P : Sys → Prop} {on off : Sys × Act → Prop}
    (h : Run (BridgeStep n) (.start shm ram) t s) (hin : ∀ e ∈ t, Inbounds n e)
    (h0 : ¬ P ((Bridge.start shm ram).sys n))
    (hP : ∀ {s s' : Sys} {v}, s'.regs y = { s.regs y with ntctl := v } → (P s' ↔ P s))
    (hs : ∀ {s s' : Sys} {a}, s.SelFor a → Step s a s' →
      (P s' ↔ on (s, a) ∨ (P s ∧ ¬ off (s, a)))) :
    P (s.sys n) ↔ Since (OnAccess n on) (OnAccess n off) t := by
  refine h.latch (fun s => P (s.sys n)) h0 ?_
  rintro ⟨s, a⟩ he s' hst
  rcases bridge_regs (ok_before h hin he) hst with ⟨b, rfl, hacc⟩ | ⟨ha, hregs⟩
  · rw [onAccess_iff, onAccess_iff]
    exact hs ((hin _ he).selector b rfl) hacc
  · obtain ⟨v, hv⟩ := hregs y
    rw [hP hv]
    simp [not_onAccess ha]

/-- **The status and the doorbell for life**: from clear bits on, a bit of NTINTSTS is set exactly if it
    was raised since the guest cleared it, and a doorbell bit exactly if it was rung since it was
    cleared or left out; no device that leaves, joins or comes up takes an event away. -/
theorem latches_for_life (h : Run (BridgeStep n) (.start shm ram) t s)
    (hin : ∀ e ∈ t, Inbounds n e) (y : Vm) (b : ℕ) :
    (b < 32 → (shm.vm y).regs.intsts.getLsbD b = false →
      (((s.sys n).read y ConfigReg.ntintsts.addr).getLsbD b = true ↔
        Since (OnAccess n (StatusRaised b y)) (OnAccess n (StatusCleared b y)) t)) ∧
    ((shm.vm y).regs.db.getLsbD b = false →
      (((s.sys n).read y ConfigReg.indbellsts.addr).getLsbD b = true ↔
        Since (OnAccess n (Rings y.other b))
          (OnAccess n fun e => Clears y b e ∨ LeavesOut y.other b e) t)) := by
  constructor
  · intro hb h0
    have hread : ∀ s : Sys, s.read y ConfigReg.ntintsts.addr = (s.regs y).intsts := fun s => by
      rw [Sys.read_addr]
      rfl
    rw [hread]
    refine latch_for_life (P := fun s => (s.regs y).intsts.getLsbD b = true) (y := y) h hin ?_ ?_ ?_
    · show ¬ (shm.vm y).regs.intsts.getLsbD b = true
      simp [h0]
    · intro s s' v hv
      rw [hv]
    · exact status_step hb
  · intro h0
    refine latch_for_life (P := Rung y b) (y := y) h hin ?_ ?_ ?_
    · rw [rung_iff]
      show ¬ (shm.vm y).regs.db.getLsbD b = true
      simp [h0]
    · intro s s' v hv
      rw [rung_iff, rung_iff, hv]
    · exact fun hs hst => doorbell_step hs hst b

end

/-! ## The message boxes -/

/-- What an access does to a box of `y`: a message of a device that does not know its peer does not
    get into it. -/
def accessMail (y : Vm) (i : Fin 4) (e : Sys × Act) : Ev (BitVec 64 × BitVec 64) :=
  if (e.1.dev y.other).otherVmId = -1 ∧ e.2.guest = some y.other then .skip else mail y i e

/-- What a step of the bridge does to it. -/
def lifeMail (n : ℕ) (y : Vm) (i : Fin 4) (e : Bridge × BridgeAct) : Ev (BitVec 64 × BitVec 64) :=
  match e.2 with
  | .access a => accessMail y i (e.1.sys n, a)
  | _ => .skip

section
variable {s s' : Sys} {a : Act} {y : Vm} {i : Fin 4}

/-- A device that does not know its peer leaves the boxes of the peer alone. -/
theorem slot_unknown {r : ConfigReg} {v : BitVec 32} (hid : (s.dev y.other).otherVmId = -1)
    (hr : s'.regs y = (s.ctx y.other).peerRegsAfter r (v.setWidth 64)) :
    slot y i s' = slot y i s := by
  have hpeer : (s.ctx y.other).peerRegs = s.regs y := by rw [Sys.ctx_peerRegs, Vm.other_other]
  by_cases hm : r = .outmsg i
  · subst hm
    have hid' : (s.ctx y.other).dev.otherVmId = -1 := hid
    by_cases hf : (s.ctx y.other).PeerFull i
    · apply slot_of_box
      rw [hr, Ctx.peerRegsAfter, if_pos hf, hpeer]
    · have hempty : (s.regs y).msgsts.getLsbD (16 + i) = false := by
        unfold Ctx.PeerFull at hf
        rw [hpeer] at hf
        simpa using hf
      -- the word is overwritten, and the box stays empty
      rw [slot_eq, slot_eq, hr, Ctx.peerRegsAfter, if_neg hf, if_pos hid', hpeer]
      simp [box, hempty]
  · apply slot_of_box
    rw [hr, peerRegsAfter_box _ hm, hpeer]

/-- The receiver's own write releases the box, or leaves it alone. -/
theorem mail_step_own {r : ConfigReg} {v : BitVec 32}
    (hr : s'.regs y = (s.ctx y).regsAfter r (v.setWidth 64)) :
    Ev.Step (slot y i s) (mail y i (s, .write y r.addr v)) (slot y i s') := by
  rw [mail_own, slot_own hr]
  by_cases hf : Full y i s
  · have hslot : slot y i s = some (inbox y i s) := if_pos hf
    by_cases hm : r = .msgsts ∧ v.getLsbD (16 + i) = true
    · rw [if_pos ⟨hm.1, hm.2, hf⟩, if_pos hm, hslot]
      exact .release _
    · rw [if_neg fun h => hm ⟨h.1, h.2.1⟩, if_neg hm]
      exact .skip _
  · have hslot : slot y i s = none := if_neg hf
    rw [if_neg fun h => hf h.2.2, hslot, ite_self]
    exact .skip _

/-- **Every access is a step of the mailbox**, whether or not the sender knows its peer. -/
theorem accessMail_step (hs : s.SelFor a) (h : Step s a s') :
    Ev.Step (slot y i s) (accessMail y i (s, a)) (slot y i s') := by
  unfold accessMail
  by_cases hid : (s.dev y.other).otherVmId = -1
  · rcases step_block hs h y with ⟨r, v, rfl, hr, -⟩ | ⟨r, v, rfl, hr, -⟩ | ⟨ha, hr, -⟩
    · rw [if_neg fun h => Vm.ne_other y (Option.some_inj.1 h.2)]
      exact mail_step_own hr
    · rw [if_pos ⟨hid, rfl⟩, slot_unknown hid hr]
      exact .skip _
    · have hsame : slot y i s' = slot y i s := slot_of_box (by rw [hr])
      rw [hsame]
      split_ifs
      · exact .skip _
      rcases mail_noWrite (y := y) (n := i) (s := s) ha with hm | ⟨hf, hm⟩
      · rw [hm]
        exact .skip _
      · have hslot : slot y i s = some (inbox y i s) := if_pos hf
        rw [hm, hslot]
        exact .get _
  · rw [if_neg fun h => hid h.1]
    exact mail_step hs hid h

end

section
variable {n : ℕ} {s s' : Bridge} {a : BridgeAct} {t : List (Bridge × BridgeAct)} {y : Vm}
  {shm : IdtIvshmemShmStorage} {ram : Vm → Ram} {i : Fin 4}

/-- The other steps do not use the box. -/
theorem lifeMail_other (ha : ∀ b, a ≠ .access b) : lifeMail n y i (s, a) = .skip := by
  unfold lifeMail
  split
  · next b hb => exact absurd hb (ha b)
  · rfl

/-- **The mailbox along a run of the bridge.** -/
theorem lifeMail_run (h : Run (BridgeStep n) (.start shm ram) t s) (hin : ∀ e ∈ t, Inbounds n e)
    (h0 : (shm.vm y).regs.msgsts.getLsbD (16 + i) = false) :
    Run Ev.Step none (t.map fun e => (slot y i (e.1.sys n), lifeMail n y i e)) (slot y i (s.sys n)) := by
  have hempty : slot y i ((Bridge.start shm ram).sys n) = none := by
    refine if_neg fun hf => ?_
    rw [full_iff] at hf
    have hf' : (shm.vm y).regs.msgsts.getLsbD (16 + i) = true := hf
    rw [h0] at hf'
    cases hf'
  rw [← hempty]
  refine h.map (fun s => slot y i (s.sys n)) (lifeMail n y i) ?_
  rintro ⟨s, a⟩ he s' hst
  rcases bridge_regs (ok_before h hin he) hst with ⟨b, rfl, hacc⟩ | ⟨ha, hregs⟩
  · exact accessMail_step ((hin _ he).selector b rfl) hacc
  · obtain ⟨v, hv⟩ := hregs y
    rw [lifeMail_other ha, slot_of_box (by rw [hv]; rfl)]
    exact .skip _

/-- An OUTMSG write of the other guest gets into the box: it is empty, and the sender's device knows
    its peer. -/
def Enters (n : ℕ) (y : Vm) (i : Fin 4) (e : Bridge × BridgeAct) : Prop :=
  OnAccess n (Accepts y i) e ∧ ((e.1.sys n).dev y.other).otherVmId ≠ -1

theorem lifeMail_of_enters {e : Bridge × BridgeAct} (h : Enters n y i e) :
    ∃ p, lifeMail n y i e = .put p := by
  obtain ⟨s, a⟩ := e
  obtain ⟨⟨b, rfl, hacc⟩, hid⟩ := h
  obtain ⟨p, hp⟩ := mail_of_accepts hacc
  refine ⟨p, ?_⟩
  show accessMail y i (s.sys n, b) = .put p
  unfold accessMail
  rw [if_neg fun h => hid h.1]
  exact hp

/-- What releases a box is a MSGSTS write of its own guest. -/
theorem release_of_lifeMail {e : Bridge × BridgeAct} (h : lifeMail n y i e = .release) :
    OnAccess n (fun e => ∃ v, e.2 = .write y ConfigReg.msgsts.addr v ∧
      v.getLsbD (16 + i) = true) e := by
  obtain ⟨s, a⟩ := e
  cases a with
  | access b =>
    have hacc : accessMail y i (s.sys n, b) = .release := h
    unfold accessMail at hacc
    split_ifs at hacc
    exact ⟨b, rfl, msgsts_of_release hacc⟩
  | net b => cases h
  | place x bars => cases h

/-- **The message boxes for life**: whatever joins, leaves and comes up in between, no message that got
    into a box is overwritten before the guest of `y` clears INMSGSTS, a box that is full shows the last
    one, and if the guest looks before it clears, the messages taken and the one that waits are
    exactly those that got in, in order. -/
theorem messages_for_life (h : Run (BridgeStep n) (.start shm ram) t s)
    (hin : ∀ e ∈ t, Inbounds n e) (y : Vm) (i : Fin 4)
    (h0 : (shm.vm y).regs.msgsts.getLsbD (16 + i) = false) :
    (∀ t₁ e₁ t₂ e₂ t₃, t = t₁ ++ e₁ :: (t₂ ++ e₂ :: t₃) → Enters n y i e₁ → Enters n y i e₂ →
      ∃ e ∈ t₂, OnAccess n (fun e => ∃ v, e.2 = .write y ConfigReg.msgsts.addr v ∧
        v.getLsbD (16 + i) = true) e) ∧
    (Full y i (s.sys n) → (puts (t.map (lifeMail n y i))).getLast? = some (inbox y i (s.sys n))) ∧
    (LooksFirst (t.map (lifeMail n y i)) →
      taken (t.map (lifeMail n y i)) ++ (slot y i (s.sys n)).toList =
        puts (t.map (lifeMail n y i))) := by
  have hrun := lifeMail_run h hin h0
  have hev : events (t.map fun e => (slot y i (e.1.sys n), lifeMail n y i e)) =
      t.map (lifeMail n y i) := by
    simp [events, Function.comp_def]
  refine ⟨?_, ?_, ?_⟩
  · rintro t₁ e₁ t₂ e₂ t₃ rfl h₁ h₂
    obtain ⟨p, hp⟩ := lifeMail_of_enters h₁
    obtain ⟨q, hq⟩ := lifeMail_of_enters h₂
    simp only [List.map_append, List.map_cons, hp, hq] at hrun
    obtain ⟨m, hm, hrel⟩ := release_between hrun
    obtain ⟨e, he, rfl⟩ := List.mem_map.1 hm
    exact ⟨e, he, release_of_lifeMail hrel⟩
  · intro hf
    have hslot : slot y i (s.sys n) = some (inbox y i (s.sys n)) := if_pos hf
    rw [← hev, ← hslot]
    exact last_put hrun (by simp [hslot])
  · intro hl
    rw [← hev] at hl ⊢
    exact (taken_eq hrun hl).1

end

/-! ## A restart -/

/-- The second guest masks doorbells; the first one sends a message and rings; then the device of the
    second machine goes, and another one comes up. -/
def restarted : List BridgeAct := pairUp.map .net ++
  [.access (.write .vm2 ConfigReg.indbellmsk.addr 9), .access (.write .vm1 (ConfigReg.outmsg 0).addr 5),
    .access (.write .vm1 ConfigReg.outdbellset.addr 4), .net (.leave .vm2), .net (.join .vm2 7),
    .net (.realize .vm2 eventfdEnv)]

theorem inbounds_restarted :
    ∀ e ∈ trace (Bridge.next 2) (.start default blankRam) restarted, Inbounds 2 e := by
  rintro ⟨s, a⟩ he
  have hmem := mem_of_mem_trace he
  by_cases ha : ∃ b, a = .access b
  swap
  · exact inbounds_of_not_access fun b hb => ha ⟨b, hb⟩
  obtain ⟨b, rfl⟩ := ha
  rw [restarted, List.mem_append] at hmem
  rcases hmem with hmem | hmem
  · obtain ⟨c, -, hc⟩ := List.mem_map.1 hmem
    cases hc
  · simp only [List.mem_cons, List.not_mem_nil, or_false, BridgeAct.access.injEq,
      reduceCtorEq] at hmem
    rcases hmem with rfl | rfl | rfl
    · exact (tame_write (r := .indbellmsk) fun h => h).toInbounds
    · exact (tame_write (r := .outmsg 0) fun h => h).toInbounds
    · exact (tame_write (r := .outdbellset) fun h => h).toInbounds

/-- The mask of before the restart is still there. -/
theorem registers_for_life_restart : ∃ s : Bridge,
    exec (Bridge.next 2) (.start default blankRam) restarted = .ok s ∧
      (s.sys 2).read .vm2 ConfigReg.indbellmsk.addr = 9 := by
  obtain ⟨s, hs⟩ : ∃ s, exec (Bridge.next 2) (.start default blankRam) restarted = .ok s := ⟨_, rfl⟩
  refine ⟨s, hs, ?_⟩
  exact ((registers_for_life (Run.of_exec hs) inbounds_restarted).1 .vm2 .indbellmsk).trans rfl

/-- The ring of before it is still pending. -/
theorem latches_for_life_restart :
    Since (OnAccess 2 (Rings .vm1 2)) (OnAccess 2 fun e => Clears .vm2 2 e ∨ LeavesOut .vm1 2 e)
      (trace (Bridge.next 2) (.start default blankRam) restarted) := by
  obtain ⟨s, hs, hbit⟩ : ∃ s : Bridge,
      exec (Bridge.next 2) (.start default blankRam) restarted = .ok s ∧
        ((s.sys 2).read .vm2 ConfigReg.indbellsts.addr).getLsbD 2 = true := ⟨_, rfl, rfl⟩
  exact ((latches_for_life (Run.of_exec hs) inbounds_restarted .vm2 2).2 rfl).1 hbit

/-- The message of before it waits for the guest. -/
theorem messages_for_life_restart : ∃ s : Bridge,
    exec (Bridge.next 2) (.start default blankRam) restarted = .ok s ∧
      (puts ((trace (Bridge.next 2) (.start default blankRam) restarted).map
        (lifeMail 2 .vm2 0))).getLast? = some (inbox .vm2 0 (s.sys 2)) := by
  obtain ⟨s, hs, hf⟩ : ∃ s : Bridge,
      exec (Bridge.next 2) (.start default blankRam) restarted = .ok s ∧
        Full .vm2 0 (s.sys 2) := ⟨_, rfl, rfl⟩
  exact ⟨s, hs, (messages_for_life (Run.of_exec hs) inbounds_restarted .vm2 0 rfl).2.1 hf⟩

end IdtNtb
