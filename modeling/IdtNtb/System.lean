/-
  Two devices on one shared memory.

  A `Sys` is the shared memory with the two devices on it, the eventfds that have
  an event pending, and the memory files of the two machines.  `handle` runs one
  handler to its end: an access of a guest to BAR 0 or to a window, or the
  answer of a device to one of its own notifiers.  A notification makes the
  eventfd behind the slot of the sender's peer table pending (`deliver`).

  * `next_cases` says what a step can do: run `writeReg` for one register, or
    leave the shared memory and the local registers alone;
  * `step_block`, `step_gregs` and `step_dev` give the parts of the state after
    a step, while the out-of-spec selectors are below 6 (`Sys.SelOk`);
  * `Quiet` runs handle no EVENTFD_VM_ID event, so the ids that the devices hold
    stay as they are.
-/
import IdtNtb.Lib.Runs
import IdtNtb.Peers
import IdtNtb.Windows
import IdtNtb.Writes

namespace IdtNtb

open Function (update)
open Runs

/-- The two devices and what they share. -/
structure Sys where
  shm : IdtIvshmemShmStorage
  dev : (x : Vm) → IVShmemState x
  /-- The eventfds with an event pending. -/
  pending : Fd → Bool
  /-- The memory files of the machines. -/
  ram : Vm → Ram

/-- What starts a handler. -/
inductive Act where
  /-- The guest writes BAR 0, 32 bits at a time. -/
  | write (x : Vm) (addr : BitVec 64) (val : BitVec 32)
  | read (x : Vm) (addr : BitVec 64)
  /-- The device finds its notifier of this vector readable. -/
  | notify (x : Vm) (vector : ℕ)
  | barRead (x : Vm) (w : Window) (addr : BitVec 64) (size : ℕ) (map : Bool)
  | barWrite (x : Vm) (w : Window) (addr value : BitVec 64) (size : ℕ) (map : Bool)
deriving DecidableEq

namespace Sys

/-- What a handler of the device of `x` starts from. -/
def ctx (s : Sys) (x : Vm) : Ctx x := ⟨s.shm, s.dev x, []⟩

/-- Take over what a handler of the device of `x` left, and deliver its notifications. -/
def finish (s : Sys) {x : Vm} (c : Ctx x) : Except Fault (Sys × List Effect) := do
  let pending ← c.out.foldlM (deliver c.dev) s.pending
  pure ({ s with shm := c.shm, dev := update s.dev x c.dev, pending := pending }, c.out)

/-- `event_notifier_test_and_clear` takes the pending event. -/
def testAndClear (s : Sys) : Option Fd → Sys
  | some fd => { s with pending := update s.pending fd false }
  | none => s

/-- Run one handler: the state it leaves, and what it did besides. -/
def handle (s : Sys) : Act → Except Fault (Sys × List Effect)
  | .write x addr val => do
    let c ← ivshmemIoWrite (s.ctx x) addr (val.setWidth 64)
    s.finish c
  | .read _ _ => pure (s, [])
  | .notify x vector => do
    let n ← vectorNotifier (s.ctx x) vector
    let c ← ivshmemVectorNotify (s.ctx x) vector (n.any s.pending)
    (s.testAndClear n).finish c
  | .barRead x w addr size map => do
    let r ← idtBarRead (s.ctx x) (s.ram x.other) map addr size w.idx
    s.finish r.ctx
  | .barWrite x w addr value size map => do
    let r ← idtBarWrite (s.ctx x) (s.ram x.other) map addr value size w.idx
    { s with ram := update s.ram x.other r.mem }.finish r.ctx

def next (s : Sys) (a : Act) : Except Fault Sys := (s.handle a).map Prod.fst

/-- What the guest of `x` reads at an address of BAR 0. -/
def read (s : Sys) (x : Vm) (addr : BitVec 64) : BitVec 64 := ivshmemIoRead (s.ctx x) addr

def regs (s : Sys) (x : Vm) : IdtSharedRegisters := (s.shm.vm x).regs

def barConfig (s : Sys) (x : Vm) : Fin 6 → BARConfig := (s.shm.vm x).barConfig

def lregs (s : Sys) (x : Vm) : IdtLocalRegisters := (s.dev x).lregs

/-- The out-of-spec BAR selectors of both devices are below 6. -/
def SelOk (s : Sys) : Prop := ∀ x, (s.ctx x).SelOk

theorem selOk_iff (s : Sys) : s.SelOk ↔ (s.ctx .vm1).SelOk ∧ (s.ctx .vm2).SelOk := Vm.forall_iff

instance (s : Sys) : Decidable s.SelOk := decidable_of_iff _ s.selOk_iff.symm

section
variable (s : Sys) (x : Vm)

@[simp] theorem ctx_regs : (s.ctx x).regs = s.regs x := rfl

@[simp] theorem ctx_peerRegs : (s.ctx x).peerRegs = s.regs x.other := rfl

@[simp] theorem ctx_barConfig : (s.ctx x).barConfig = s.barConfig x := rfl

@[simp] theorem ctx_peerBarConfig : (s.ctx x).peerBarConfig = s.barConfig x.other := rfl

@[simp] theorem ctx_gregs : (s.ctx x).gregs = s.shm.gregs := rfl

@[simp] theorem ctx_dev : (s.ctx x).dev = s.dev x := rfl

@[simp] theorem ctx_shm : (s.ctx x).shm = s.shm := rfl

@[simp] theorem ctx_out : (s.ctx x).out = [] := rfl

@[simp] theorem testAndClear_shm (n) : (s.testAndClear n).shm = s.shm := by cases n <;> rfl

@[simp] theorem testAndClear_dev (n) : (s.testAndClear n).dev = s.dev := by cases n <;> rfl

@[simp] theorem read_addr (r : ConfigReg) : s.read x r.addr = readReg (s.ctx x) r := by
  simp [read, ivshmemIoRead]

end

theorem finish_ok {s s' : Sys} {x : Vm} {c : Ctx x} {out : List Effect} :
    s.finish c = .ok (s', out) ↔ ∃ pending, c.out.foldlM (deliver c.dev) s.pending = .ok pending ∧
      s' = { s with shm := c.shm, dev := update s.dev x c.dev, pending := pending } ∧
      out = c.out := by
  unfold finish
  rw [bind_ok]
  constructor
  · rintro ⟨pending, h, h'⟩
    cases h'
    exact ⟨pending, h, rfl, rfl⟩
  · rintro ⟨pending, h, rfl, rfl⟩
    exact ⟨pending, h, rfl⟩

theorem next_ok {s s' : Sys} {a : Act} :
    s.next a = .ok s' ↔ ∃ out, s.handle a = .ok (s', out) := by
  unfold next
  cases h : s.handle a with
  | error e => exact ⟨nofun, nofun⟩
  | ok r =>
    constructor
    · intro h'; cases h'; exact ⟨r.2, rfl⟩
    · rintro ⟨out, h'⟩; cases h'; rfl

end Sys

/-- One step of the two devices. -/
def Step (s : Sys) (a : Act) (s' : Sys) : Prop := s.next a = .ok s'

/-! ## What a step can do -/

section
variable {x : Vm} {c c' : Ctx x}

/-- A handler left the registers alone, and of the device at most the peer's id and the mapping
    of its memory changed. -/
def Ctx.Idle (c c' : Ctx x) (idKept : Prop) : Prop :=
  c'.shm = c.shm ∧ ∃ i m, c'.dev = { c.dev with otherVmId := i, peerMem := m } ∧
    (idKept → i = c.dev.otherVmId)

theorem ivshmemVectorNotify_idle {vector : ℕ} {pending : Bool}
    (h : ivshmemVectorNotify c vector pending = .ok c') : c.Idle c' (vector ≠ eventfdVmId) := by
  rcases ivshmemVectorNotify_cases h with ⟨⟨-, hv⟩, rfl⟩ | ⟨-, rfl | ⟨text, rfl⟩ | rfl⟩
  · exact ⟨rfl, _, _, rfl, fun hn => absurd hv hn⟩
  · exact ⟨rfl, _, _, rfl, fun _ => rfl⟩
  · exact ⟨rfl, _, _, rfl, fun _ => rfl⟩
  · exact ⟨rfl, _, _, rfl, fun _ => rfl⟩

theorem idtBarRead_idle {mem : Ram} {map : Bool} {addr : BitVec 64} {size : ℕ} {idx : Fin 6}
    {r : BarRead x} (h : idtBarRead c mem map addr size idx = .ok r) : c.Idle r.ctx True := by
  unfold idtBarRead at h
  dsimp only at h
  split_ifs at h <;> cases h <;> exact ⟨rfl, _, _, rfl, fun _ => rfl⟩

theorem idtBarWrite_idle {mem : Ram} {map : Bool} {addr value : BitVec 64} {size : ℕ} {idx : Fin 6}
    {r : BarWrite x} (h : idtBarWrite c mem map addr value size idx = .ok r) :
    c.Idle r.ctx True := by
  unfold idtBarWrite at h
  dsimp only at h
  split_ifs at h <;> cases h <;> exact ⟨rfl, _, _, rfl, fun _ => rfl⟩

end

section
variable {s s' : Sys} {a : Act}

/-- **What a step can do**: it writes one register, or it changes neither the shared memory nor
    more of a device than the peer's id and the mapping of its memory.  The id changes only when an
    EVENTFD_VM_ID event is handled. -/
theorem next_cases (h : Step s a s') :
    (∃ x r v c, a = .write x r.addr v ∧ writeReg (s.ctx x) r (v.setWidth 64) = .ok c ∧
      s'.shm = c.shm ∧ s'.dev = update s.dev x c.dev) ∨
    ((∀ x (r : ConfigReg) v, a ≠ .write x r.addr v) ∧ s'.shm = s.shm ∧
      ∀ y, ∃ i m, s'.dev y = { s.dev y with otherVmId := i, peerMem := m } ∧
        (a ≠ .notify y eventfdVmId → i = (s.dev y).otherVmId)) := by
  obtain ⟨out, h⟩ := Sys.next_ok.1 h
  -- the device whose handler ran is idle, the other one is untouched
  have hidle : ∀ {s₁ : Sys} {x : Vm} {c : Ctx x} {p : Prop}, s₁.shm = s.shm → s₁.dev = s.dev →
      (s.ctx x).Idle c p → (a ≠ .notify x eventfdVmId → p) → s₁.finish c = .ok (s', out) →
      s'.shm = s.shm ∧ ∀ y, ∃ i m, s'.dev y = { s.dev y with otherVmId := i, peerMem := m } ∧
        (a ≠ .notify y eventfdVmId → i = (s.dev y).otherVmId) := by
    intro s₁ x c p hshm hdev ⟨h1, i, m, h2, h3⟩ hp hf
    obtain ⟨pending, -, rfl, -⟩ := Sys.finish_ok.1 hf
    refine ⟨h1, fun y => ?_⟩
    by_cases hy : y = x
    · subst hy
      refine ⟨i, m, ?_, fun hn => h3 (hp hn)⟩
      simpa using h2
    · refine ⟨(s.dev y).otherVmId, (s.dev y).peerMem, ?_, fun _ => rfl⟩
      simp [hy, hdev]
  cases a with
  | write x addr val =>
    obtain ⟨c, h1, h2⟩ := bind_ok.1 h
    rcases ivshmemIoWrite_cases h1 with ⟨r, rfl, hr⟩ | ⟨hno, rfl⟩
    · obtain ⟨pending, -, rfl, -⟩ := Sys.finish_ok.1 h2
      exact Or.inl ⟨x, r, val, c, rfl, hr, rfl, rfl⟩
    · refine Or.inr ⟨?_, hidle rfl rfl ⟨rfl, _, _, rfl, fun _ => rfl⟩ (fun _ => trivial) h2⟩
      intro y r v hw
      cases hw
      exact hno r rfl
  | read x addr =>
    cases h
    exact Or.inr ⟨fun _ _ _ hw => (by cases hw), rfl, fun y => ⟨_, _, rfl, fun _ => rfl⟩⟩
  | notify x vector =>
    obtain ⟨n, -, h⟩ := bind_ok.1 h
    obtain ⟨c, h1, h2⟩ := bind_ok.1 h
    refine Or.inr ⟨fun _ _ _ hw => (by cases hw),
      hidle (by simp) (by simp) (ivshmemVectorNotify_idle h1) ?_ h2⟩
    intro hn hv
    exact hn (hv ▸ rfl)
  | barRead x w addr size map =>
    obtain ⟨r, h1, h2⟩ := bind_ok.1 h
    exact Or.inr ⟨fun _ _ _ hw => (by cases hw),
      hidle rfl rfl (idtBarRead_idle h1) (fun _ => trivial) h2⟩
  | barWrite x w addr value size map =>
    obtain ⟨r, h1, h2⟩ := bind_ok.1 h
    refine Or.inr ⟨fun _ _ _ hw => (by cases hw),
      hidle ?_ ?_ (idtBarWrite_idle h1) (fun _ => trivial) h2⟩ <;> rfl

/-- No register is written. -/
def Act.NoWrite (a : Act) : Prop := ∀ x (r : ConfigReg) v, a ≠ .write x r.addr v

/-- Seen from one machine, an action is a write by its device, a write by its peer, or none. -/
theorem Act.cases_of (a : Act) (y : Vm) : (∃ (r : ConfigReg) (v : _), a = .write y r.addr v) ∨
    (∃ (r : ConfigReg) (v : _), a = .write y.other r.addr v) ∨ a.NoWrite := by
  by_cases ha : a.NoWrite
  · exact Or.inr (Or.inr ha)
  · simp only [Act.NoWrite, not_forall, not_not] at ha
    obtain ⟨x, r, v, rfl⟩ := ha
    rcases Vm.eq_or_other y x with rfl | rfl
    · exact Or.inl ⟨r, v, rfl⟩
    · exact Or.inr (Or.inl ⟨r, v, rfl⟩)

/-- The step that writes one register. -/
theorem step_write {x : Vm} {r : ConfigReg} {v : BitVec 32} (h : Step s (.write x r.addr v) s') :
    ∃ c, writeReg (s.ctx x) r (v.setWidth 64) = .ok c ∧ s'.shm = c.shm ∧
      s'.dev = update s.dev x c.dev := by
  rcases next_cases h with ⟨x', r', v', c, ha, hc, hshm, hdev⟩ | ⟨ha, -, -⟩
  · simp only [Act.write.injEq, ConfigReg.addr_inj] at ha
    obtain ⟨rfl, rfl, rfl⟩ := ha
    exact ⟨c, hc, hshm, hdev⟩
  · exact absurd rfl (ha x r v)

theorem step_noWrite (ha : a.NoWrite) (h : Step s a s') : s'.shm = s.shm := by
  rcases next_cases h with ⟨x, r, v, c, rfl, -, -, -⟩ | ⟨-, hshm, -⟩
  · exact absurd rfl (ha x r v)
  · exact hshm

/-- The selector is below 6 if the action stores through it. -/
def Sys.SelFor (s : Sys) (a : Act) : Prop :=
  ∀ x (r : ConfigReg) v, a = .write x r.addr v → OofData r → (s.ctx x).SelOk

instance (s : Sys) : (a : Act) → Decidable (s.SelFor a)
  | .write x addr v =>
    decidable_of_iff (∀ r ∈ ConfigReg.decode addr, OofData r → (s.ctx x).SelOk)
      ⟨fun h y r w hw hr => by
        cases hw
        exact h r (ConfigReg.decode_eq_some.2 rfl) hr,
      fun h r hd hr => h x r v (by rw [ConfigReg.decode_eq_some.1 hd]) hr⟩
  | .read _ _ | .notify _ _ | .barRead _ _ _ _ _ | .barWrite _ _ _ _ _ _ =>
    isTrue fun _ _ _ hw => Act.noConfusion hw

theorem Sys.SelOk.selFor (hs : s.SelOk) (a : Act) : s.SelFor a := fun x _ _ _ _ => hs x

/-- A write of another register does not store through the selector. -/
theorem selFor_write {y : Vm} {r : ConfigReg} {v : BitVec 32} (hr : ¬ OofData r) :
    s.SelFor (.write y r.addr v) := by
  intro x r' w hw hr'
  simp only [Act.write.injEq, ConfigReg.addr_inj] at hw
  rw [← hw.2.1] at hr'
  exact absurd hr' hr

/-- A machine's block after a write by its own device. -/
theorem step_own {y : Vm} {r : ConfigReg} {v : BitVec 32} (hs : s.SelFor (.write y r.addr v))
    (h : Step s (.write y r.addr v) s') : s'.regs y = (s.ctx y).regsAfter r (v.setWidth 64) ∧
      s'.barConfig y = (s.ctx y).barConfigAfter r (v.setWidth 64) := by
  obtain ⟨c, hc, hshm, -⟩ := step_write h
  obtain ⟨⟨h1, h2⟩, -⟩ := writeReg_blocks (hs y r v rfl) hc
  rw [← h1, ← h2]
  simp [Sys.regs, Ctx.regs, Sys.barConfig, Ctx.barConfig, hshm]

/-- A machine's block after a write by its peer's device. -/
theorem step_peer {y : Vm} {r : ConfigReg} {v : BitVec 32}
    (hs : s.SelFor (.write y.other r.addr v)) (h : Step s (.write y.other r.addr v) s') :
    s'.regs y = (s.ctx y.other).peerRegsAfter r (v.setWidth 64) ∧
      s'.barConfig y = (s.ctx y.other).peerBarConfigAfter r (v.setWidth 64) := by
  obtain ⟨c, hc, hshm, -⟩ := step_write h
  obtain ⟨-, h1, h2⟩ := writeReg_blocks (hs y.other r v rfl) hc
  rw [← h1, ← h2]
  simp [Sys.regs, Ctx.peerRegs, Sys.barConfig, Ctx.peerBarConfig, hshm]

/-- **A machine's block after a step**: the device's own writes and those of its peer. -/
theorem step_block (hs : s.SelFor a) (h : Step s a s') (y : Vm) :
    (∃ r v, a = .write y r.addr v ∧ s'.regs y = (s.ctx y).regsAfter r (v.setWidth 64) ∧
      s'.barConfig y = (s.ctx y).barConfigAfter r (v.setWidth 64)) ∨
    (∃ r v, a = .write y.other r.addr v ∧
      s'.regs y = (s.ctx y.other).peerRegsAfter r (v.setWidth 64) ∧
      s'.barConfig y = (s.ctx y.other).peerBarConfigAfter r (v.setWidth 64)) ∨
    (a.NoWrite ∧ s'.regs y = s.regs y ∧ s'.barConfig y = s.barConfig y) := by
  rcases a.cases_of y with ⟨r, v, rfl⟩ | ⟨r, v, rfl⟩ | ha
  · exact Or.inl ⟨r, v, rfl, step_own hs h⟩
  · exact Or.inr (Or.inl ⟨r, v, rfl, step_peer hs h⟩)
  · refine Or.inr (Or.inr ⟨ha, ?_⟩)
    simp [Sys.regs, Sys.barConfig, step_noWrite ha h]

/-- The global registers after a step. -/
theorem step_gregs (h : Step s a s') :
    (∃ x r v, a = .write x r.addr v ∧ s'.shm.gregs = (s.ctx x).gregsAfter r (v.setWidth 64)) ∨
    (a.NoWrite ∧ s'.shm.gregs = s.shm.gregs) := by
  rcases next_cases h with ⟨x, r, v, c, ha, hc, hshm, -⟩ | ⟨ha, hshm, -⟩
  · refine Or.inl ⟨x, r, v, ha, ?_⟩
    rw [← writeReg_gregs hc]
    simp [Ctx.gregs, hshm]
  · exact Or.inr ⟨ha, by simp [hshm]⟩

/-- A device after a step: its own local registers, the peer's id and the mapping. -/
theorem step_dev (h : Step s a s') (y : Vm) :
    ∃ l i m, s'.dev y = { s.dev y with lregs := l, otherVmId := i, peerMem := m } ∧
      (a ≠ .notify y eventfdVmId → i = (s.dev y).otherVmId) ∧
      ((∃ r v, a = .write y r.addr v ∧ l = (s.ctx y).lregsAfter r (v.setWidth 64)) ∨
        ((∀ (r : ConfigReg) v, a ≠ .write y r.addr v) ∧ l = (s.dev y).lregs)) := by
  rcases next_cases h with ⟨x, r, v, c, ha, hc, -, hdev⟩ | ⟨ha, -, hdev⟩
  · by_cases hy : y = x
    · subst hy
      refine ⟨_, (s.dev y).otherVmId, (s.dev y).peerMem, ?_, fun _ => rfl,
        Or.inl ⟨r, v, ha, rfl⟩⟩
      simp [hdev, writeReg_dev hc]
    · refine ⟨(s.dev y).lregs, (s.dev y).otherVmId, (s.dev y).peerMem, ?_, fun _ => rfl,
        Or.inr ⟨?_, rfl⟩⟩
      · simp [hdev, hy]
      · rintro r' v' rfl
        simp only [Act.write.injEq] at ha
        exact hy ha.1
  · obtain ⟨i, m, h1, h2⟩ := hdev y
    exact ⟨(s.dev y).lregs, i, m, h1, h2, Or.inr ⟨fun r v => ha y r v, rfl⟩⟩

/-- Only a window write reaches the memories. -/
theorem step_ram (h : Step s a s')
    (ha : ∀ x w addr value size map, a ≠ .barWrite x w addr value size map) : s'.ram = s.ram := by
  obtain ⟨out, h⟩ := Sys.next_ok.1 h
  have hfin : ∀ {s₁ : Sys} {x : Vm} {c : Ctx x}, s₁.finish c = .ok (s', out) → s'.ram = s₁.ram := by
    intro s₁ x c hf
    obtain ⟨pending, -, rfl, -⟩ := Sys.finish_ok.1 hf
    rfl
  cases a with
  | write x addr v =>
    obtain ⟨c, -, hf⟩ := bind_ok.1 h
    exact hfin hf
  | read x addr =>
    cases h
    rfl
  | notify x vector =>
    obtain ⟨n, -, h⟩ := bind_ok.1 h
    obtain ⟨c, -, hf⟩ := bind_ok.1 h
    rw [hfin hf]
    cases n <;> rfl
  | barRead x w addr size map =>
    obtain ⟨r, -, hf⟩ := bind_ok.1 h
    exact hfin hf
  | barWrite x w addr value size map => exact absurd rfl (ha x w addr value size map)

/-- The ids in the shared memory stay as they are. -/
theorem step_id (hs : s.SelFor a) (h : Step s a s') (y : Vm) :
    (s'.shm.vm y).id = (s.shm.vm y).id := by
  rcases next_cases h with ⟨x, r, v, c, rfl, hc, hshm, -⟩ | ⟨-, hshm, -⟩
  · rw [hshm, writeReg_id (hs x r v rfl) hc]
    rfl
  · rw [hshm]

/-- The peer table and the device's own id stay as they are. -/
theorem step_peers (h : Step s a s') (y : Vm) :
    (s'.dev y).peers = (s.dev y).peers ∧ (s'.dev y).vmId = (s.dev y).vmId ∧
      (s'.dev y).bars = (s.dev y).bars := by
  obtain ⟨l, i, m, h1, -⟩ := step_dev h y
  rw [h1]
  exact ⟨rfl, rfl, rfl⟩

/-- The peer's id changes only with an EVENTFD_VM_ID event. -/
theorem step_otherVmId (h : Step s a s') {y : Vm} (ha : a ≠ .notify y eventfdVmId) :
    (s'.dev y).otherVmId = (s.dev y).otherVmId := by
  obtain ⟨l, i, m, h1, h2, -⟩ := step_dev h y
  rw [h1]
  exact h2 ha

/-- The selector of `z` after an action. -/
def selAfter (z : Vm) (sel : BitVec 32) : Act → BitVec 32
  | .write w addr v => if w = z ∧ addr = ConfigReg.oofLutoff.addr then v else sel
  | _ => sel

/-- Only a machine's own LUTOFF writes move its selector. -/
theorem step_selector (h : Step s a s') (z : Vm) :
    (s'.lregs z).inboundMwBar = selAfter z (s.lregs z).inboundMwBar a := by
  obtain ⟨l, i, m, hdev, -, hl⟩ := step_dev h z
  have hl' : s'.lregs z = l := by rw [Sys.lregs, hdev]
  rw [hl']
  rcases hl with ⟨r, v, rfl, rfl⟩ | ⟨ha, rfl⟩
  · unfold Ctx.lregsAfter selAfter
    cases r <;> simp [Sys.lregs]
  · unfold selAfter
    cases a with
    | write w addr v =>
      refine (if_neg ?_).symm
      rintro ⟨rfl, rfl⟩
      exact ha _ _ rfl
    | _ => rfl

end

/-! ## Quiet runs -/

/-- The device of `y` handles no EVENTFD_VM_ID event. -/
def Quiet (y : Vm) (t : List (Sys × Act)) : Prop := ∀ e ∈ t, e.2 ≠ .notify y eventfdVmId

instance (y : Vm) (t : List (Sys × Act)) : Decidable (Quiet y t) :=
  inferInstanceAs (Decidable (∀ e ∈ t, e.2 ≠ _))

theorem Quiet.otherVmId {s₀ s : Sys} {t : List (Sys × Act)} {y : Vm} (hq : Quiet y t)
    (h : Run Step s₀ t s) : (s.dev y).otherVmId = (s₀.dev y).otherVmId := by
  refine Run.inv_of (fun s => (s.dev y).otherVmId = (s₀.dev y).otherVmId)
    (fun e => e.2 ≠ Act.notify y eventfdVmId) rfl ?_ h hq
  intro s a s' hi ha hst
  exact (step_otherVmId hst ha).trans hi

/-! ## Two started machines -/

/-- The device of `x` after the first machine and then the second joined a server that gave them
    the ids 0 and 1. -/
def startedDev (x : Vm) : IVShmemState x :=
  { IVShmemState.init x 2 (fun _ => default) 0 with
    ivshmemBar2 := some ⟨0, 0⟩
    vmId := match x with
      | .vm1 => 0
      | .vm2 => 1
    otherVmId := match x with
      | .vm1 => 1
      | .vm2 => 0
    realized := true
    peers := [⟨2, [some ⟨0, 0⟩, some ⟨0, 1⟩], true⟩, ⟨2, [some ⟨1, 0⟩, some ⟨1, 1⟩], true⟩]
    msiVectors := some [⟨true, 0, false⟩, ⟨true, 0, false⟩] }

/-- The shared memory that their realize functions leave. -/
def startedShm : IdtIvshmemShmStorage :=
  let m := (realizeRegs (⟨default, startedDev .vm1, []⟩)).shm
  let m := (realizeRegs (⟨m, startedDev .vm2, []⟩)).shm
  (m.modVm .vm1 fun b => { b with id := 0 }).modVm .vm2 fun b => { b with id := 1 }

/-- Both machines are up and know each other, and the guests have not touched the devices. -/
def Sys.started : Sys where
  shm := startedShm
  dev := startedDev
  pending _ := false
  ram _ := ⟨2 ^ 30, by decide, fun _ => 0⟩

end IdtNtb
