/-
  What a reset does to the registers.

  `ivshmem_reset` is about the interrupt vectors: it takes back what irqfd mode
  has set up for them.  It touches neither the shared memory nor the local
  registers, so a guest that boots again finds what the one before it left:

  * `reset_fades` traces the interrupt vectors through a reset: nothing else of
    the device changes, and no vector gets a handler or a route;
  * `next_withMsi`: the handlers do not look at the interrupt vectors, but for
    whether one that is notified has a handler;
  * `resets_leave_registers`: accesses with resets among them lead to the same
    registers as the accesses alone.
-/
import IdtNtb.Irqfd
import IdtNtb.System

namespace IdtNtb

open Function (update)
open Runs

variable {x : Vm}

/-! ## The interrupt vectors during a reset -/

namespace Irqfd

variable {s s' s'' : Irqfd x} {vector : ℕ} {e e' : MSIVector} {l : List Notice} {removes : ℕ → ℤ}

/-- Of the device at most the interrupt vectors have changed, and those that are set up were set up
    before. -/
structure Fades (s s' : Irqfd x) : Prop where
  shm : s'.ctx.shm = s.ctx.shm
  dev : ∃ ms, s'.ctx.dev = { s.ctx.dev with msiVectors := ms }
  pdev : ∀ v e', s'.entry v = some e' → e'.pdev = true → ∃ e, s.entry v = some e ∧ e.pdev = true

namespace Fades

theorem refl (s : Irqfd x) : Fades s s := ⟨rfl, ⟨_, rfl⟩, fun _ e he hp => ⟨e, he, hp⟩⟩

theorem trans (h : Fades s s') (h' : Fades s' s'') : Fades s s'' := by
  obtain ⟨ms, hdev⟩ := h.dev
  obtain ⟨ms', hdev'⟩ := h'.dev
  refine ⟨h'.shm.trans h.shm, ⟨ms', by rw [hdev', hdev]⟩, ?_⟩
  intro v e' he' hp
  obtain ⟨e, he, hp⟩ := h'.pdev v e' he' hp
  exact h.pdev v e he hp

theorem report (s : Irqfd x) (msg : String) : Fades s (s.report msg) :=
  ⟨rfl, ⟨_, rfl⟩, fun _ e he hp => ⟨e, he, hp⟩⟩

theorem store (he : s.entry vector = some e) (hp : e'.pdev = true → e.pdev = true) :
    Fades s (s.store vector e') := by
  refine ⟨rfl, ⟨_, rfl⟩, fun v e₁ he₁ hp₁ => ?_⟩
  rw [entry_store he] at he₁
  by_cases hv : v = vector
  · subst hv
    rw [Function.update_self] at he₁
    cases he₁
    exact ⟨e, he, hp hp₁⟩
  · rw [Function.update_of_ne hv] at he₁
    exact ⟨e₁, he₁, hp₁⟩

theorem move (k : KvmCall) (he : s.entry vector = some e) (hp : e'.pdev = true → e.pdev = true) :
    Fades s ((s.call vector k).store vector e') :=
  have hcall : Fades s (s.call vector k) := ⟨rfl, ⟨_, rfl⟩, fun _ e he hp => ⟨e, he, hp⟩⟩
  hcall.trans (store he hp)

end Fades

end Irqfd

section
variable {s s' : Irqfd x} {vector : ℕ} {notices : List Notice} {removes : ℕ → ℤ}

open Irqfd

theorem unmask_fades {update add ret : ℤ}
    (h : ivshmemVectorUnmask s vector update add = .ok (s', ret)) : Fades s s' := by
  obtain ⟨n, -, h⟩ := bind_ok.1 h
  obtain ⟨v, hv, h⟩ := bind_ok.1 h
  split_ifs at h with hp
  · cases h
    exact .report s _
  · cases h
    exact .refl s
  · cases h
    exact .refl s
  · cases h
    exact .move _ (entry_of_msiVector hv) id

theorem mask_fades {remove : ℤ} (h : ivshmemVectorMask s vector remove = .ok s') : Fades s s' := by
  obtain ⟨n, -, h⟩ := bind_ok.1 h
  obtain ⟨v, hv, h⟩ := bind_ok.1 h
  split_ifs at h with hp
  · cases h
    exact .report s _
  · cases h
    exact .report s _
  · cases h
    exact .move _ (entry_of_msiVector hv) id

theorem remove_fades (h : ivshmemRemoveKvmMsiVirq s vector = .ok s') : Fades s s' := by
  obtain ⟨v, hv, h⟩ := bind_ok.1 h
  split_ifs at h with hp
  · cases h
    exact .refl s
  · cases h
    exact .move _ (entry_of_msiVector hv) (by simp)

theorem notice_fades {m : Notice} (h : s.notice m = .ok s') : Fades s s' := by
  cases m with
  | unmask v update add =>
    obtain ⟨⟨s₁, ret⟩, h₁, h⟩ := bind_ok.1 h
    have hf := unmask_fades h₁
    cases h
    by_cases hret : ret < 0
    · rw [if_pos hret]
      exact hf
    · rw [if_neg hret]
      exact ⟨hf.shm, hf.dev, hf.pdev⟩
  | mask v remove =>
    obtain ⟨s₁, h₁, h⟩ := bind_ok.1 h
    have hf := mask_fades h₁
    cases h
    exact ⟨hf.shm, hf.dev, hf.pdev⟩

theorem notices_fade (h : exec Irqfd.notice s notices = .ok s') : Fades s s' := by
  induction notices generalizing s with
  | nil =>
    cases h
    exact .refl _
  | cons m l ih =>
    obtain ⟨s₁, h₁, h⟩ := bind_ok.1 h
    exact (notice_fades h₁).trans (ih h)

theorem disableVirq_fades {i : ℕ} (h : disableVirq removes s i = .ok s') : Fades s s' := by
  obtain ⟨v, -, h⟩ := bind_ok.1 h
  dsimp only at h
  split_ifs at h
  · obtain ⟨s₁, h₁, h⟩ := bind_ok.1 h
    exact (mask_fades h₁).trans (remove_fades h)
  · exact remove_fades h

theorem disableVirqs_fade {l : List ℕ} (h : l.foldlM (disableVirq removes) s = .ok s') :
    Fades s s' := by
  induction l generalizing s with
  | nil =>
    cases h
    exact .refl _
  | cons i l ih =>
    rw [List.foldlM_cons] at h
    obtain ⟨s₁, h₁, h⟩ := bind_ok.1 h
    exact (disableVirq_fades h₁).trans (ih h)

/-- **A reset changes only the interrupt vectors**, and sets none of them up. -/
theorem reset_fades (h : ivshmemReset s notices removes = .ok s') : Fades s s' := by
  unfold ivshmemReset ivshmemDisableIrqfd at h
  split_ifs at h
  · cases h
    exact .refl s
  · obtain ⟨s₁, h₁, h⟩ := bind_ok.1 h
    obtain ⟨p, -, h⟩ := bind_ok.1 h
    have hf := notices_fade h₁
    have hloop := disableVirqs_fade h
    refine hf.trans (Fades.trans ?_ hloop)
    exact ⟨rfl, ⟨_, rfl⟩, fun v e he hp => ⟨e, he, hp⟩⟩

end

/-! ## Handlers and interrupt vectors -/

def IVShmemState.withMsi (d : IVShmemState x) (ms : Option (List MSIVector)) : IVShmemState x :=
  { d with msiVectors := ms }

def Ctx.withMsi (c : Ctx x) (ms : Option (List MSIVector)) : Ctx x := c.modDev (·.withMsi ms)

section
variable (c : Ctx x) (ms : Option (List MSIVector))

theorem writeOutboundMsg_withMsi (index : ℤ) (val : BitVec 64) :
    writeOutboundMsg (c.withMsi ms) index val = (writeOutboundMsg c index val).withMsi ms := by
  unfold writeOutboundMsg
  simp only [apply_dite (Ctx.withMsi · ms), apply_ite (Ctx.withMsi · ms)]
  rfl

theorem writeGasadata_withMsi (val : BitVec 64) :
    writeGasadata (c.withMsi ms) val = (writeGasadata c val).withMsi ms := by
  unfold writeGasadata
  have hd : (c.withMsi ms).dev.lregs = c.dev.lregs := rfl
  rw [hd]
  split <;> rfl

theorem setNtMtbData_withMsi (val : BitVec 32) :
    setNtMtbData (c.withMsi ms) val = (setNtMtbData c val).withMsi ms := by
  unfold setNtMtbData
  simp only [apply_ite (Ctx.withMsi · ms)]
  rfl

theorem writeReg_withMsi (r : ConfigReg) (val : BitVec 64) :
    writeReg (c.withMsi ms) r val = (writeReg c r val).map (·.withMsi ms) := by
  cases r with
  | outmsg i => exact congrArg Except.ok (writeOutboundMsg_withMsi c ms i val)
  | gasadata => exact congrArg Except.ok (writeGasadata_withMsi c ms val)
  | ntmtbldata => exact congrArg Except.ok (setNtMtbData_withMsi c ms _)
  | outdbellset =>
    simp only [writeReg, apply_ite (Except.map (Ctx.withMsi · ms))]
    rfl
  | ntgsignal =>
    simp only [writeReg, apply_ite (Except.map (Ctx.withMsi · ms))]
    rfl
  | _ => rfl

theorem ivshmemIoWrite_withMsi (addr val : BitVec 64) :
    ivshmemIoWrite (c.withMsi ms) addr val = (ivshmemIoWrite c addr val).map (·.withMsi ms) := by
  unfold ivshmemIoWrite
  cases ConfigReg.decode addr with
  | some r => exact writeReg_withMsi c ms r val
  | none => rfl

theorem ivshmemIoRead_withMsi (addr : BitVec 64) :
    ivshmemIoRead (c.withMsi ms) addr = ivshmemIoRead c addr := by
  unfold ivshmemIoRead
  cases ConfigReg.decode addr with
  | some r => cases r <;> rfl
  | none => rfl

theorem ivshmemVectorNotify_withMsi (vector : ℕ) (pending : Bool) :
    ivshmemVectorNotify (c.withMsi ms) vector pending =
      (ivshmemVectorNotify c vector pending).map (·.withMsi ms) := by
  unfold ivshmemVectorNotify
  simp only [apply_ite (Except.map (Ctx.withMsi · ms))]
  rfl

theorem idtBarRead_withMsi (mem : Ram) (map : Bool) (addr : BitVec 64) (size : ℕ) (idx : Fin 6) :
    idtBarRead (c.withMsi ms) mem map addr size idx =
      (idtBarRead c mem map addr size idx).map fun r => { r with ctx := r.ctx.withMsi ms } := by
  unfold idtBarRead
  simp only [apply_ite (Except.map fun r : BarRead x => { r with ctx := r.ctx.withMsi ms })]
  rfl

theorem idtBarWrite_withMsi (mem : Ram) (map : Bool) (addr value : BitVec 64) (size : ℕ)
    (idx : Fin 6) : idtBarWrite (c.withMsi ms) mem map addr value size idx =
      (idtBarWrite c mem map addr value size idx).map
        fun r => { r with ctx := r.ctx.withMsi ms } := by
  unfold idtBarWrite
  simp only [apply_ite (Except.map fun r : BarWrite x => { r with ctx := r.ctx.withMsi ms })]
  rfl

end

/-- A vector that is set up in the second array is set up in the first. -/
def Covers (ms ms' : Option (List MSIVector)) : Prop :=
  ∀ (v : ℕ) (e' : MSIVector), ms'.bind (·[v]?) = some e' → e'.pdev = true →
    ∃ e : MSIVector, ms.bind (·[v]?) = some e ∧ e.pdev = true

theorem vectorNotifier_withMsi {c : Ctx x} {ms : Option (List MSIVector)} {vector : ℕ}
    {n : Option Fd} (hm : Covers c.dev.msiVectors ms)
    (h : vectorNotifier (c.withMsi ms) vector = .ok n) : vectorNotifier c vector = .ok n := by
  obtain ⟨e', he', h⟩ := bind_ok.1 h
  split_ifs at h with hp
  obtain ⟨e, he, hpe⟩ := hm vector e'
    (Irqfd.entry_of_msiVector (s := ⟨c.withMsi ms, false, false, fun _ => false, []⟩) he') hp
  unfold vectorNotifier
  rw [Irqfd.msiVector_entry (s := ⟨c, false, false, fun _ => false, []⟩) he]
  dsimp only [bind, Except.bind]
  rw [if_pos hpe]
  exact h

namespace Sys

/-- The two machines with other interrupt vectors. -/
def withMsi (s : Sys) (ms : Vm → Option (List MSIVector)) : Sys :=
  { s with dev := fun x => (s.dev x).withMsi (ms x) }

variable {s s' : Sys} {ms : Vm → Option (List MSIVector)} {out : List Effect}

theorem finish_withMsi {c : Ctx x} (h : (s.withMsi ms).finish (c.withMsi (ms x)) = .ok (s', out)) :
    ∃ s₁, s.finish c = .ok (s₁, out) ∧ s' = s₁.withMsi ms := by
  obtain ⟨pending, hpend, rfl, rfl⟩ := finish_ok.1 h
  refine ⟨_, finish_ok.2 ⟨pending, ?_, rfl, rfl⟩, ?_⟩
  · rw [← hpend]
    congr 1
  · unfold withMsi
    congr 1
    funext y
    by_cases hy : y = x
    · subst hy
      simp only [Function.update_self]
      rfl
    · simp only [Function.update_of_ne hy]

/-- **The handlers do not look at the interrupt vectors**, but for the one that is notified. -/
theorem next_withMsi {a : Act} (hm : ∀ x, Covers (s.dev x).msiVectors (ms x))
    (h : (s.withMsi ms).next a = .ok s') : ∃ s₁, s.next a = .ok s₁ ∧ s' = s₁.withMsi ms := by
  obtain ⟨out, h⟩ := next_ok.1 h
  suffices hh : ∃ s₁, s.handle a = .ok (s₁, out) ∧ s' = s₁.withMsi ms by
    obtain ⟨s₁, h₁, hs₁⟩ := hh
    exact ⟨s₁, next_ok.2 ⟨out, h₁⟩, hs₁⟩
  cases a with
  | write x addr val =>
    obtain ⟨c', h₁, h₂⟩ := bind_ok.1 h
    obtain ⟨c, hc, rfl⟩ := map_ok.1 ((ivshmemIoWrite_withMsi (s.ctx x) (ms x) _ _).symm.trans h₁)
    obtain ⟨s₁, hs₁, rfl⟩ := finish_withMsi h₂
    exact ⟨s₁, bind_ok.2 ⟨c, hc, hs₁⟩, rfl⟩
  | read x addr =>
    cases h
    exact ⟨s, rfl, rfl⟩
  | notify x vector =>
    obtain ⟨n, hn, h⟩ := bind_ok.1 h
    obtain ⟨c', h₁, h₂⟩ := bind_ok.1 h
    obtain ⟨c, hc, rfl⟩ :=
      map_ok.1 ((ivshmemVectorNotify_withMsi (s.ctx x) (ms x) _ _).symm.trans h₁)
    have htest : (s.withMsi ms).testAndClear n = (s.testAndClear n).withMsi ms := by
      cases n <;> rfl
    rw [htest] at h₂
    obtain ⟨s₁, hs₁, rfl⟩ := finish_withMsi h₂
    exact ⟨s₁, bind_ok.2 ⟨n, vectorNotifier_withMsi (hm x) hn, bind_ok.2 ⟨c, hc, hs₁⟩⟩, rfl⟩
  | barRead x w addr size map =>
    obtain ⟨r', h₁, h₂⟩ := bind_ok.1 h
    obtain ⟨r, hr, rfl⟩ :=
      map_ok.1 ((idtBarRead_withMsi (s.ctx x) (ms x) _ _ _ _ _).symm.trans h₁)
    obtain ⟨s₁, hs₁, rfl⟩ := finish_withMsi h₂
    exact ⟨s₁, bind_ok.2 ⟨r, hr, hs₁⟩, rfl⟩
  | barWrite x w addr value size map =>
    obtain ⟨r', h₁, h₂⟩ := bind_ok.1 h
    obtain ⟨r, hr, rfl⟩ :=
      map_ok.1 ((idtBarWrite_withMsi (s.ctx x) (ms x) _ _ _ _ _ _).symm.trans h₁)
    obtain ⟨s₁, hs₁, rfl⟩ :=
      finish_withMsi (s := { s with ram := update s.ram x.other r.mem }) h₂
    exact ⟨s₁, bind_ok.2 ⟨r, hr, hs₁⟩, rfl⟩

end Sys

/-! ## Two machines that are reset -/

/-- What the MSI-X core and KVM keep about a device. -/
structure Msix where
  msixEnabled : Bool
  useNotifier : Bool
  inUse : ℕ → Bool
  kvm : List (ℕ × KvmCall)

/-- The two machines, with what the MSI-X cores keep. -/
structure Machines where
  sys : Sys
  msix : Vm → Msix

/-- What happens to the machines. -/
inductive MachineAct where
  | act (a : Act)
  /-- The machine of `x` is reset. -/
  | reset (x : Vm) (notices : List Notice) (removes : ℕ → ℤ)

def MachineAct.act? : MachineAct → Option Act
  | .act a => some a
  | .reset _ _ _ => none

namespace Machines

def irqfd (m : Machines) (x : Vm) : Irqfd x :=
  let core := m.msix x
  ⟨m.sys.ctx x, core.msixEnabled, core.useNotifier, core.inUse, core.kvm⟩

/-- Take over what `ivshmem_reset` left.  The core disables MSI-X. -/
def put (m : Machines) (s : Irqfd x) : Machines where
  sys := { m.sys with shm := s.ctx.shm, dev := update m.sys.dev x s.ctx.dev }
  msix := update m.msix x ⟨false, s.useNotifier, s.inUse, s.kvm⟩

def next (m : Machines) : MachineAct → Except Fault Machines
  | .act a => do
    let s ← m.sys.next a
    pure { m with sys := s }
  | .reset x notices removes => do
    let s ← ivshmemReset (m.irqfd x) notices removes
    pure (m.put s)

end Machines

/-- All registers are the same, and read the same. -/
structure SameRegisters (s s' : Sys) : Prop where
  shm : s'.shm = s.shm
  lregs : ∀ x, s'.lregs x = s.lregs x
  read : ∀ x addr, s'.read x addr = s.read x addr

theorem SameRegisters.withMsi (s : Sys) (ms : Vm → Option (List MSIVector)) :
    SameRegisters s (s.withMsi ms) :=
  ⟨rfl, fun _ => rfl, fun x addr => ivshmemIoRead_withMsi (s.ctx x) (ms x) addr⟩

/-- The machines are those of `s` but for the interrupt vectors, of which none is set up that is not
    set up there. -/
def Erased (s : Sys) (m : Machines) : Prop :=
  ∃ ms, m.sys = s.withMsi ms ∧ ∀ x, Covers (s.dev x).msiVectors (ms x)

theorem erased_self (m : Machines) : Erased m.sys m :=
  ⟨fun x => (m.sys.dev x).msiVectors, rfl, fun _ _ e he hp => ⟨e, he, hp⟩⟩

/-- The devices keep their interrupt vectors in a step of the machines. -/
theorem erased_act {s : Sys} {m m' : Machines} {a : Act} (h : Erased s m)
    (hst : m.next (.act a) = .ok m') : ∃ s', s.next a = .ok s' ∧ Erased s' m' := by
  obtain ⟨ms, hms, hcov⟩ := h
  obtain ⟨t, ht, hst⟩ := bind_ok.1 hst
  cases hst
  rw [hms] at ht
  obtain ⟨s', hs', rfl⟩ := Sys.next_withMsi hcov ht
  refine ⟨s', hs', ms, rfl, fun x => ?_⟩
  obtain ⟨l, i, p, hdev, -⟩ := step_dev hs' x
  rw [hdev]
  exact hcov x

/-- A reset changes nothing else. -/
theorem erased_reset {s : Sys} {m m' : Machines} {notices : List Notice} {removes : ℕ → ℤ}
    (h : Erased s m) (hst : m.next (.reset x notices removes) = .ok m') : Erased s m' := by
  obtain ⟨ms, hms, hcov⟩ := h
  obtain ⟨t, ht, hst⟩ := bind_ok.1 hst
  cases hst
  obtain ⟨hshm, ⟨ms', hdev⟩, hpdev⟩ := reset_fades ht
  refine ⟨update ms x ms', ?_, fun y => ?_⟩
  · unfold Machines.put
    rw [hshm, hdev]
    unfold Machines.irqfd
    rw [hms]
    unfold Sys.withMsi
    dsimp only
    congr 1
    funext y
    by_cases hy : y = x
    · subst hy
      rw [Function.update_self, Function.update_self]
      rfl
    · rw [Function.update_of_ne hy, Function.update_of_ne hy]
  · by_cases hy : y = x
    · subst hy
      rw [Function.update_self]
      intro v e' he' hp'
      have hentry : t.entry v = some e' := by
        unfold Irqfd.entry
        rw [hdev]
        exact he'
      obtain ⟨e, he, hp⟩ := hpdev v e' hentry hp'
      refine hcov y v e ?_ hp
      have hold : (m.sys.dev y).msiVectors.bind (·[v]?) = some e := he
      rw [hms] at hold
      exact hold
    · rw [Function.update_of_ne hy]
      exact hcov y

/-- **One step** of the machines is followed without the resets. -/
theorem erased_step (s : Sys) (m : Machines) (a : MachineAct) (m' : Machines) (h : Erased s m)
    (hst : m.next a = .ok m') :
    ∃ s', exec Sys.next s (MachineAct.act? a).toList = .ok s' ∧ Erased s' m' := by
  cases a with
  | act a =>
    obtain ⟨s', hs', h'⟩ := erased_act h hst
    refine ⟨s', ?_, h'⟩
    show (s.next a).bind Except.ok = .ok s'
    rw [hs']
    rfl
  | reset x notices removes => exact ⟨s, rfl, erased_reset h hst⟩

theorem Erased.sameRegisters {s : Sys} {m : Machines} (h : Erased s m) : SameRegisters s m.sys := by
  obtain ⟨ms, hms, -⟩ := h
  rw [hms]
  exact .withMsi s ms

/-- **Of the device that is reset** at most the interrupt vectors change, and of the other one
    nothing. -/
theorem machines_fade {m m' : Machines} {notices : List Notice} {removes : ℕ → ℤ}
    (hst : m.next (.reset x notices removes) = .ok m') :
    (m.irqfd x).Fades (m'.irqfd x) ∧ m'.sys.dev x.other = m.sys.dev x.other := by
  obtain ⟨t, ht, hst⟩ := bind_ok.1 hst
  cases hst
  obtain ⟨hshm, hdev, hpdev⟩ := reset_fades ht
  have hself : ((m.put t).irqfd x).ctx.dev = t.ctx.dev := Function.update_self _ _ _
  refine ⟨⟨hshm, ?_, fun v e he => ?_⟩, Function.update_of_ne (Vm.other_ne x) _ _⟩
  · rw [hself]
    exact hdev
  · refine hpdev v e ?_
    unfold Irqfd.entry at he ⊢
    rw [← hself]
    exact he

/-- **Resets leave all registers as they are.**  After any accesses, notifications and resets of
    both machines, the registers are those of the accesses and notifications alone.  One more reset
    changes none of them, of either machine, and of the devices at most the interrupt vectors of the
    one that is reset, of which it sets none up. -/
theorem resets_leave_registers {m m' : Machines} {l : List MachineAct}
    (h : exec Machines.next m l = .ok m') :
    (∃ s, exec Sys.next m.sys (l.filterMap MachineAct.act?) = .ok s ∧ SameRegisters s m'.sys) ∧
      ∀ x notices removes m'', m'.next (.reset x notices removes) = .ok m'' →
        SameRegisters m'.sys m''.sys ∧ (m'.irqfd x).Fades (m''.irqfd x) ∧
          m''.sys.dev x.other = m'.sys.dev x.other := by
  constructor
  · obtain ⟨s, hs, h'⟩ := exec_erase Erased MachineAct.act? erased_step (erased_self m) h
    exact ⟨s, hs, h'.sameRegisters⟩
  · intro x notices removes m'' hst
    exact ⟨(erased_reset (erased_self m') hst).sameRegisters, machines_fade hst⟩

/-- Both machines are up, and neither has enabled MSI-X. -/
def Machines.started : Machines where
  sys := Sys.started
  msix _ := ⟨false, false, fun _ => false, []⟩

/-- The second machine has enabled MSI-X in irqfd mode, so that its vectors have routes. -/
def Machines.routed : Machines where
  sys := Sys.started
  msix x := ⟨x = .vm2, x = .vm2, fun _ => false, []⟩

/-- The first guest sends a message, and the second one makes its BAR 2 a window; then the second
    machine is reset. -/
def mailThenReset : List MachineAct :=
  [.act (.write .vm1 (ConfigReg.outmsg 0).addr 7),
    .act (.write .vm2 (ConfigReg.bar .limit 2).addr 0x100000), .reset .vm2 [] fun _ => 0]

theorem resets_leave_registers_mail : ∃ m, exec Machines.next .routed mailThenReset = .ok m ∧
    ((∃ s, exec Sys.next Machines.routed.sys (mailThenReset.filterMap MachineAct.act?) = .ok s ∧
        SameRegisters s m.sys) ∧
      ∀ x notices removes m'', m.next (.reset x notices removes) = .ok m'' →
        SameRegisters m.sys m''.sys ∧ (m.irqfd x).Fades (m''.irqfd x) ∧
          m''.sys.dev x.other = m.sys.dev x.other) := by
  refine ⟨_, rfl, resets_leave_registers (m := .routed) (l := mailThenReset) rfl⟩

/-- What the guest of `x` reads right after realize on zeroed shared memory. -/
def readAtPowerOn (x : Vm) (addr : BitVec 64) : BitVec 64 :=
  ivshmemIoRead (realizeRegs ⟨default, startedDev x, []⟩) addr

/-- **A reset keeps the mail and the windows**: the slot of the message stays full, and the window
    active, where a device that comes up has an empty slot and no window. -/
theorem reset_keeps_mail : ∃ m, exec Machines.next .started mailThenReset = .ok m ∧
    m.sys.read .vm2 ConfigReg.msgsts.addr ≠ readAtPowerOn .vm2 ConfigReg.msgsts.addr ∧
    m.sys.read .vm2 (ConfigReg.bar .limit 2).addr ≠
      readAtPowerOn .vm2 (ConfigReg.bar .limit 2).addr := by
  refine ⟨_, rfl, by decide +kernel, by decide +kernel⟩

end IdtNtb
