/-
  The device state and the handlers of BAR 0.

  A handler runs on a `Ctx`: the shared memory, the state of its own device, and
  the notifications it has sent so far (`out`).  The registers of the device
  itself are the block `x` of the shared memory (`regs`), those of its peer the
  block `x.other` (`peerRegs`).

  `ivshmemIoWrite` fails only where the source asserts.  Debug output is left
  out.
-/
import IdtNtb.Regs

namespace IdtNtb

open Function (update)

/-! ## The device state -/

/-- A file descriptor, named by the kernel object behind it: the server makes one eventfd for each
    vector of each client. -/
structure Fd where
  client : ℕ
  vector : ℕ
deriving DecidableEq, Repr

/-- The bus address of a window.  The windows are 32-bit memory BARs, which the PCI core maps at a
    multiple of their size below 4 GiB. -/
structure BusAddr where
  val : BitVec 64
  aligned : idtBarApertureSize ∣ val.toNat
  below : val.toNat < 2 ^ 32
deriving DecidableEq

instance : Inhabited BusAddr := ⟨0, by decide, by decide⟩

/-- An entry of the peer table.  `eventfds` is the array it points to, with `none` for a zeroed
    `EventNotifier`; `allocated` is false once the array was freed. -/
structure Peer where
  nbEventfds : ℕ
  eventfds : List (Option Fd)
  allocated : Bool
deriving DecidableEq

structure MSIVector where
  pdev : Bool
  virq : ℤ
  unmasked : Bool
deriving DecidableEq, Inhabited

structure IdtLocalRegisters where
  gasaaddr : BitVec 64
  ntMtbAddr : BitVec 64
  inboundMwBar : BitVec 32
deriving DecidableEq, Inhabited

/-- The state of the device of machine `x`.  Pointers into the shared memory are not stored: they
    go to the block of `x` and to the block of `x.other`, once `realized` says they are set. -/
structure IVShmemState (x : Vm) where
  features : BitVec 32
  /-- The descriptor behind the shared memory region, if it is mapped. -/
  ivshmemBar2 : Option Fd
  bars : Fin 6 → BusAddr
  peers : List Peer
  vectors : ℕ
  /-- `none` until `ivshmem_setup_interrupts` allocates the array. -/
  msiVectors : Option (List MSIVector)
  selfNumber : BitVec 32
  self_block : Vm.ofNumber selfNumber = x
  vmId : ℤ
  otherVmId : ℤ
  /-- `vm_id_shared`, `regs`, `peer_regs` and the others are set. -/
  realized : Bool
  lregs : IdtLocalRegisters
  /-- The peer's memory file is mapped (`peer_mem` is not NULL). -/
  peerMem : Bool
  /-- What `pci_requester_id` returns for the device. -/
  requesterId : BitVec 16

/-- What a handler does besides changing the registers. -/
inductive Effect where
  /-- `event_notifier_set(&s->peers[posn].eventfds[vector])` -/
  | eventSet (posn : ℤ) (vector : ℕ)
  /-- `msi_notify(&s->parent_obj, vector)` -/
  | msiNotify (vector : ℕ)
  /-- `qemu_set_fd_handler(fd, ivshmem_vector_notify, NULL, &s->msi_vectors[vector])` -/
  | setFdHandler (fd : Option Fd) (vector : ℕ)
  /-- `kvm_irqchip_add_irqfd_notifier_gsi(kvm_state, fd, NULL, virq)` -/
  | addIrqfd (fd : Option Fd) (virq : ℤ)
  /-- `close(fd)` -/
  | close (fd : Fd)
  /-- `error_report(msg)` -/
  | errorReport (msg : String)
deriving DecidableEq

/-- How a handler can fail.  What follows a bad pointer is undefined. -/
inductive Fault where
  /-- A failed `assert`. -/
  | assertion
  /-- A NULL or freed pointer is used, or an array is left. -/
  | badPointer
deriving DecidableEq, Repr

/-- What a handler of the device of machine `x` works on. -/
structure Ctx (x : Vm) where
  shm : IdtIvshmemShmStorage
  dev : IVShmemState x
  out : List Effect

namespace Ctx
variable {x : Vm}

/-- `s->regs` -/
def regs (c : Ctx x) : IdtSharedRegisters := (c.shm.vm x).regs

/-- `s->peer_regs` -/
def peerRegs (c : Ctx x) : IdtSharedRegisters := (c.shm.vm x.other).regs

/-- `s->gregs` -/
def gregs (c : Ctx x) : IdtGlobalRegisters := c.shm.gregs

/-- `s->bar_config` -/
def barConfig (c : Ctx x) : Fin 6 → BARConfig := (c.shm.vm x).barConfig

/-- `s->peer_bar_config` -/
def peerBarConfig (c : Ctx x) : Fin 6 → BARConfig := (c.shm.vm x.other).barConfig

def modRegs (c : Ctx x) (f : IdtSharedRegisters → IdtSharedRegisters) : Ctx x :=
  { c with shm := c.shm.modVm x fun b => { b with regs := f b.regs } }

def modPeerRegs (c : Ctx x) (f : IdtSharedRegisters → IdtSharedRegisters) : Ctx x :=
  { c with shm := c.shm.modVm x.other fun b => { b with regs := f b.regs } }

def modGregs (c : Ctx x) (f : IdtGlobalRegisters → IdtGlobalRegisters) : Ctx x :=
  { c with shm := { c.shm with gregs := f c.shm.gregs } }

def modLregs (c : Ctx x) (f : IdtLocalRegisters → IdtLocalRegisters) : Ctx x :=
  { c with dev := { c.dev with lregs := f c.dev.lregs } }

/-- `s->bar_config[i].f = v` -/
def setBar (c : Ctx x) (i : Fin 6) (f : BarField) (v : BitVec 32) : Ctx x :=
  { c with shm := c.shm.modVm x fun b =>
      { b with barConfig := update b.barConfig i ((b.barConfig i).set f v) } }

/-- `s->peer_bar_config[s->lregs.inbound_mw_bar].f = v` -/
def setPeerBar (c : Ctx x) (f : BarField) (v : BitVec 32) : Ctx x :=
  { c with shm := c.shm.storeBar x.other c.dev.lregs.inboundMwBar f v }

def emit (c : Ctx x) (e : Effect) : Ctx x := { c with out := c.out ++ [e] }

def emitIf (c : Ctx x) (p : Prop) [Decidable p] (e : Effect) : Ctx x := if p then c.emit e else c

/-! ### What the updates change -/

section
variable (c : Ctx x)

@[simp] theorem modRegs_regs (f) : (c.modRegs f).regs = f c.regs := by simp [modRegs, regs]

@[simp] theorem modRegs_peerRegs (f) : (c.modRegs f).peerRegs = c.peerRegs := by
  simp [modRegs, peerRegs]

@[simp] theorem modRegs_barConfig (f) : (c.modRegs f).barConfig = c.barConfig := by
  simp [modRegs, barConfig]

@[simp] theorem modRegs_peerBarConfig (f) : (c.modRegs f).peerBarConfig = c.peerBarConfig := by
  simp [modRegs, peerBarConfig]

@[simp] theorem modRegs_gregs (f) : (c.modRegs f).gregs = c.gregs := rfl

@[simp] theorem modRegs_dev (f) : (c.modRegs f).dev = c.dev := rfl

@[simp] theorem modRegs_out (f) : (c.modRegs f).out = c.out := rfl

@[simp] theorem modPeerRegs_regs (f) : (c.modPeerRegs f).regs = c.regs := by
  simp [modPeerRegs, regs]

@[simp] theorem modPeerRegs_peerRegs (f) : (c.modPeerRegs f).peerRegs = f c.peerRegs := by
  simp [modPeerRegs, peerRegs]

@[simp] theorem modPeerRegs_barConfig (f) : (c.modPeerRegs f).barConfig = c.barConfig := by
  simp [modPeerRegs, barConfig]

@[simp] theorem modPeerRegs_peerBarConfig (f) :
    (c.modPeerRegs f).peerBarConfig = c.peerBarConfig := by
  simp [modPeerRegs, peerBarConfig]

@[simp] theorem modPeerRegs_gregs (f) : (c.modPeerRegs f).gregs = c.gregs := rfl

@[simp] theorem modPeerRegs_dev (f) : (c.modPeerRegs f).dev = c.dev := rfl

@[simp] theorem modPeerRegs_out (f) : (c.modPeerRegs f).out = c.out := rfl

@[simp] theorem modGregs_regs (f) : (c.modGregs f).regs = c.regs := rfl

@[simp] theorem modGregs_peerRegs (f) : (c.modGregs f).peerRegs = c.peerRegs := rfl

@[simp] theorem modGregs_barConfig (f) : (c.modGregs f).barConfig = c.barConfig := rfl

@[simp] theorem modGregs_peerBarConfig (f) : (c.modGregs f).peerBarConfig = c.peerBarConfig := rfl

@[simp] theorem modGregs_gregs (f) : (c.modGregs f).gregs = f c.gregs := rfl

@[simp] theorem modGregs_dev (f) : (c.modGregs f).dev = c.dev := rfl

@[simp] theorem modGregs_out (f) : (c.modGregs f).out = c.out := rfl

@[simp] theorem modLregs_regs (f) : (c.modLregs f).regs = c.regs := rfl

@[simp] theorem modLregs_peerRegs (f) : (c.modLregs f).peerRegs = c.peerRegs := rfl

@[simp] theorem modLregs_barConfig (f) : (c.modLregs f).barConfig = c.barConfig := rfl

@[simp] theorem modLregs_peerBarConfig (f) : (c.modLregs f).peerBarConfig = c.peerBarConfig := rfl

@[simp] theorem modLregs_gregs (f) : (c.modLregs f).gregs = c.gregs := rfl

@[simp] theorem modLregs_dev (f) :
    (c.modLregs f).dev = { c.dev with lregs := f c.dev.lregs } := rfl

@[simp] theorem modLregs_out (f) : (c.modLregs f).out = c.out := rfl

@[simp] theorem emit_regs (e) : (c.emit e).regs = c.regs := rfl

@[simp] theorem emit_peerRegs (e) : (c.emit e).peerRegs = c.peerRegs := rfl

@[simp] theorem emit_barConfig (e) : (c.emit e).barConfig = c.barConfig := rfl

@[simp] theorem emit_peerBarConfig (e) : (c.emit e).peerBarConfig = c.peerBarConfig := rfl

@[simp] theorem emit_gregs (e) : (c.emit e).gregs = c.gregs := rfl

@[simp] theorem emit_dev (e) : (c.emit e).dev = c.dev := rfl

@[simp] theorem emit_out (e) : (c.emit e).out = c.out ++ [e] := rfl

@[simp] theorem emitIf_shm (p) [Decidable p] (e) : (c.emitIf p e).shm = c.shm := by
  unfold emitIf; split_ifs <;> rfl

@[simp] theorem emitIf_regs (p) [Decidable p] (e) : (c.emitIf p e).regs = c.regs := by
  simp only [regs, emitIf_shm]

@[simp] theorem emitIf_peerRegs (p) [Decidable p] (e) : (c.emitIf p e).peerRegs = c.peerRegs := by
  simp only [peerRegs, emitIf_shm]

@[simp] theorem emitIf_barConfig (p) [Decidable p] (e) :
    (c.emitIf p e).barConfig = c.barConfig := by
  simp only [barConfig, emitIf_shm]

@[simp] theorem emitIf_peerBarConfig (p) [Decidable p] (e) :
    (c.emitIf p e).peerBarConfig = c.peerBarConfig := by
  simp only [peerBarConfig, emitIf_shm]

@[simp] theorem emitIf_gregs (p) [Decidable p] (e) : (c.emitIf p e).gregs = c.gregs := by
  simp only [gregs, emitIf_shm]

@[simp] theorem emitIf_dev (p) [Decidable p] (e) : (c.emitIf p e).dev = c.dev := by
  unfold emitIf; split_ifs <;> rfl

@[simp] theorem emitIf_out (p) [Decidable p] (e) :
    (c.emitIf p e).out = if p then c.out ++ [e] else c.out := by
  unfold emitIf; split_ifs <;> rfl

theorem mem_emitIf_out (p) [Decidable p] (e) : e ∈ (c.emitIf p e).out ↔ p ∨ e ∈ c.out := by
  rw [emitIf_out]
  by_cases hp : p
  · simp [hp]
  · simp [hp]

@[simp] theorem setBar_regs (i f v) : (c.setBar i f v).regs = c.regs := by simp [setBar, regs]

@[simp] theorem setBar_peerRegs (i f v) : (c.setBar i f v).peerRegs = c.peerRegs := by
  simp [setBar, peerRegs]

@[simp] theorem setBar_barConfig (i f v) :
    (c.setBar i f v).barConfig = update c.barConfig i ((c.barConfig i).set f v) := by
  simp [setBar, barConfig]

@[simp] theorem setBar_peerBarConfig (i f v) :
    (c.setBar i f v).peerBarConfig = c.peerBarConfig := by
  simp [setBar, peerBarConfig]

@[simp] theorem setBar_gregs (i f v) : (c.setBar i f v).gregs = c.gregs := rfl

@[simp] theorem setBar_dev (i f v) : (c.setBar i f v).dev = c.dev := rfl

@[simp] theorem setBar_out (i f v) : (c.setBar i f v).out = c.out := rfl

@[simp] theorem modRegs_modRegs (f g) : (c.modRegs f).modRegs g = c.modRegs fun r => g (f r) := by
  simp [modRegs, IdtIvshmemShmStorage.modVm]

@[simp] theorem modPeerRegs_modPeerRegs (f g) :
    (c.modPeerRegs f).modPeerRegs g = c.modPeerRegs fun r => g (f r) := by
  simp [modPeerRegs, IdtIvshmemShmStorage.modVm]

@[simp] theorem modPeerRegs_id : (c.modPeerRegs fun r => r) = c := by
  simp [modPeerRegs, IdtIvshmemShmStorage.modVm]

@[simp] theorem setPeerBar_dev (f v) : (c.setPeerBar f v).dev = c.dev := rfl

@[simp] theorem setPeerBar_out (f v) : (c.setPeerBar f v).out = c.out := rfl

@[simp] theorem setPeerBar_gregs (f v) : (c.setPeerBar f v).gregs = c.gregs := by
  simp [setPeerBar, gregs]

/-- The out-of-spec selector is the index of a BAR. -/
def SelOk : Prop := c.dev.lregs.inboundMwBar.toNat < 6

instance : Decidable c.SelOk := inferInstanceAs (Decidable (_ < _))

/-- The BAR that the out-of-spec selector names. -/
def sel (h : c.SelOk) : Fin 6 := ⟨_, h⟩

/-- With a selector below 6, the out-of-spec window registers store into that entry of the peer. -/
theorem setPeerBar_eq (h : c.SelOk) (f : BarField) (v : BitVec 32) :
    c.setPeerBar f v = { c with shm := c.shm.modVm x.other fun b =>
      { b with barConfig := update b.barConfig (c.sel h) ((b.barConfig (c.sel h)).set f v) } } := by
  unfold setPeerBar
  rw [← IdtIvshmemShmStorage.storeBar_eq]
  simp [sel]

theorem setPeerBar_regs (h : c.SelOk) (f v) : (c.setPeerBar f v).regs = c.regs := by
  rw [setPeerBar_eq c h]; simp [regs]

theorem setPeerBar_peerRegs (h : c.SelOk) (f v) : (c.setPeerBar f v).peerRegs = c.peerRegs := by
  rw [setPeerBar_eq c h]; simp [peerRegs]

theorem setPeerBar_barConfig (h : c.SelOk) (f v) :
    (c.setPeerBar f v).barConfig = c.barConfig := by
  rw [setPeerBar_eq c h]; simp [barConfig]

theorem setPeerBar_peerBarConfig (h : c.SelOk) (f v) : (c.setPeerBar f v).peerBarConfig =
    update c.peerBarConfig (c.sel h) ((c.peerBarConfig (c.sel h)).set f v) := by
  rw [setPeerBar_eq c h]; simp [peerBarConfig]

end

end Ctx

section
variable {x : Vm}

/-! ## Notifications -/

def interruptNotify (c : Ctx x) (vector : ℕ) : Ctx x := c.emit (.msiNotify vector)

def eventNotifierSet (c : Ctx x) (posn : ℤ) (vector : ℕ) : Ctx x :=
  c.emit (.eventSet posn vector)

/-! ## Messages -/

def writeOutboundMsg (c : Ctx x) (index : ℤ) (val : BitVec 64) : Ctx x :=
  if h : index < 0 ∨ 3 < index then
    c.emit (.errorReport "idt-ntb-ivshmem: invalid msg register index")
  else
    let i : Fin 4 := ⟨index.toNat, by omega⟩
    if c.peerRegs.msgsts &&& (fldInmsgsts i).setWidth 64 ≠ 0 then
      -- the peer has not taken the last message: refuse, and set the error status
      let c := c.modRegs fun r => { r with msgsts := r.msgsts ||| (fldOutmsgsts i).setWidth 64 }
      if c.regs.msgstsMask &&& (~~~fldOutmsgsts i).setWidth 64 ≠ 0 ∧
          ~~~c.gregs.ntIntMask &&& ntintstsMsg ≠ 0 then
        interruptNotify
          (c.modRegs fun r => { r with intsts := r.intsts ||| ntintstsMsg.setWidth 64 }) 0
      else c
    else
      let c := c.modPeerRegs fun r => { r with msg := update r.msg i val }
      if c.dev.otherVmId ≠ -1 then
        let src := c.regs.inboundMwPart.setWidth 64
        let c := c.modPeerRegs fun r => { r with
          msgsts := r.msgsts ||| (fldInmsgsts i).setWidth 64
          inbMsgSrc := update r.inbMsgSrc i src }
        if ~~~c.peerRegs.msgstsMask &&& (fldInmsgsts i).setWidth 64 ≠ 0 ∧
            ~~~c.gregs.ntIntMask &&& ntintstsMsg ≠ 0 then
          let c := c.modPeerRegs fun r => { r with intsts := r.intsts ||| ntintstsMsg.setWidth 64 }
          eventNotifierSet c c.dev.otherVmId eventfdInterruptHost
        else c
      else c

/-! ## The global address space -/

def getGasadata (c : Ctx x) : BitVec 64 :=
  match GlobalReg.decode c.dev.lregs.gasaaddr with
  | some (.swportsts _) => valueSwportsts
  | some .swpart0sts => valueSwpart0sts
  | some (.ntpPciecmdsts _) => valueNtpPciecmdsts
  | some (.ntpNtctl y) => (c.shm.vm y).regs.ntctl
  | some .sests => 0
  | some (.ntpBarsetup y i) => ((c.shm.vm y).barConfig i).setup.setWidth 64
  | _ => 0

def writeGasadata (c : Ctx x) (val : BitVec 64) : Ctx x :=
  match GlobalReg.decode c.dev.lregs.gasaaddr with
  | some (.swp0msgctl i) =>
    c.modRegs fun r => { r with part0MsgControl := update r.part0MsgControl i val }
  | some .segsigsts =>
    c.modGregs fun g => { g with segsigsts := g.segsigsts &&& ~~~val.setWidth 32 }
  | some .selinkdnsts | some .selinkupsts => c
  | _ => c

/-! ## The mapping table -/

def getNtMtbData (c : Ctx x) : BitVec 64 :=
  if c.dev.lregs.ntMtbAddr = 0 then c.gregs.ntmtbl0.setWidth 64 else 0

def setNtMtbData (c : Ctx x) (val : BitVec 32) : Ctx x :=
  if c.dev.lregs.ntMtbAddr = 0 then c.modGregs fun g => { g with ntmtbl0 := val } else c

/-! ## BAR 0 -/

/-- The `case` that a write to the register `r` reaches. -/
def writeReg (c : Ctx x) (r : ConfigReg) (val : BitVec 64) : Except Fault (Ctx x) :=
  match r with
  | .gasaaddr => .ok (c.modLregs fun l => { l with gasaaddr := val })
  | .gasadata => .ok (writeGasadata c val)
  | .ntctl => .ok (c.modRegs fun r => { r with ntctl := val })
  | .ntmtbladdr => .ok (c.modLregs fun l => { l with ntMtbAddr := val &&& 0x7F })
  | .ntmtbldata => .ok (setNtMtbData c (val.setWidth 32))
  | .ntintsts => .ok (c.modRegs fun r => { r with intsts := r.intsts &&& ~~~val })
  | .outmsg i => .ok (writeOutboundMsg c i val)
  | .outdbellset =>
    let c := c.modPeerRegs fun r => { r with db := val.setWidth 32 }
    if c.dev.otherVmId ≠ -1 then
      if ~~~c.gregs.ntIntMask &&& ntintstsDbell ≠ 0 then
        let c := c.modPeerRegs fun r => { r with intsts := r.intsts ||| ntintstsDbell.setWidth 64 }
        .ok (eventNotifierSet c c.dev.otherVmId eventfdInterruptHost)
      else .ok c
    else .ok c
  | .indbellsts => .ok (c.modRegs fun r => { r with db := r.db &&& ~~~val.setWidth 32 })
  | .indbellmsk => .ok (c.modRegs fun r => { r with dbMask := val.setWidth 32 })
  | .msgsts => .ok (c.modRegs fun r => { r with msgsts := r.msgsts &&& ~~~val })
  | .msgstsmsk => .ok (c.modRegs fun r => { r with msgstsMask := val })
  | .ntgsignal =>
    if val = 1 then
      let c := c.modGregs fun g => { g with segsigsts := g.segsigsts ||| 0x1#32 <<< 0 }
      -- unlike the two above, this one does not ask whether the peer is known
      if ~~~c.gregs.ntIntMask &&& ntintstsSevent ≠ 0 then
        let c := c.modPeerRegs fun r => { r with intsts := r.intsts ||| ntintstsSevent.setWidth 64 }
        .ok (eventNotifierSet c c.dev.otherVmId eventfdInterruptHost)
      else .ok c
    else .error .assertion
  | .bar f i => .ok (c.setBar i f (val.setWidth 32))
  | .oofTpart => .ok (c.modRegs fun r => { r with inboundMwPart := val.setWidth 32 })
  | .oofLutoff => .ok (c.modLregs fun l => { l with inboundMwBar := val.setWidth 32 })
  | .oofLdata => .ok (c.setPeerBar .ltbase (val.setWidth 32))
  | .oofHdata => .ok (c.setPeerBar .utbase (val.setWidth 32))
  | .oofLlimit | .oofHlimit => .ok (c.setPeerBar .limit (val.setWidth 32))
  | .ntintmsk => .ok (c.modGregs fun g => { g with ntIntMask := val.setWidth 32 })
  -- the registers that can only be read
  | .pcicmdsts | .pcielcap | .pcielctlsts | .inmsg _ | .inmsgsrc _ | .reqidcap => .ok c

/-- The `case` that a read of the register `r` reaches. -/
def readReg (c : Ctx x) (r : ConfigReg) : BitVec 64 :=
  match r with
  | .gasadata => getGasadata c
  | .pcielcap => valueNtPcielcap (Vm.ofNumber c.dev.selfNumber)
  | .pcielctlsts => valueNtPcielctlsts
  | .pcicmdsts => valueNtPcicmdsts
  | .ntctl => c.regs.ntctl
  | .ntmtbldata => getNtMtbData c
  | .ntintsts => c.regs.intsts
  | .inmsg i => c.regs.msg i
  | .inmsgsrc i => c.regs.inbMsgSrc i
  | .indbellsts => c.regs.db.setWidth 64
  | .indbellmsk => c.regs.dbMask.setWidth 64
  | .msgsts => c.regs.msgsts
  | .msgstsmsk => c.regs.msgstsMask
  | .ntintmsk => c.gregs.ntIntMask.setWidth 64
  | .reqidcap => c.dev.requesterId.setWidth 64
  | .bar f i => ((c.barConfig i).get f).setWidth 64
  -- the registers that can only be written
  | .gasaaddr | .ntgsignal | .outdbellset | .outmsg _ | .ntmtbladdr | .oofTpart | .oofLutoff
  | .oofLdata | .oofHdata | .oofLlimit | .oofHlimit => 0

def ivshmemIoWrite (c : Ctx x) (addr val : BitVec 64) : Except Fault (Ctx x) :=
  match ConfigReg.decode addr with
  | some r => writeReg c r val
  | none => .ok c

@[simp] theorem ivshmemIoWrite_addr (c : Ctx x) (r : ConfigReg) (val : BitVec 64) :
    ivshmemIoWrite c r.addr val = writeReg c r val := by
  rw [ivshmemIoWrite, ConfigReg.decode_addr]

def ivshmemIoRead (c : Ctx x) (addr : BitVec 64) : BitVec 64 :=
  match ConfigReg.decode addr with
  | some r => readReg c r
  | none => 0

/-! ## The register set-up of `ivshmem_common_realize` -/

/-- The value of NTINTMSK after realize: every interrupt is masked. -/
def initialNtIntMask : BitVec 32 :=
  0x1#32 ||| 0x1#32 <<< 1 ||| 0x1#32 <<< 3 ||| 0x1#32 <<< 4 ||| 0x1#32 <<< 5 ||| 0x1#32 <<< 7

/-- From `s->gregs = &shm_storage->gregs` on. -/
def realizeRegs (c : Ctx x) : Ctx x :=
  let c := { c with dev := { c.dev with realized := true } }
  let c := c.modGregs fun g => { g with ntIntMask := initialNtIntMask }
  let c := c.modRegs fun r => { r with ntctl := valueNtpNtctl }
  let c := c.setBar 0 .setup valueNtBarsetup0
  let c := c.setBar 2 .setup valueNtBarsetup2
  let c := c.setBar 3 .setup valueNtBarsetup2
  let c := c.setBar 4 .setup valueNtBarsetup2
  -- the peer is taken to be not yet started while its BARSETUP0 is zero
  if (c.peerBarConfig 0).setup = 0 then
    { c with shm := c.shm.modVm x.other fun b => { b with barConfig := c.barConfig } }
  else c

end

end IdtNtb
