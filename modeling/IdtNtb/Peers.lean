/-
  The peer table and the messages of the ivshmem server.

  `processMsg` handles one message: a connect fills the next notifier slot of a
  peer (and, for the device's own id, wires an interrupt vector), a disconnect
  closes the slots of a peer, and the shared memory message maps the region.
  `initVmIds` is what announces the device's id to its peer, and
  `ivshmemVectorNotify` the handler of the device's own notifiers.

  What KVM, `fstat` and the memory core answer comes from an `Env`.  A store or
  a `g_free` through a pointer that was already freed is `Fault.badPointer`.
-/
import IdtNtb.Device

namespace IdtNtb

open Function (update)

variable {x : Vm}

/-- `IVSHMEM_MAX_PEERS`. -/
def ivshmemMaxPeers : ℤ := 65535

/-- The feature bits. -/
def ivshmemIoeventfd : ℕ := 0

def ivshmemMsi : ℕ := 1

/-- What the calls out of the device return while a message is handled. -/
structure Env where
  /-- `kvm_msi_via_irqfd_enabled()` -/
  msiViaIrqfd : Bool
  /-- `msix_enabled(pdev)` -/
  msixEnabled : Bool
  /-- `msix_is_masked(pdev, vector)` -/
  msixIsMasked : ℕ → Bool
  /-- The result of `kvm_irqchip_add_msi_route`: a virq, or negative. -/
  addMsiRoute : ℤ
  /-- `fstat` succeeds on the shared memory descriptor. -/
  fstat : Bool
  /-- `memory_region_init_ram_from_fd` succeeds. -/
  initRam : Bool

/-- The errors that message handling reports. -/
inductive MsgError where
  | unexpectedShm | shmSize | shmRam
  | invalidPeer (posn : ℤ) | tooManyEventfds (vectors : ℕ) | invalidMessage (msg : ℤ)
  | msiRoute
deriving DecidableEq

/-- The text of an error.  The one of `shmRam` is the memory core's own. -/
def MsgError.text : MsgError → String
  | unexpectedShm => "server sent unexpected shared memory message"
  | shmSize => "can't determine size of shared memory sent by server"
  | shmRam => ""
  | invalidPeer posn => "invalid peer " ++ toString posn
  | tooManyEventfds vectors =>
    "Too many eventfd received, device has " ++ toString vectors ++ " vectors"
  | invalidMessage msg => "server sent invalid message " ++ toString msg
  | msiRoute => "kvm_irqchip_add_msi_route failed"

namespace IVShmemState

def hasFeature (d : IVShmemState x) (feature : ℕ) : Bool := d.features.getLsbD feature

def nbPeers (d : IVShmemState x) : ℕ := d.peers.length

/-- The number of vectors connected for a peer; none for an id outside the table. -/
def nbEventfds (d : IVShmemState x) (posn : ℤ) : ℕ :=
  if 0 ≤ posn then (d.peers[posn.toNat]?.map Peer.nbEventfds).getD 0 else 0

/-- The notifier `s->peers[posn].eventfds[vector]`, or the fault of reaching for it. -/
def notifier (d : IVShmemState x) (posn : ℤ) (vector : ℕ) : Except Fault (Option Fd) :=
  if 0 ≤ posn then
    match d.peers[posn.toNat]? with
    | some p =>
      if p.allocated then
        match p.eventfds[vector]? with
        | some fd => .ok fd
        | none => .error .badPointer
      else .error .badPointer
    | none => .error .badPointer
  else .error .badPointer

/-- `ivshmem_ntb_idt_init` on a zeroed device with the given properties: `IVSHMEM_MSI` is set and
    the peer is unknown. -/
def init (x : Vm) (vectors : ℕ) (bars : Fin 6 → BusAddr) (requesterId : BitVec 16) :
    IVShmemState x where
  features := 0x1#32 <<< ivshmemMsi ||| 0x1#32 <<< ivshmemIoeventfd
  ivshmemBar2 := none
  bars := bars
  peers := []
  vectors := vectors
  msiVectors := none
  selfNumber := match x with
    | .vm1 => 0
    | .vm2 => 1
  self_block := by cases x <;> decide
  vmId := 0
  otherVmId := -1
  realized := false
  lregs := default
  peerMem := false
  requesterId := requesterId

end IVShmemState

/-- A notifier is found by the table alone. -/
theorem notifier_congr {d d' : IVShmemState x} (h : d'.peers = d.peers) (posn : ℤ) (vector : ℕ) :
    d'.notifier posn vector = d.notifier posn vector := by
  unfold IVShmemState.notifier
  rw [h]

def Ctx.modDev (c : Ctx x) (f : IVShmemState x → IVShmemState x) : Ctx x := { c with dev := f c.dev }

def Ctx.closeFd (c : Ctx x) : Option Fd → Ctx x
  | some fd => c.emit (.close fd)
  | none => c

/-- `event_notifier_set` on a slot of the peer table of `d`; a zeroed notifier does nothing. -/
def deliver {x : Vm} (d : IVShmemState x) (pending : Fd → Bool) : Effect → Except Fault (Fd → Bool)
  | .eventSet posn vector => do
    match ← d.notifier posn vector with
    | some fd => pure (update pending fd true)
    | none => pure pending
  | _ => pure pending

/-! ## Connecting the two machines -/

def initVmIds (c : Ctx x) : Except Fault (Ctx x) :=
  if c.dev.realized then
    let c := { c with shm := c.shm.modVm x fun b => { b with id := BitVec.ofInt 32 c.dev.vmId } }
    if c.dev.selfNumber ≠ 0 then
      -- second vm
      let c := c.modDev fun d => { d with otherVmId := (c.shm.vm x.other).id.toInt }
      .ok (eventNotifierSet c c.dev.otherVmId eventfdVmId)
    else .ok c
  else .error .badPointer

/-- `&s->msi_vectors[vector]`. -/
def msiVector (c : Ctx x) (vector : ℕ) : Except Fault MSIVector :=
  match c.dev.msiVectors with
  | some vs =>
    match vs[vector]? with
    | some v => .ok v
    | none => .error .badPointer
  | none => .error .badPointer

/-- The notifier that `ivshmem_vector_notify` tests: it finds the device by `entry->pdev`. -/
def vectorNotifier (c : Ctx x) (vector : ℕ) : Except Fault (Option Fd) := do
  let entry ← msiVector c vector
  if entry.pdev then c.dev.notifier c.dev.vmId vector else .error .badPointer

/-- `pending` is what `event_notifier_test_and_clear` found. -/
def ivshmemVectorNotify (c : Ctx x) (vector : ℕ) (pending : Bool) : Except Fault (Ctx x) :=
  if pending then
    if vector = eventfdVmId then
      if c.dev.realized then
        .ok (c.modDev fun d => { d with otherVmId := (c.shm.vm x.other).id.toInt })
      else .error .badPointer
    else if vector = eventfdInterruptHost then .ok (interruptNotify c 0)
    else .ok (c.emit (.errorReport
      ("idt-ntb-ivshmem: event interrupt on unknown vector " ++ toString vector)))
  else .ok c

/-- **What an answer can do**: it takes over the peer's id, or it raises an interrupt, reports an
    unknown vector or does nothing. -/
theorem ivshmemVectorNotify_cases {c c' : Ctx x} {vector : ℕ} {pending : Bool}
    (h : ivshmemVectorNotify c vector pending = .ok c') :
    ((pending = true ∧ vector = eventfdVmId) ∧
      c' = c.modDev fun d => { d with otherVmId := (c.shm.vm x.other).id.toInt }) ∨
    (¬ (pending = true ∧ vector = eventfdVmId) ∧
      (c' = interruptNotify c 0 ∨ (∃ text, c' = c.emit (.errorReport text)) ∨ c' = c)) := by
  unfold ivshmemVectorNotify at h
  split_ifs at h with hp hv hr hh
  · cases h
    exact Or.inl ⟨⟨hp, hv⟩, rfl⟩
  · cases h
    exact Or.inr ⟨fun hn => hv hn.2, Or.inl rfl⟩
  · cases h
    exact Or.inr ⟨fun hn => hv hn.2, Or.inr (Or.inl ⟨_, rfl⟩)⟩
  · cases h
    exact Or.inr ⟨fun hn => hp hn.1, Or.inr (Or.inr rfl)⟩

/-! ## The peer table -/

def closePeerEventfds (c : Ctx x) (posn : ℕ) : Except Fault (Ctx x) :=
  match c.dev.peers[posn]? with
  | none => .error .assertion
  | some p =>
    -- `g_new0` of no elements is NULL, which can be freed any number of times
    if p.allocated ∨ c.dev.vectors = 0 then
      let c := (p.eventfds.take p.nbEventfds).foldl Ctx.closeFd c
      let p := { p with
        nbEventfds := 0
        eventfds := p.eventfds.mapIdx fun i fd => if i < p.nbEventfds then none else fd
        allocated := false }
      .ok (c.modDev fun d => { d with peers := d.peers.set posn p })
    else .error .badPointer

def resizePeers (c : Ctx x) (nbPeers : ℕ) : Except Fault (Ctx x) :=
  if c.dev.nbPeers < nbPeers then
    let p : Peer := { nbEventfds := 0, eventfds := List.replicate c.dev.vectors none, allocated := true }
    .ok (c.modDev fun d =>
      { d with peers := d.peers ++ List.replicate (nbPeers - d.nbPeers) p })
  else .error .assertion

/-! ## Interrupt vectors -/

def Ctx.setMsiVector (c : Ctx x) (vector : ℕ) (v : MSIVector) : Ctx x :=
  c.modDev fun d => { d with msiVectors := d.msiVectors.map (·.set vector v) }

def watchVectorNotifier (c : Ctx x) (n : Option Fd) (vector : ℕ) : Except Fault (Ctx x) := do
  let v ← msiVector c vector
  if v.pdev then .error .assertion
  else .ok ((c.setMsiVector vector { v with pdev := true }).emit (.setFdHandler n vector))

def ivshmemAddKvmMsiVirq (c : Ctx x) (vector : ℕ) (env : Env) :
    Except Fault (Ctx x × Option MsgError) := do
  let v ← msiVector c vector
  if v.pdev then .error .assertion
  else if env.addMsiRoute < 0 then .ok (c, some .msiRoute)
  else .ok (c.setMsiVector vector { v with virq := env.addMsiRoute, pdev := true }, none)

/-- The first half of `setup_interrupt`: attach the notifier, by eventfd or by irqfd. -/
def attachNotifier (c : Ctx x) (n : Option Fd) (vector : ℕ) (env : Env) :
    Except Fault (Ctx x × Option MsgError) :=
  let withIrqfd := env.msiViaIrqfd && c.dev.hasFeature ivshmemMsi
  if !withIrqfd then do
    let c ← watchVectorNotifier c n vector
    pure (c, none)
  else if env.msixEnabled then do
    match ← ivshmemAddKvmMsiVirq c vector env with
    | (c, some err) => pure (c, some err)
    | (c, none) =>
      pure (if env.msixIsMasked vector then c else c.emit (.addIrqfd n env.addMsiRoute), none)
  else pure (c, none) -- delayed until msix is enabled, in write_config

def setupInterrupt (c : Ctx x) (vector : ℕ) (env : Env) :
    Except Fault (Ctx x × Option MsgError) := do
  let n ← c.dev.notifier c.dev.vmId vector
  match ← attachNotifier c n vector env with
  | (c, some err) => pure (c, some err)
  | (c, none) =>
    let c ← if vector = 1 then initVmIds c else pure c
    pure (c, none)

/-! ## Server messages -/

def processMsgShmem (c : Ctx x) (fd : Option Fd) (env : Env) : Ctx x × Option MsgError :=
  if c.dev.ivshmemBar2.isSome then (c.closeFd fd, some .unexpectedShm)
  else if fd.isNone ∨ !env.fstat then (c.closeFd fd, some .shmSize)
  else if !env.initRam then (c, some .shmRam)
  else (c.modDev fun d => { d with ivshmemBar2 := fd }, none)

def processMsgDisconnect (c : Ctx x) (posn : ℕ) : Except Fault (Ctx x × Option MsgError) :=
  if c.dev.nbPeers ≤ posn ∨ (posn : ℤ) = c.dev.vmId then .ok (c, some (.invalidPeer posn))
  else do
    let c ← closePeerEventfds c posn
    pure (c, none)

def processMsgConnect (c : Ctx x) (posn : ℕ) (fd : Fd) (env : Env) :
    Except Fault (Ctx x × Option MsgError) :=
  match c.dev.peers[posn]? with
  | none => .error .badPointer
  | some peer =>
    -- the N-th connect message for this peer comes with the descriptor for vector N-1
    if c.dev.vectors ≤ peer.nbEventfds then
      .ok (c.closeFd (some fd), some (.tooManyEventfds c.dev.vectors))
    else if peer.allocated then
      let vector := peer.nbEventfds
      let peer := { peer with
        nbEventfds := vector + 1
        eventfds := peer.eventfds.set vector (some fd) }
      let c := c.modDev fun d => { d with peers := d.peers.set posn peer }
      if (posn : ℤ) = c.dev.vmId then setupInterrupt c vector env else .ok (c, none)
    else .error .badPointer

def processMsg (c : Ctx x) (msg : ℤ) (fd : Option Fd) (env : Env) :
    Except Fault (Ctx x × Option MsgError) :=
  if msg < -1 ∨ ivshmemMaxPeers < msg then .ok (c.closeFd fd, some (.invalidMessage msg))
  else if msg = -1 then .ok (processMsgShmem c fd env)
  else do
    let posn := msg.toNat
    let c ← if c.dev.nbPeers ≤ posn then resizePeers c (posn + 1) else pure c
    match fd with
    | some fd => processMsgConnect c posn fd env
    | none => processMsgDisconnect c posn

/-! ## Exit -/

/-- `ivshmem_exit`, as far as it goes over the peer table.  The shared memory is never mapped as a
    BAR, so that there is nothing to unmap. -/
def ivshmemExit (c : Ctx x) : Except Fault (Ctx x) := do
  let c ← (List.range c.dev.nbPeers).foldlM closePeerEventfds c
  pure (c.modDev fun d => { d with peers := [], msiVectors := none })

end IdtNtb
