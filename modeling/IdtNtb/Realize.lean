/-
  From the first server message to a realized device.

  `ivshmemRecvSetup` takes the version, the id, and further messages up to the
  shared memory from the messages that wait on the connection;
  `ivshmemCommonRealize` is the part of realize that has to do with the server
  and the registers.  The calls into the PCI core (BARs, MSI-X, MSI, the
  migration blocker) are taken to succeed.

  * `Realized` are the states that realize leaves, whatever the server sends:
    the table is in order, and the peer is unknown.
-/
import IdtNtb.Table

namespace IdtNtb

open Runs

variable {x : Vm} {c c' : Ctx x} {env : Env}

/-- `IVSHMEM_PROTOCOL_VERSION`. -/
def ivshmemProtocolVersion : ℤ := 0

/-- A message of the server: eight bytes, and perhaps a descriptor. -/
structure Msg where
  value : ℤ
  fd : Option Fd
deriving DecidableEq

/-- The errors of set-up. -/
inductive SetupError where
  /-- There is no further message: a read failed. -/
  | read
  | version (msg : ℤ) | versionMessage | idMessage
  | message (err : MsgError)
  | master
deriving DecidableEq

def SetupError.text : SetupError → String
  | read => "read from server failed"
  | version msg => "server sent version " ++ toString msg ++ ", expecting " ++
    toString ivshmemProtocolVersion
  | versionMessage => "server sent invalid version message"
  | idMessage => "server sent invalid ID message"
  | message err => err.text
  | master => "master must connect to the server before any peers"

/-- Receive more messages until we got shared memory. -/
def recvUntilShmem (c : Ctx x) (env : Env) :
    List Msg → Except Fault (Except SetupError (Ctx x × List Msg))
  | [] => .ok (.error .read)
  | m :: msgs => do
    match ← processMsg c m.value m.fd env with
    | (_, some err) => pure (.error (.message err))
    | (c, none) => if m.value = -1 then pure (.ok (c, msgs)) else recvUntilShmem c env msgs

/-- The messages that are left are handled later, one by one. -/
def ivshmemRecvSetup (c : Ctx x) (env : Env) :
    List Msg → Except Fault (Except SetupError (Ctx x × List Msg))
  | [] => .ok (.error .read)
  | version :: msgs =>
    if version.value ≠ ivshmemProtocolVersion then .ok (.error (.version version.value))
    else if version.fd.isSome then .ok (.error .versionMessage)
    else
      match msgs with
      | [] => .ok (.error .read)
      | id :: msgs =>
        if id.fd.isSome ∨ id.value < 0 ∨ ivshmemMaxPeers < id.value then .ok (.error .idMessage)
        else recvUntilShmem (c.modDev fun d => { d with vmId := id.value }) env msgs

def ivshmemSetupInterrupts (c : Ctx x) : Ctx x :=
  c.modDev fun d => { d with msiVectors := some (List.replicate d.vectors default) }

/-- `masterOn` is the property `master=on`. -/
def ivshmemCommonRealize (c : Ctx x) (masterOn : Bool) (env : Env) (msgs : List Msg) :
    Except Fault (Except SetupError (Ctx x × List Msg)) := do
  let c ← resizePeers c 16
  match ← ivshmemRecvSetup c env msgs with
  | .error err => pure (.error err)
  | .ok (c, msgs) =>
    if masterOn ∧ c.dev.vmId ≠ 0 then pure (.error .master)
    else pure (.ok (realizeRegs (ivshmemSetupInterrupts c), msgs))

/-! ## The states that realize leaves -/

/-- The first message that set-up receives is the shared memory, or set-up receives more. -/
theorem recvUntilShmem_cons {m : Msg} {msgs rest : List Msg}
    (h : recvUntilShmem c env (m :: msgs) = .ok (.ok (c', rest))) :
    ∃ c₁, processMsg c m.value m.fd env = .ok (c₁, none) ∧
      ((m.value = -1 ∧ c₁ = c' ∧ msgs = rest) ∨
        recvUntilShmem c₁ env msgs = .ok (.ok (c', rest))) := by
  unfold recvUntilShmem at h
  obtain ⟨⟨c₁, err⟩, h₁, h⟩ := bind_ok.1 h
  cases err with
  | some err => cases h
  | none =>
    refine ⟨c₁, h₁, ?_⟩
    dsimp only at h
    split_ifs at h with hshm
    · cases h
      exact Or.inl ⟨hshm, rfl, rfl⟩
    · exact Or.inr h

/-- Before realize is through, messages do not change the ids. -/
theorem recvUntilShmem_spec {msgs rest : List Msg} (hr : c.dev.realized = false)
    (hok : c.dev.TableOk) (h : recvUntilShmem c env msgs = .ok (.ok (c', rest))) :
    c'.dev.TableOk ∧ Framed c.dev c'.dev ∧ Silent c c' := by
  induction msgs generalizing c with
  | nil => cases h
  | cons m msgs ih =>
    obtain ⟨c₁, h₁, hmore⟩ := recvUntilShmem_cons h
    have hok₁ := processMsg_tableOk h₁ hok
    obtain ⟨-, hframe, hlearn, -⟩ := processMsg_spec h₁
    have hsil : Silent c c₁ := by
      rcases hlearn with ⟨-, hann⟩ | ⟨-, hsil⟩
      · have hr' := hann.realized
        rw [hr] at hr'
        cases hr'
      · exact hsil
    rcases hmore with ⟨-, rfl, rfl⟩ | h
    · exact ⟨hok₁, hframe, hsil⟩
    · obtain ⟨h1, h2, h3⟩ := ih (hframe.realized.trans hr) hok₁ h
      exact ⟨h1, hframe.trans h2, hsil.trans h3⟩

/-- Set-up that succeeds has taken the version and the id, and then received until the shared
    memory. -/
theorem ivshmemRecvSetup_until {msgs rest : List Msg}
    (h : ivshmemRecvSetup c env msgs = .ok (.ok (c', rest))) :
    ∃ version id msgs', msgs = version :: id :: msgs' ∧ 0 ≤ id.value ∧
      id.value ≤ ivshmemMaxPeers ∧
      recvUntilShmem (c.modDev fun d => { d with vmId := id.value }) env msgs' =
        .ok (.ok (c', rest)) := by
  rcases msgs with _ | ⟨version, _ | ⟨id, msgs⟩⟩
  · cases h
  · simp only [ivshmemRecvSetup] at h
    split_ifs at h <;> cases h
  · simp only [ivshmemRecvSetup] at h
    by_cases h1 : version.value ≠ ivshmemProtocolVersion
    · rw [if_pos h1] at h
      cases h
    rw [if_neg h1] at h
    by_cases h2 : version.fd.isSome = true
    · rw [if_pos h2] at h
      cases h
    rw [if_neg h2] at h
    by_cases h3 : id.fd.isSome = true ∨ id.value < 0 ∨ ivshmemMaxPeers < id.value
    · rw [if_pos h3] at h
      cases h
    rw [if_neg h3] at h
    simp only [not_or, Int.not_lt] at h3
    exact ⟨version, id, msgs, rfl, h3.2.1, h3.2.2, h⟩

theorem ivshmemRecvSetup_spec {msgs rest : List Msg} (hr : c.dev.realized = false)
    (hok : c.dev.TableOk) (h : ivshmemRecvSetup c env msgs = .ok (.ok (c', rest))) :
    ∃ id : ℤ, 0 ≤ id ∧ id ≤ ivshmemMaxPeers ∧ c'.dev.TableOk ∧
      Framed { c.dev with vmId := id } c'.dev ∧ Silent c c' := by
  obtain ⟨version, id, msgs', -, hid, hmax, h⟩ := ivshmemRecvSetup_until h
  obtain ⟨h1, h2, h3⟩ := recvUntilShmem_spec (c := c.modDev fun d => { d with vmId := id.value })
    hr hok h
  exact ⟨id.value, hid, hmax, h1, h2, h3.shm, h3.otherVmId, h3.signals⟩

/-- A device fresh from realize. -/
structure Realized (c : Ctx x) : Prop where
  realized : c.dev.realized = true
  vmId : 0 ≤ c.dev.vmId ∧ c.dev.vmId ≤ ivshmemMaxPeers
  otherVmId : c.dev.otherVmId = -1
  signals : c.signals = []
  table : c.dev.TableOk

theorem realizeRegs_frame (c : Ctx x) :
    (realizeRegs c).dev = { c.dev with realized := true } ∧ (realizeRegs c).out = c.out := by
  unfold realizeRegs
  dsimp only
  split_ifs <;> exact ⟨rfl, rfl⟩

/-- A realize that succeeds sets up a table of empty entries from the messages, and then the
    registers. -/
theorem ivshmemCommonRealize_recv {shm : IdtIvshmemShmStorage} {vectors : ℕ}
    {bars : Fin 6 → BusAddr} {requesterId : BitVec 16} {masterOn : Bool} {msgs rest : List Msg}
    (h : ivshmemCommonRealize ⟨shm, .init x vectors bars requesterId, []⟩ masterOn env msgs =
      .ok (.ok (c, rest))) :
    ∃ ps c₀, (∀ i, IVShmemState.peer { IVShmemState.init x vectors bars requesterId with
        peers := ps } i = .empty vectors) ∧
      ivshmemRecvSetup ⟨shm, { IVShmemState.init x vectors bars requesterId with peers := ps }, []⟩
        env msgs = .ok (.ok (c₀, rest)) ∧ c = realizeRegs (ivshmemSetupInterrupts c₀) := by
  obtain ⟨c₁, h₁, h⟩ := bind_ok.1 h
  obtain ⟨-, -, hpeer, ps, rfl⟩ := resizePeers_spec h₁
  obtain ⟨r, h₂, h⟩ := bind_ok.1 h
  cases r with
  | error err => cases h
  | ok r =>
    obtain ⟨c₂, msgs₂⟩ := r
    dsimp only at h
    split_ifs at h
    · cases h
    simp only [pure, Except.pure, Except.ok.injEq, Prod.mk.injEq] at h
    obtain ⟨rfl, rfl⟩ := h
    exact ⟨ps, c₂, hpeer, h₂, rfl⟩

/-- A realize that succeeds ends with the register set-up, on the shared memory it found. -/
theorem ivshmemCommonRealize_spec {shm : IdtIvshmemShmStorage} {vectors : ℕ}
    {bars : Fin 6 → BusAddr} {requesterId : BitVec 16} {masterOn : Bool} {msgs rest : List Msg}
    (h : ivshmemCommonRealize ⟨shm, .init x vectors bars requesterId, []⟩ masterOn env msgs =
      .ok (.ok (c, rest))) :
    ∃ c₀, c = realizeRegs (ivshmemSetupInterrupts c₀) ∧ c₀.shm = shm ∧
      (0 ≤ c₀.dev.vmId ∧ c₀.dev.vmId ≤ ivshmemMaxPeers) ∧ c₀.dev.otherVmId = -1 ∧
      c₀.signals = [] ∧ c₀.dev.TableOk := by
  obtain ⟨ps, c₀, hpeer, h₁, rfl⟩ := ivshmemCommonRealize_recv h
  have hok : ({ IVShmemState.init x vectors bars requesterId with peers := ps } :
      IVShmemState x).TableOk := by
    intro i
    rw [hpeer]
    exact Peer.ok_empty
  obtain ⟨id, hid, hmax, htable, hframe, hsil⟩ := ivshmemRecvSetup_spec rfl hok h₁
  refine ⟨c₀, rfl, hsil.shm, ?_, hsil.otherVmId, hsil.signals, htable⟩
  rw [hframe.vmId]
  exact ⟨hid, hmax⟩

/-- **Whatever the server sends**, a device that comes up does not know its peer. -/
theorem realized_of_realize {shm : IdtIvshmemShmStorage} {vectors : ℕ} {bars : Fin 6 → BusAddr}
    {requesterId : BitVec 16} {masterOn : Bool} {msgs rest : List Msg}
    (h : ivshmemCommonRealize ⟨shm, .init x vectors bars requesterId, []⟩ masterOn env msgs =
      .ok (.ok (c, rest))) : Realized c := by
  obtain ⟨c₀, rfl, -, hid, hother, hsig, htable⟩ := ivshmemCommonRealize_spec h
  obtain ⟨hdev, hout⟩ := realizeRegs_frame (ivshmemSetupInterrupts c₀)
  refine ⟨?_, ?_, ?_, ?_, ?_⟩
  · rw [hdev]
  · rw [hdev]
    exact hid
  · rw [hdev]
    exact hother
  · unfold Ctx.signals
    rw [hout]
    exact hsig
  · rw [hdev]
    exact htable

/-! ## What the server sends first -/

/-- Eventfds are used, and the calls out of the device succeed. -/
def eventfdEnv : Env := ⟨false, false, fun _ => true, 0, true, true⟩

/-- The version, the id of the client, and the shared memory. -/
def hello (id : ℕ) : List Msg := [⟨0, none⟩, ⟨id, none⟩, ⟨-1, some ⟨0, 0⟩⟩]

end IdtNtb
