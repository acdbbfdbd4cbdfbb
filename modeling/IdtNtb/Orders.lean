/-
  The initial messages in any order.

  The same handler runs before the vectors are allocated and the registers are
  set up, and after.  A connect that touches neither changes the peer table in
  the same way in both phases (`connected`), and any other one faults in the
  first:

  * `connect_plain` and `connect_early` are the two cases;
  * `any_order_iff`: moving connects in front of the shared memory changes
    nothing, exactly if the device's own vectors are not among them (one of them
    may be if its wiring is put off until MSI-X is enabled).
-/
import IdtNtb.Connects

namespace IdtNtb

open Runs

variable {x : Vm} {c c' : Ctx x} {env : Env} {posn vector : ℕ} {fd : Fd} {m : Msg}

/-! ## A connect in either phase -/

/-- The message connects a vector of a client. -/
structure IsConnect (m : Msg) : Prop where
  fd : m.fd.isSome
  range : 0 ≤ m.value ∧ m.value ≤ ivshmemMaxPeers

/-- Wiring a vector is put off until MSI-X is enabled. -/
def Delayed (d : IVShmemState x) (env : Env) : Prop :=
  env.msiViaIrqfd = true ∧ d.hasFeature ivshmemMsi = true ∧ env.msixEnabled = false

instance (d : IVShmemState x) (env : Env) : Decidable (Delayed d env) :=
  inferInstanceAs (Decidable (_ ∧ _))

/-- The table with room for a client. -/
def roomFor (vectors : ℕ) (ps : List Peer) (posn : ℕ) : List Peer :=
  ps ++ List.replicate (posn + 1 - ps.length) (.empty vectors)

/-- The table after a connect that finds room. -/
def connected (vectors : ℕ) (ps : List Peer) (m : Msg) : List Peer :=
  match m.fd with
  | none => ps
  | some fd =>
    let ps := roomFor vectors ps m.value.toNat
    ps.set m.value.toNat ((ps[m.value.toNat]?.getD (.empty vectors)).connect fd)

/-- The device with another table. -/
def Ctx.withPeers (c : Ctx x) (ps : List Peer) : Ctx x := c.modDev fun d => { d with peers := ps }

theorem withPeers_self {ps : List Peer} (h : c.dev.peers = ps) : c.withPeers ps = c := by
  subst h
  rfl

theorem setupInterrupt_delayed {n : Option Fd} (hn : c.dev.notifier c.dev.vmId vector = .ok n)
    (hd : Delayed c.dev env) (hv : vector ≠ 1) : setupInterrupt c vector env = .ok (c, none) := by
  obtain ⟨hirq, hmsi, hmsix⟩ := hd
  have hattach : attachNotifier c n vector env = .ok (c, none) := by
    unfold attachNotifier
    rw [hirq, hmsi, hmsix]
    rfl
  unfold setupInterrupt
  rw [hn]
  dsimp only [bind, Except.bind]
  rw [hattach]
  dsimp only
  rw [if_neg hv]
  rfl

/-- Before the vectors are allocated an own vector cannot be wired, and before the registers are set
    up the id cannot be announced. -/
theorem setupInterrupt_early {n : Option Fd} (hn : c.dev.notifier c.dev.vmId vector = .ok n)
    (hnone : c.dev.msiVectors = none) (hr : c.dev.realized = false)
    (hd : ¬ Delayed c.dev env ∨ vector = 1) : setupInterrupt c vector env = .error .badPointer := by
  have hmsi : msiVector c vector = .error .badPointer := by
    unfold msiVector
    rw [hnone]
  have hattach : attachNotifier c n vector env = .error .badPointer ∨
      (Delayed c.dev env ∧ attachNotifier c n vector env = .ok (c, none)) := by
    unfold attachNotifier watchVectorNotifier ivshmemAddKvmMsiVirq
    rw [hmsi]
    dsimp only
    by_cases hirq : (!(env.msiViaIrqfd && c.dev.hasFeature ivshmemMsi)) = true
    · rw [if_pos hirq]
      exact Or.inl rfl
    rw [if_neg hirq]
    by_cases hmsix : env.msixEnabled = true
    · rw [if_pos hmsix]
      exact Or.inl rfl
    rw [if_neg hmsix]
    simp only [Bool.not_eq_true', Bool.not_eq_false, Bool.and_eq_true] at hirq
    exact Or.inr ⟨⟨hirq.1, hirq.2, by simpa using hmsix⟩, rfl⟩
  unfold setupInterrupt
  rw [hn]
  dsimp only [bind, Except.bind]
  rcases hattach with hbad | ⟨hdel, hok⟩
  · rw [hbad]
  · have hv : vector = 1 := hd.resolve_left fun hno => hno hdel
    have hinit : initVmIds c = .error .badPointer := by
      unfold initVmIds
      rw [hr]
      rfl
    rw [hok]
    dsimp only
    rw [if_pos hv, hinit]

/-- The handler finds an entry with room for one more. -/
structure HasRoom (c : Ctx x) (posn : ℕ) : Prop where
  allocated : (c.dev.peer posn).allocated = true
  room : (c.dev.peer posn).nbEventfds < c.dev.vectors
  length : (c.dev.peer posn).eventfds.length = c.dev.vectors

/-- The table is grown as far as the client needs. -/
theorem processMsg_roomFor (hi : (posn : ℤ) ≤ ivshmemMaxPeers) : processMsg c posn (some fd) env =
    processMsgConnect (c.withPeers (roomFor c.dev.vectors c.dev.peers posn)) posn fd env := by
  unfold processMsg
  rw [if_neg (by omega), if_neg (by omega)]
  dsimp only
  rw [Int.toNat_natCast]
  by_cases hlt : c.dev.nbPeers ≤ posn
  · have hgrow : resizePeers c (posn + 1) =
        .ok (c.withPeers (roomFor c.dev.vectors c.dev.peers posn)) := by
      unfold resizePeers
      rw [if_pos (Nat.lt_succ_of_le hlt)]
      rfl
    rw [if_pos hlt, hgrow]
    rfl
  · have hzero : posn + 1 - c.dev.peers.length = 0 := Nat.sub_eq_zero_of_le (Nat.not_le.1 hlt)
    have hsame : c.withPeers (roomFor c.dev.vectors c.dev.peers posn) = c := by
      unfold roomFor
      rw [hzero, List.replicate_zero, List.append_nil]
      rfl
    rw [if_neg hlt, hsame]
    rfl

theorem getElem?_roomFor (d : IVShmemState x) (posn : ℕ) :
    (roomFor d.vectors d.peers posn)[posn]? = some (d.peer posn) := by
  unfold roomFor
  by_cases hlt : posn < d.peers.length
  · rw [List.getElem?_append_left hlt]
    exact IVShmemState.getElem?_peer hlt
  · have hge : d.peers.length ≤ posn := Nat.not_lt.1 hlt
    rw [List.getElem?_append_right hge, List.getElem?_replicate, if_pos (by omega),
      d.peer_of_le hge]

/-- A connect with room goes into the table, and then the own vector is wired. -/
theorem processMsg_connect (hi : (posn : ℤ) ≤ ivshmemMaxPeers) (h : HasRoom c posn) :
    processMsg c posn (some fd) env =
      if (posn : ℤ) = c.dev.vmId then
        setupInterrupt (c.withPeers (connected c.dev.vectors c.dev.peers ⟨posn, some fd⟩))
          (c.dev.peer posn).nbEventfds env
      else .ok (c.withPeers (connected c.dev.vectors c.dev.peers ⟨posn, some fd⟩), none) := by
  have hget := getElem?_roomFor c.dev posn
  rw [processMsg_roomFor hi]
  unfold processMsgConnect
  have hpeer : (c.withPeers (roomFor c.dev.vectors c.dev.peers posn)).dev.peers[posn]? =
      some (c.dev.peer posn) := hget
  have hfull : ¬ (c.withPeers (roomFor c.dev.vectors c.dev.peers posn)).dev.vectors ≤
      (c.dev.peer posn).nbEventfds := Nat.not_le.2 h.room
  rw [hpeer]
  dsimp only
  rw [if_neg hfull, if_pos h.allocated]
  unfold connected
  dsimp only
  rw [Int.toNat_natCast, hget]
  rfl

/-- The connect finds its own notifier. -/
theorem notifier_connected (hid : (posn : ℤ) = c.dev.vmId) (h : HasRoom c posn) :
    (c.withPeers (connected c.dev.vectors c.dev.peers ⟨posn, some fd⟩)).dev.notifier c.dev.vmId
      (c.dev.peer posn).nbEventfds = .ok (some fd) := by
  have hget := getElem?_roomFor c.dev posn
  have hlt : posn < (roomFor c.dev.vectors c.dev.peers posn).length :=
    (List.getElem?_eq_some_iff.1 hget).1
  have hstored : ((c.dev.peer posn).connect fd).eventfds[(c.dev.peer posn).nbEventfds]? =
      some (some fd) := List.getElem?_set_self (by rw [h.length]; exact h.room)
  have hn := notifier_set (d := (c.withPeers (roomFor c.dev.vectors c.dev.peers posn)).dev) hlt
    (p := (c.dev.peer posn).connect fd) h.allocated hstored
  rw [hid] at hn
  unfold connected
  dsimp only
  rw [Int.toNat_natCast, hget]
  exact hn

/-- **A plain connect**: it is not the device's own, or its wiring is put off, and it is not the one
    that announces the id.  It changes the table, and nothing else. -/
theorem connect_plain (hi : (posn : ℤ) ≤ ivshmemMaxPeers) (h : HasRoom c posn)
    (hown : (posn : ℤ) = c.dev.vmId → Delayed c.dev env ∧ (c.dev.peer posn).nbEventfds ≠ 1) :
    processMsg c posn (some fd) env =
      .ok (c.withPeers (connected c.dev.vectors c.dev.peers ⟨posn, some fd⟩), none) := by
  rw [processMsg_connect hi h]
  split_ifs with hid
  · obtain ⟨hdel, hone⟩ := hown hid
    exact setupInterrupt_delayed (notifier_connected hid h) hdel hone
  · rfl

/-- **Any other connect before realize is through** uses what is not there yet. -/
theorem connect_early (hi : (posn : ℤ) ≤ ivshmemMaxPeers) (h : HasRoom c posn)
    (hid : (posn : ℤ) = c.dev.vmId) (hnone : c.dev.msiVectors = none)
    (hr : c.dev.realized = false)
    (hd : ¬ Delayed c.dev env ∨ (c.dev.peer posn).nbEventfds = 1) :
    processMsg c posn (some fd) env = .error .badPointer := by
  rw [processMsg_connect hi h, if_pos hid]
  exact setupInterrupt_early (notifier_connected hid h) hnone hr hd

/-! ## Lists of connects -/

/-- The table is that of the descriptors `fds i` for each client `i`. -/
structure Counted (c : Ctx x) (fds : ℕ → List Fd) : Prop where
  table : c.dev.TableOk
  peer : ∀ i : ℕ, (i : ℤ) ≤ ivshmemMaxPeers → c.dev.peer i = .ofFds c.dev.vectors (fds i)

/-- How many own vectors can be connected before realize is through. -/
def earlyVectors (d : IVShmemState x) (env : Env) : ℕ := if Delayed d env then 1 else 0

/-- The connects find room in the table, and the device's own are no more than can be connected
    early. -/
structure FitsEarly (c : Ctx x) (env : Env) (fds : ℕ → List Fd) (l : List Msg) : Prop where
  connects : ∀ m ∈ l, IsConnect m
  room : ∀ i : ℕ, (fds i ++ fdsOf i l).length ≤ c.dev.vectors
  own : ∀ i : ℕ, (i : ℤ) = c.dev.vmId → (fds i ++ fdsOf i l).length ≤ earlyVectors c.dev env

variable {fds : ℕ → List Fd} {l : List Msg}

/-- The first connect of a list comes with a descriptor for some client. -/
theorem IsConnect.cases (h : IsConnect m) : ∃ (i : ℕ) (fd : Fd), m = ⟨i, some fd⟩ ∧
    (i : ℤ) ≤ ivshmemMaxPeers ∧ fdsOf i [m] = [fd] := by
  obtain ⟨value, fd⟩ := m
  obtain ⟨hfd, h0, hmax⟩ := h
  obtain ⟨fd, rfl⟩ := Option.isSome_iff_exists.1 hfd
  obtain ⟨i, rfl⟩ := Int.eq_ofNat_of_zero_le h0
  exact ⟨i, fd, rfl, hmax, fdsOf_singleton rfl⟩

theorem fdsOf_cons (i : ℕ) (m : Msg) (l : List Msg) : fdsOf i (m :: l) = fdsOf i [m] ++ fdsOf i l :=
  fdsOf_append i [m] l

theorem Counted.hasRoom {i : ℕ} (h : Counted c fds) (hi : (i : ℤ) ≤ ivshmemMaxPeers)
    (hlt : (fds i).length < c.dev.vectors) : HasRoom c i ∧
      (c.dev.peer i).nbEventfds = (fds i).length := by
  have hpeer := h.peer i hi
  have hnb : (c.dev.peer i).nbEventfds = (fds i).length := by
    rw [hpeer]
    exact Nat.min_eq_left (Nat.le_of_lt hlt)
  refine ⟨⟨?_, ?_, (h.table i).length⟩, hnb⟩
  · rw [hpeer]
    rfl
  · rw [hnb]
    exact hlt

/-- The table counts on with each connect that is handled. -/
theorem Counted.connect {err : Option MsgError} (h : Counted c fds) (hm : IsConnect m)
    (hst : processMsg c m.value m.fd env = .ok (c', err)) :
    Counted c' fun i => fds i ++ fdsOf i [m] := by
  obtain ⟨hpeer, hframe, -⟩ := processMsg_spec hst
  refine ⟨processMsg_tableOk hst h.table, fun i hi => ?_⟩
  have hno : ¬ Disconnects c.dev m i := by
    intro hd
    have hfd := hm.fd
    rw [hd.1] at hfd
    cases hfd
  rw [hpeer, hframe.vectors]
  exact entryAfter_ofFds hi (h.peer i hi) hno

/-- One connect that fits changes the table only. -/
theorem FitsEarly.step (hf : FitsEarly c env fds (m :: l)) (h : Counted c fds) :
    processMsg c m.value m.fd env =
        .ok (c.withPeers (connected c.dev.vectors c.dev.peers m), none) ∧
      Counted (c.withPeers (connected c.dev.vectors c.dev.peers m)) (fun i => fds i ++ fdsOf i [m]) ∧
      FitsEarly (c.withPeers (connected c.dev.vectors c.dev.peers m)) env
        (fun i => fds i ++ fdsOf i [m]) l := by
  have hm := hf.connects m (by simp)
  obtain ⟨i, fd, rfl, hi, hfd⟩ := hm.cases
  have hlen : (fds i ++ fdsOf i (⟨i, some fd⟩ :: l)).length = (fds i).length + 1 + (fdsOf i l).length := by
    rw [fdsOf_cons, hfd, List.length_append, List.length_append, List.length_singleton]
    omega
  have hroom := hf.room i
  rw [hlen] at hroom
  obtain ⟨hhas, hnb⟩ := h.hasRoom hi (by omega)
  have hst : processMsg c i (some fd) env =
      .ok (c.withPeers (connected c.dev.vectors c.dev.peers ⟨i, some fd⟩), none) := by
    refine connect_plain hi hhas fun hid => ?_
    have hown := hf.own i hid
    rw [hlen] at hown
    unfold earlyVectors at hown
    split_ifs at hown with hdel
    · exact ⟨hdel, by omega⟩
    · omega
  refine ⟨hst, h.connect hm hst, fun m hm => hf.connects m (by simp [hm]), fun k => ?_,
    fun k hk => ?_⟩
  · rw [List.append_assoc, ← fdsOf_cons]
    exact hf.room k
  · rw [List.append_assoc, ← fdsOf_cons]
    exact hf.own k hk

/-- **Set-up takes the connects that fit** into the table, and goes on. -/
theorem recv_fits {rest : List Msg} (hf : FitsEarly c env fds l) (h : Counted c fds) :
    recvUntilShmem c env (l ++ rest) =
      recvUntilShmem (c.withPeers (l.foldl (connected c.dev.vectors) c.dev.peers)) env rest := by
  induction l generalizing c fds with
  | nil => rfl
  | cons m l ih =>
    obtain ⟨hst, hcount, hfits⟩ := hf.step h
    have hshm : m.value ≠ -1 := by
      have hrange := (hf.connects m (by simp)).range
      omega
    rw [List.cons_append, recvUntilShmem, hst]
    dsimp only [bind, Except.bind]
    rw [if_neg hshm, ih hfits hcount]
    rfl

/-- **So does the handler after realize.** -/
theorem receive_fits (hf : FitsEarly c env fds l) (h : Counted c fds) :
    exec Ctx.receive c (l.map (·, env)) =
      .ok (c.withPeers (l.foldl (connected c.dev.vectors) c.dev.peers)) := by
  induction l generalizing c fds with
  | nil => rfl
  | cons m l ih =>
    obtain ⟨hst, hcount, hfits⟩ := hf.step h
    have hrec : c.receive (m, env) =
        .ok (c.withPeers (connected c.dev.vectors c.dev.peers m)) := receive_ok.2 ⟨none, hst⟩
    rw [List.map_cons, exec, hrec]
    exact ih hfits hcount

/-- **Own connects that do not fit fault in set-up.** -/
theorem recv_early {rest : List Msg} {i : ℕ} (hpre : ∀ m ∈ l, IsConnect m)
    (hroom : ∀ i : ℕ, (fds i ++ fdsOf i l).length ≤ c.dev.vectors) (hid : (i : ℤ) = c.dev.vmId)
    (hle : (fds i).length ≤ earlyVectors c.dev env)
    (hgt : earlyVectors c.dev env < (fds i ++ fdsOf i l).length)
    (hnone : c.dev.msiVectors = none) (hr : c.dev.realized = false) (h : Counted c fds) :
    recvUntilShmem c env (l ++ rest) = .error .badPointer := by
  induction l generalizing c fds with
  | nil =>
    have hnil : fdsOf i [] = [] := rfl
    rw [hnil, List.append_nil] at hgt
    omega
  | cons m l ih =>
    have hm := hpre m (by simp)
    have hshm : m.value ≠ -1 := by
      have hrange := hm.range
      omega
    by_cases hnow : (fds i ++ fdsOf i [m]).length ≤ earlyVectors c.dev env
    · -- this one still fits
      have hf : FitsEarly c env fds [m] := by
        refine ⟨fun m' hm' => hpre m' (by simp_all), fun k => ?_, fun k hk => ?_⟩
        · have hk := hroom k
          rw [fdsOf_cons, ← List.append_assoc, List.length_append] at hk
          omega
        · obtain rfl : k = i := Int.natCast_inj.1 (hk.trans hid.symm)
          exact hnow
      obtain ⟨hst, hcount, -⟩ := hf.step h
      rw [List.cons_append, recvUntilShmem, hst]
      dsimp only [bind, Except.bind]
      rw [if_neg hshm]
      refine ih (fun m' hm' => hpre m' (by simp [hm'])) (fun k => ?_) hid hnow ?_ hnone hr hcount
      · rw [List.append_assoc, ← fdsOf_cons]
        exact hroom k
      · rw [List.append_assoc, ← fdsOf_cons]
        exact hgt
    · obtain ⟨k, fd, rfl, hk, hfd⟩ := hm.cases
      have hki : k = i := by
        by_contra hne
        have hother : fdsOf i [⟨k, some fd⟩] = [] :=
          fdsOf_singleton_of_ne fun he => hne (Int.natCast_inj.1 he)
        rw [hother, List.append_nil] at hnow
        exact hnow hle
      subst hki
      rw [hfd, List.length_append, List.length_singleton] at hnow
      have hlen := hroom k
      rw [fdsOf_cons, hfd, List.length_append, List.length_append, List.length_singleton] at hlen
      obtain ⟨hhas, hnb⟩ := h.hasRoom hk (by omega)
      have hbad : processMsg c k (some fd) env = .error .badPointer := by
        refine connect_early hk hhas hid hnone hr ?_
        rw [hnb]
        unfold earlyVectors at hle hnow
        split_ifs at hle hnow with hdel
        · exact Or.inr (by omega)
        · exact Or.inl hdel
      rw [List.cons_append, recvUntilShmem, hbad]
      rfl

/-! ## From the first message on -/

/-- The version, the id of the device, some connects, and the shared memory. -/
def initialMsgs (id : ℕ) (pre : List Msg) (shmFd : Fd) : List Msg :=
  ⟨ivshmemProtocolVersion, none⟩ :: ⟨id, none⟩ :: (pre ++ [⟨-1, some shmFd⟩])

/-- Realize with the initial messages, and then the messages that follow. -/
def startUp (c : Ctx x) (masterOn : Bool) (env : Env) (msgs : List Msg) (post : List (Msg × Env)) :
    Except Fault (Except SetupError (Ctx x)) := do
  match ← ivshmemCommonRealize c masterOn env msgs with
  | .error err => pure (.error err)
  | .ok (c, _) => do
    let c ← exec Ctx.receive c post
    pure (.ok c)

/-- Realizing leaves the table alone. -/
theorem realizeRegs_withPeers (c : Ctx x) (ps : List Peer) :
    realizeRegs (ivshmemSetupInterrupts (c.withPeers ps)) =
      (realizeRegs (ivshmemSetupInterrupts c)).withPeers ps := by
  unfold realizeRegs
  dsimp only
  split_ifs with h1 h2
  · rfl
  · exact absurd h1 h2
  · exact absurd ‹_› h1
  · rfl

section
variable {shm : IdtIvshmemShmStorage} {vectors : ℕ} {bars : Fin 6 → BusAddr}
  {requesterId : BitVec 16} {masterOn : Bool} {id : ℕ} {shmFd : Fd}

/-- The device that has taken its id. -/
def withId (shm : IdtIvshmemShmStorage) (vectors : ℕ) (bars : Fin 6 → BusAddr)
    (requesterId : BitVec 16) (id : ℕ) : Ctx x :=
  ⟨shm, { IVShmemState.init x vectors bars requesterId with
    peers := List.replicate 16 (.empty vectors), vmId := id }, []⟩

theorem peer_withId (shm : IdtIvshmemShmStorage) (vectors : ℕ) (bars : Fin 6 → BusAddr)
    (requesterId : BitVec 16) (id : ℕ) (i : ℕ) :
    (withId (x := x) shm vectors bars requesterId id).dev.peer i = .empty vectors := by
  unfold IVShmemState.peer
  cases hp : (withId (x := x) shm vectors bars requesterId id).dev.peers[i]? with
  | none => rfl
  | some p => exact (List.mem_replicate.1 (List.mem_of_getElem? hp)).2

theorem counted_withId (shm : IdtIvshmemShmStorage) (vectors : ℕ) (bars : Fin 6 → BusAddr)
    (requesterId : BitVec 16) (id : ℕ) :
    Counted (withId (x := x) shm vectors bars requesterId id) fun _ => [] := by
  refine ⟨fun i => ?_, fun i _ => ?_⟩
  · rw [peer_withId]
    exact Peer.ok_empty
  · rw [peer_withId]
    exact Peer.ofFds_nil.symm

/-- Realize takes the version and the id, and then receives until the shared memory. -/
theorem commonRealize_withId {msgs : List Msg} (hid : (id : ℤ) ≤ ivshmemMaxPeers) :
    ivshmemCommonRealize (x := x) ⟨shm, .init x vectors bars requesterId, []⟩ masterOn env
        (⟨ivshmemProtocolVersion, none⟩ :: ⟨id, none⟩ :: msgs) =
      recvUntilShmem (withId shm vectors bars requesterId id) env msgs >>= fun r =>
        match r with
        | .error err => pure (.error err)
        | .ok (c, rest) =>
          if masterOn ∧ c.dev.vmId ≠ 0 then pure (.error .master)
          else pure (.ok (realizeRegs (ivshmemSetupInterrupts c), rest)) := by
  have hgrow : resizePeers (x := x) ⟨shm, .init x vectors bars requesterId, []⟩ 16 =
      .ok ⟨shm, { IVShmemState.init x vectors bars requesterId with
        peers := List.replicate 16 (.empty vectors) }, []⟩ := rfl
  have hsetup : ∀ c : Ctx x, ivshmemRecvSetup c env
      (⟨ivshmemProtocolVersion, none⟩ :: ⟨id, none⟩ :: msgs) =
        recvUntilShmem (c.modDev fun d => { d with vmId := id }) env msgs := by
    intro c
    have hnot : ¬ ((none : Option Fd).isSome = true ∨ (id : ℤ) < 0 ∨ ivshmemMaxPeers < id) := by
      simp only [Option.isSome_none, Bool.false_eq_true, false_or, not_or, Int.not_lt]
      exact ⟨Int.natCast_nonneg id, hid⟩
    unfold ivshmemRecvSetup
    dsimp only
    rw [if_neg fun h => h rfl, if_neg (by simp), if_neg hnot]
  unfold ivshmemCommonRealize
  rw [hgrow]
  dsimp only [bind, Except.bind]
  rw [hsetup]
  rfl

/-- The device that has come up, with no connect handled. -/
def comeUp (shm : IdtIvshmemShmStorage) (vectors : ℕ) (bars : Fin 6 → BusAddr)
    (requesterId : BitVec 16) (id : ℕ) (shmFd : Fd) : Ctx x :=
  realizeRegs (ivshmemSetupInterrupts
    ((withId shm vectors bars requesterId id).modDev fun d => { d with ivshmemBar2 := some shmFd }))

theorem comeUp_dev (shm : IdtIvshmemShmStorage) (vectors : ℕ) (bars : Fin 6 → BusAddr)
    (requesterId : BitVec 16) (id : ℕ) (shmFd : Fd) :
    (comeUp (x := x) shm vectors bars requesterId id shmFd).dev =
      { (withId (x := x) shm vectors bars requesterId id).dev with
        ivshmemBar2 := some shmFd
        msiVectors := some (List.replicate vectors default)
        realized := true } := by
  obtain ⟨hdev, -⟩ := realizeRegs_frame (ivshmemSetupInterrupts
    ((withId (x := x) shm vectors bars requesterId id).modDev fun d =>
      { d with ivshmemBar2 := some shmFd }))
  exact hdev

theorem fits_nil (shm : IdtIvshmemShmStorage) (vectors : ℕ) (bars : Fin 6 → BusAddr)
    (requesterId : BitVec 16) (id : ℕ) (env : Env) :
    FitsEarly (withId (x := x) shm vectors bars requesterId id) env (fun _ => []) [] :=
  ⟨by simp, fun _ => Nat.zero_le _, fun _ _ => Nat.zero_le _⟩

/-- Realize with connects that fit leaves them in the table. -/
theorem commonRealize_fits (shmFd : Fd) (hid : (id : ℤ) ≤ ivshmemMaxPeers) (hstat : env.fstat = true)
    (hram : env.initRam = true) (hmaster : masterOn = true → id = 0)
    (hf : FitsEarly (withId (x := x) shm vectors bars requesterId id) env (fun _ => []) l) :
    ivshmemCommonRealize (x := x) ⟨shm, .init x vectors bars requesterId, []⟩ masterOn env
        (initialMsgs id l shmFd) =
      .ok (.ok ((comeUp shm vectors bars requesterId id shmFd).withPeers
        (l.foldl (connected vectors) (List.replicate 16 (.empty vectors))), [])) := by
  have hshm : ∀ c : Ctx x, c.dev.ivshmemBar2 = none →
      recvUntilShmem c env [⟨-1, some shmFd⟩] =
        .ok (.ok (c.modDev fun d => { d with ivshmemBar2 := some shmFd }, [])) := by
    intro c hnone
    unfold recvUntilShmem
    rw [processMsg_shmem]
    unfold processMsgShmem
    rw [hnone, hstat, hram]
    rfl
  have hmast : ¬ (masterOn = true ∧ (id : ℤ) ≠ 0) := by
    rintro ⟨hon, hne⟩
    exact hne (by rw [hmaster hon]; rfl)
  unfold initialMsgs
  rw [commonRealize_withId hid, recv_fits hf (counted_withId shm vectors bars requesterId id)]
  rw [hshm _ rfl]
  dsimp only [bind, Except.bind]
  refine (if_neg hmast).trans ?_
  have hperm := realizeRegs_withPeers ((withId (x := x) shm vectors bars requesterId id).modDev
    fun d => { d with ivshmemBar2 := some shmFd })
    (l.foldl (connected vectors) (List.replicate 16 (.empty vectors)))
  exact congrArg (fun c => Except.ok (Except.ok (c, []))) hperm

/-- **The initial connects may come before or after the shared memory**, with the very same result,
    exactly if no own vector has to be wired before. -/
theorem any_order_iff {pre : List Msg} {post : List (Msg × Env)}
    (hid : (id : ℤ) ≤ ivshmemMaxPeers) (hstat : env.fstat = true) (hram : env.initRam = true)
    (hmaster : masterOn = true → id = 0) (hpre : ∀ m ∈ pre, IsConnect m)
    (hpost : ∀ m ∈ post, IsConnect m.1) (hroom : ∀ i : ℕ, (fdsOf i pre).length ≤ vectors) :
    (∃ c : Ctx x,
      startUp ⟨shm, .init x vectors bars requesterId, []⟩ masterOn env
        (initialMsgs id pre shmFd) post = .ok (.ok c) ∧
      startUp ⟨shm, .init x vectors bars requesterId, []⟩ masterOn env
        (initialMsgs id [] shmFd) (pre.map (·, env) ++ post) = .ok (.ok c)) ↔
    (fdsOf id pre).length ≤
      if env.msiViaIrqfd = true ∧ env.msixEnabled = false then 1 else 0 := by
  have hearly : earlyVectors (withId (x := x) shm vectors bars requesterId id).dev env =
      if env.msiViaIrqfd = true ∧ env.msixEnabled = false then 1 else 0 := by
    have hmsi : (withId (x := x) shm vectors bars requesterId id).dev.hasFeature ivshmemMsi =
        true := by
      show (0x1#32 <<< ivshmemMsi ||| 0x1#32 <<< ivshmemIoeventfd).getLsbD ivshmemMsi = true
      decide
    have hdel : Delayed (withId (x := x) shm vectors bars requesterId id).dev env ↔
        env.msiViaIrqfd = true ∧ env.msixEnabled = false := by
      unfold Delayed
      rw [hmsi]
      simp
    exact if_congr hdel rfl rfl
  rw [← hearly]
  constructor
  · -- an own connect that does not fit is a fault
    rintro ⟨c, hc, -⟩
    by_contra hgt
    have hbad : recvUntilShmem (withId (x := x) shm vectors bars requesterId id) env
        (pre ++ [⟨-1, some shmFd⟩]) = .error .badPointer :=
      recv_early hpre hroom rfl (Nat.zero_le _) (Nat.not_le.1 hgt) rfl rfl
        (counted_withId shm vectors bars requesterId id)
    unfold startUp initialMsgs at hc
    rw [commonRealize_withId hid, hbad] at hc
    cases hc
  · intro hle
    have hown : ∀ i : ℕ, (i : ℤ) = id → (fdsOf i pre).length ≤
        earlyVectors (withId (x := x) shm vectors bars requesterId id).dev env := by
      intro i hi
      rw [Int.natCast_inj.1 hi]
      exact hle
    have hf : FitsEarly (withId (x := x) shm vectors bars requesterId id) env (fun _ => []) pre :=
      ⟨hpre, hroom, hown⟩
    have hreal := commonRealize_fits shmFd hid hstat hram hmaster hf
    have hreal₀ := commonRealize_fits shmFd hid hstat hram hmaster (fits_nil (x := x) shm vectors
      bars requesterId id env)
    have hdev := comeUp_dev (x := x) shm vectors bars requesterId id shmFd
    -- after realize the connects in front make the same table
    have hpeer : ∀ i, (comeUp (x := x) shm vectors bars requesterId id shmFd).dev.peer i =
        (withId (x := x) shm vectors bars requesterId id).dev.peer i := by
      intro i
      rw [hdev]
      rfl
    have hcount : Counted (comeUp (x := x) shm vectors bars requesterId id shmFd) fun _ => [] := by
      obtain ⟨htable, hfds⟩ := counted_withId (x := x) shm vectors bars requesterId id
      refine ⟨fun i => ?_, fun i hi => ?_⟩
      · rw [hpeer, hdev]
        exact htable i
      · rw [hpeer, hdev]
        exact hfds i hi
    have hfits : FitsEarly (comeUp (x := x) shm vectors bars requesterId id shmFd) env (fun _ => [])
        pre := by
      refine ⟨hpre, ?_, ?_⟩
      · rw [hdev]
        exact hroom
      · rw [hdev]
        exact hown
    have hmid := receive_fits hfits hcount
    rw [hdev] at hmid
    -- the device is ready for the connects behind
    obtain ⟨hready, -⟩ := connects_of_realize hreal
    have hall : ∀ m ∈ post, ∀ i : ℕ, m.1.value = i → ¬ Freed
        ((comeUp (x := x) shm vectors bars requesterId id shmFd).withPeers
          (pre.foldl (connected vectors) (List.replicate 16 (.empty vectors)))).dev i := by
      rintro - - i - ⟨-, hfreed⟩
      obtain ⟨-, -, hfree⟩ := freed_of_realize hreal
      obtain ⟨m, hm, hnone, -⟩ := (hfree i).1 hfreed
      have hmsgs : setupMsgs (initialMsgs id pre shmFd) [] = pre ++ [⟨-1, some shmFd⟩] := by
        simp [setupMsgs, initialMsgs]
      rw [hmsgs] at hm
      rcases List.mem_append.1 hm with hm | hm
      · have hfd := (hpre m hm).fd
        rw [hnone] at hfd
        cases hfd
      · rw [List.mem_singleton.1 hm] at hnone
        cases hnone
    have hno : NoRevival ((comeUp (x := x) shm vectors bars requesterId id shmFd).withPeers
        (pre.foldl (connected vectors) (List.replicate 16 (.empty vectors)))).dev
        (post.map Prod.fst) := by
      refine List.pairwise_of_forall_mem_list fun m hm m' _ hr => ?_
      obtain ⟨e, he, rfl⟩ := List.mem_map.1 hm
      have hfd := (hpost e he).fd
      rw [hr.2.1] at hfd
      cases hfd
    obtain ⟨c, hc, -⟩ := exec_ready hready (Or.inr hno) hall
    refine ⟨c, ?_, ?_⟩
    · unfold startUp
      rw [hreal]
      dsimp only [bind, Except.bind]
      rw [hc]
      rfl
    · unfold startUp
      rw [hreal₀]
      dsimp only [bind, Except.bind]
      rw [List.foldl_nil, withPeers_self (by rw [hdev]; rfl), exec_append, hmid]
      dsimp only [bind, Except.bind]
      exact congrArg (fun r => Except.bind r fun c => pure (Except.ok c)) hc

end

/-- The second client connects before the shared memory is sent, and the device itself after. -/
theorem any_order_peer_first : ∃ c : Ctx .vm1,
    startUp ⟨default, .init .vm1 2 (fun _ => default) 0, []⟩ false eventfdEnv
      (initialMsgs 0 [⟨1, some ⟨1, 0⟩⟩, ⟨1, some ⟨1, 1⟩⟩] ⟨0, 0⟩)
      [(⟨0, some ⟨0, 0⟩⟩, eventfdEnv), (⟨0, some ⟨0, 1⟩⟩, eventfdEnv)] = .ok (.ok c) ∧
    startUp ⟨default, .init .vm1 2 (fun _ => default) 0, []⟩ false eventfdEnv
      (initialMsgs 0 [] ⟨0, 0⟩)
      [(⟨1, some ⟨1, 0⟩⟩, eventfdEnv), (⟨1, some ⟨1, 1⟩⟩, eventfdEnv),
        (⟨0, some ⟨0, 0⟩⟩, eventfdEnv), (⟨0, some ⟨0, 1⟩⟩, eventfdEnv)] = .ok (.ok c) := by
  have hpre : ∀ m ∈ [(⟨1, some ⟨1, 0⟩⟩ : Msg), ⟨1, some ⟨1, 1⟩⟩], IsConnect m := by
    intro m hm
    simp only [List.mem_cons, List.not_mem_nil, or_false] at hm
    rcases hm with rfl | rfl <;> exact ⟨rfl, by decide⟩
  have hid : ((0 : ℕ) : ℤ) ≤ ivshmemMaxPeers := by decide
  refine (any_order_iff hid rfl rfl (fun h => by cases h) hpre ?_ ?_).2 (Nat.zero_le _)
  · intro m hm
    simp only [List.mem_cons, List.not_mem_nil, or_false] at hm
    rcases hm with rfl | rfl <;> exact ⟨rfl, by decide⟩
  · intro i
    exact List.length_filterMap_le _ _

/-- **An own connect in front of the shared memory** uses the vectors before they are allocated. -/
theorem own_connect_first : ¬ ∀ (pre : List Msg) (post : List (Msg × Env)),
    (∀ m ∈ pre, IsConnect m) → (∀ m ∈ post, IsConnect m.1) → (∀ i, (fdsOf i pre).length ≤ 2) →
    ∃ c : Ctx .vm1,
      startUp ⟨default, .init .vm1 2 (fun _ => default) 0, []⟩ false eventfdEnv
        (initialMsgs 0 pre ⟨0, 0⟩) post = .ok (.ok c) ∧
      startUp ⟨default, .init .vm1 2 (fun _ => default) 0, []⟩ false eventfdEnv
        (initialMsgs 0 [] ⟨0, 0⟩) (pre.map (·, eventfdEnv) ++ post) = .ok (.ok c) := by
  intro hall
  have hpre : ∀ m ∈ [(⟨0, some ⟨0, 0⟩⟩ : Msg)], IsConnect m := by
    intro m hm
    rw [List.mem_singleton.1 hm]
    exact ⟨rfl, by decide⟩
  obtain ⟨c, hc, -⟩ := hall [⟨0, some ⟨0, 0⟩⟩] [] hpre (by simp)
    fun i => (List.length_filterMap_le _ _).trans (by decide)
  cases hc

end IdtNtb
