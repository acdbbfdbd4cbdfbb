/-
  Set-up on the bytes of the connection.

  `recvSetup` is `ivshmem_recv_setup` with the loops that `ivshmemRecvSetup`
  leaves out: it takes its messages from the reads of the connection, and may go
  around no more often than its fuel says.

  * `recvSetup_mirrors`: on the messages of the stream both do the same, but behind
    the last message `recvSetup` returns only if a read fails;
  * `Concludes`: by what messages set-up comes to an end, told from the messages
    alone; the three cases of one message are `Waiting.faulty`, `Waiting.final`
    and `Waiting.plain`;
  * `setup_returns_iff`: set-up returns exactly if its messages conclude it.
-/
import IdtNtb.Lib.Fuel
import IdtNtb.Orders
import IdtNtb.Receive

namespace IdtNtb

open Runs Fuel

variable {x : Vm} {c c' : Ctx x} {d : IVShmemState x} {env : Env} {before l : List Msg} {m : Msg}

/-! ## What concludes set-up -/

/-- The message is about a client that was disconnected before, or it connects an own vector that
    has to be wired at once. -/
def Faulty (d : IVShmemState x) (env : Env) (before : List Msg) (m : Msg) : Prop :=
  (d.vectors ≠ 0 ∧ ∃ m' ∈ before, Revives d m' m) ∨
  (m.fd.isSome ∧ m.value = d.vmId ∧
    earlyVectors d env ≤ (fdsOf m.value.toNat before).length ∧
    (fdsOf m.value.toNat before).length < d.vectors)

/-- The message is refused, or it brings the shared memory. -/
def Final (d : IVShmemState x) (before : List Msg) (m : Msg) : Prop :=
  m.value < 0 ∨ ivshmemMaxPeers < m.value ∨ (m.fd = none ∧ m.value = d.vmId) ∨
  (m.fd.isSome ∧ d.vectors ≤ (fdsOf m.value.toNat before).length)

instance (d : IVShmemState x) (env : Env) (before : List Msg) (m : Msg) :
    Decidable (Faulty d env before m) := inferInstanceAs (Decidable (_ ∨ _))

/-- No message up to the final one is faulty, and if there is no final one, `fails` holds. -/
def Concludes (d : IVShmemState x) (env : Env) (fails : Prop) (before : List Msg) : List Msg → Prop
  | [] => fails
  | m :: l => ¬ Faulty d env before m ∧ (Final d before m ∨ Concludes d env fails (before ++ [m]) l)

/-- The version and the id of the device are checked first. -/
def SetupConcludes (d : IVShmemState x) (env : Env) (fails : Prop) : List Msg → Prop
  | [] => fails
  | version :: msgs => version.value ≠ ivshmemProtocolVersion ∨ version.fd.isSome ∨
    match msgs with
    | [] => fails
    | id :: msgs => (id.fd.isSome ∨ id.value < 0 ∨ ivshmemMaxPeers < id.value) ∨
      Concludes { d with vmId := id.value } env fails [] msgs

/-- The device, started as `d` with an empty table, has handled some messages and waits for more. -/
structure Waiting (d : IVShmemState x) (env : Env) (before : List Msg) (c : Ctx x) : Prop where
  run : ∃ (c₀ : Ctx x) (t : List (Ctx x × Msg)), Run Receives c₀ t c ∧ t.map Prod.snd = before ∧
    c₀.dev = d
  empty : ∀ i, d.peer i = .empty d.vectors
  framed : Framed d c.dev
  msiVectors : c.dev.msiVectors = none
  realized : c.dev.realized = false
  ivshmemBar2 : c.dev.ivshmemBar2 = none
  own : ∀ i : ℕ, (i : ℤ) = d.vmId → (fdsOf i before).length ≤ earlyVectors d env

namespace Waiting

theorem table (h : Waiting d env before c) : c.dev.TableOk := by
  obtain ⟨c₀, t, ht, -, rfl⟩ := h.run
  obtain ⟨-, -, hok, -⟩ := freed_receives ht
  refine hok fun i => ?_
  rw [h.empty]
  exact Peer.ok_empty

/-- The arrays that are freed are those of the clients that were disconnected. -/
theorem freed (h : Waiting d env before c) (i : ℕ) :
    Freed c.dev i ↔ d.vectors ≠ 0 ∧ ∃ m ∈ before, Disconnects d m i := by
  obtain ⟨c₀, t, ht, rfl, rfl⟩ := h.run
  obtain ⟨-, hvec, -, hfree⟩ := freed_receives ht
  unfold Freed
  rw [hvec, hfree, h.empty]
  simp [Peer.empty]

/-- The other entries are made of the descriptors that came for them. -/
theorem peer (h : Waiting d env before c) {i : ℕ} (hi : (i : ℤ) ≤ ivshmemMaxPeers)
    (hno : ∀ m ∈ before, ¬ Disconnects d m i) :
    c.dev.peer i = .ofFds d.vectors (fdsOf i before) := by
  obtain ⟨c₀, t, ht, rfl, rfl⟩ := h.run
  have h0 : c₀.dev.peer i = .ofFds c₀.dev.vectors [] := by rw [h.empty, Peer.ofFds_nil]
  obtain ⟨-, -, hpeer⟩ := peer_run ht hi h0 fun e he => hno e.2 (List.mem_map_of_mem he)
  rw [hpeer, List.nil_append]

/-- A client that has vectors left and was not disconnected has room for one. -/
theorem hasRoom (h : Waiting d env before c) {i : ℕ} (hi : (i : ℤ) ≤ ivshmemMaxPeers)
    (hno : ∀ m ∈ before, ¬ Disconnects d m i) (hlt : (fdsOf i before).length < d.vectors) :
    HasRoom c i ∧ (c.dev.peer i).nbEventfds = (fdsOf i before).length := by
  have hpeer := h.peer hi hno
  have hnb : (c.dev.peer i).nbEventfds = (fdsOf i before).length := by
    rw [hpeer]
    exact Nat.min_eq_left (Nat.le_of_lt hlt)
  refine ⟨⟨?_, ?_, (h.table i).length⟩, hnb⟩
  · rw [hpeer]
    rfl
  · rw [hnb, h.framed.vectors]
    exact hlt

theorem early (h : Waiting d env before c) : earlyVectors c.dev env = earlyVectors d env := by
  obtain ⟨ps, ms, b, o, hd⟩ := h.framed
  rw [hd]
  rfl

/-- **A faulty message** uses what was freed, or what is not allocated yet. -/
theorem faulty (h : Waiting d env before c) (hid : 0 ≤ d.vmId ∧ d.vmId ≤ ivshmemMaxPeers)
    (hm : Faulty d env before m) : processMsg c m.value m.fd env = .error .badPointer := by
  rcases hm with ⟨hv, m', hm', h0, hd⟩ | ⟨hfd, hown, hle, hlt⟩
  · -- the client was disconnected before
    obtain ⟨i, hi⟩ := Int.eq_ofNat_of_zero_le h0
    rw [hi] at hd ⊢
    refine processMsg_freed m.fd env h.table (hd.2.1 ▸ hd.2.2.1) ?_ ((h.freed i).2 ⟨hv, m', hm', hd⟩)
    rw [h.framed.vmId]
    exact hd.2.1 ▸ hd.2.2.2
  · obtain ⟨i, hi⟩ := Int.eq_ofNat_of_zero_le (hown ▸ hid.1)
    obtain ⟨fd, hfd⟩ := Option.isSome_iff_exists.1 hfd
    rw [hi, Int.toNat_natCast] at hle hlt
    rw [hi] at hown
    have hno : ∀ m ∈ before, ¬ Disconnects d m i := fun m' _ hd => hd.2.2.2 (hd.2.1.trans hown)
    obtain ⟨hroom, hnb⟩ := h.hasRoom (hown ▸ hid.2) hno hlt
    rw [hi, hfd]
    refine connect_early (hown ▸ hid.2) hroom (hown.trans h.framed.vmId.symm) h.msiVectors h.realized ?_
    have hmax := h.own i hown
    rw [hnb]
    rw [← h.early] at hle hmax
    unfold earlyVectors at hle hmax
    split_ifs at hle hmax with hdel
    · exact Or.inr (by omega)
    · exact Or.inl hdel

/-- **A final message** is refused, or maps the shared memory. -/
theorem final (h : Waiting d env before c) (hno : ¬ Faulty d env before m) (hm : Final d before m) :
    ∃ c' err, processMsg c m.value m.fd env = .ok (c', err) ∧ (err = none → m.value = -1) := by
  rcases msg_cases m.value with hbad | hshm | ⟨i, hi, hmax⟩
  · refine ⟨_, _, processMsg_invalid c m.fd env hbad, ?_⟩
    intro h
    cases h
  · rw [hshm]
    exact ⟨_, _, processMsg_shmem c m.fd env, fun _ => rfl⟩
  · unfold Final at hm
    rw [hi, Int.toNat_natCast] at hm
    rw [hi]
    rcases hm with hneg | hbig | ⟨hfd, hown⟩ | ⟨hfd, hfull⟩
    · omega
    · omega
    · -- its own disconnect
      obtain ⟨c₁, hg, hlt, heq⟩ := processMsg_posn c m.fd env hmax
      have hid : (i : ℤ) = c₁.dev.vmId := by rw [hg.framed.vmId, h.framed.vmId, hown]
      refine ⟨c₁, some (.invalidPeer i), ?_, fun h => absurd h (Option.some_ne_none _)⟩
      rw [heq, hfd, Option.elim, processMsgDisconnect, if_pos (Or.inr hid)]
    · obtain ⟨fd, hfd⟩ := Option.isSome_iff_exists.1 hfd
      have hnb : c.dev.vectors ≤ (c.dev.peer i).nbEventfds := by
        rw [h.framed.vectors]
        by_cases hv : d.vectors = 0
        · omega
        · have hpeer := h.peer hmax fun m' hm' hd => hno (Or.inl ⟨hv, m', hm', by
            unfold Revives
            rw [hi]
            exact ⟨Int.natCast_nonneg i, hd⟩⟩)
          rw [hpeer]
          exact le_min hfull le_rfl
      obtain ⟨c', hc', -⟩ := processMsg_full fd env hmax hnb
      refine ⟨c', some (.tooManyEventfds c.dev.vectors), ?_, fun h => absurd h (Option.some_ne_none _)⟩
      rw [hfd]
      exact hc'

/-- The own vectors stay those that are connected early. -/
theorem own_snoc (h : Waiting d env before c) (hno : ¬ Faulty d env before m)
    (hm : ¬ Final d before m) (k : ℕ) (hk : (k : ℤ) = d.vmId) :
    (fdsOf k (before ++ [m])).length ≤ earlyVectors d env := by
  rw [fdsOf_append, List.length_append]
  by_cases hkm : m.value = k
  · rw [fdsOf_singleton hkm]
    cases hfd : m.fd with
    | none => exact h.own k hk
    | some fd =>
      by_contra hgt
      simp only [Option.toList_some, List.length_singleton, not_le] at hgt
      have hfull : ¬ d.vectors ≤ (fdsOf m.value.toNat before).length :=
        fun hle => hm (Or.inr (Or.inr (Or.inr ⟨by rw [hfd]; rfl, hle⟩)))
      refine hno (Or.inr ⟨by rw [hfd]; rfl, hkm.trans hk, ?_, Nat.not_le.1 hfull⟩)
      rw [hkm, Int.toNat_natCast]
      exact Nat.le_of_lt_succ hgt
  · rw [fdsOf_singleton_of_ne hkm]
    exact h.own k hk

/-- A connect that is neither changes the table only. -/
theorem connect {i : ℕ} {fd : Fd} (h : Waiting d env before c) (hmax : (i : ℤ) ≤ ivshmemMaxPeers)
    (hno : ¬ Faulty d env before ⟨i, some fd⟩) (hm : ¬ Final d before ⟨i, some fd⟩) : ∃ ps,
      processMsg c i (some fd) env = .ok (c.withPeers ps, none) := by
  have hlt : (fdsOf i before).length < d.vectors := by
    by_contra hge
    exact hm (Or.inr (Or.inr (Or.inr ⟨rfl, Nat.not_lt.1 hge⟩)))
  have hrevive : ∀ m' ∈ before, ¬ Disconnects d m' i := fun m' hm' hd =>
    hno (Or.inl ⟨by omega, m', hm', Int.natCast_nonneg i, hd⟩)
  obtain ⟨hroom, hnb⟩ := h.hasRoom hmax hrevive hlt
  refine ⟨_, connect_plain hmax hroom fun hid => ?_⟩
  -- an own vector, which is not wired at once
  have hown : (i : ℤ) = d.vmId := hid.trans h.framed.vmId
  have hearly := h.own_snoc hno hm i hown
  rw [fdsOf_append, fdsOf_singleton rfl, ← h.early] at hearly
  simp only [Option.toList_some, List.length_append, List.length_singleton] at hearly
  unfold earlyVectors at hearly
  split_ifs at hearly with hdel
  · exact ⟨hdel, by omega⟩
  · omega

/-- So does a disconnect. -/
theorem disconnect {i : ℕ} (h : Waiting d env before c) (hmax : (i : ℤ) ≤ ivshmemMaxPeers)
    (hno : ¬ Faulty d env before ⟨i, none⟩) (hm : ¬ Final d before ⟨i, none⟩) : ∃ c' ps,
      processMsg c i none env = .ok (c', none) ∧ c'.dev = { c.dev with peers := ps } := by
  obtain ⟨c₁, hg, hlt, heq⟩ := processMsg_posn c none env hmax
  have hid : (i : ℤ) ≠ c₁.dev.vmId := by
    intro hid
    rw [hg.framed.vmId, h.framed.vmId] at hid
    exact hm (Or.inr (Or.inr (Or.inl ⟨rfl, hid⟩)))
  have hfree : ¬ Freed c₁.dev i := by
    intro hf
    have hf' : Freed c.dev i := by
      unfold Freed at hf ⊢
      rw [hg.peer, hg.framed.vectors] at hf
      exact hf
    obtain ⟨hv, m', hm', hd⟩ := (h.freed i).1 hf'
    exact hno (Or.inl ⟨hv, m', hm', Int.natCast_nonneg i, hd⟩)
  rcases closePeerEventfds_ends hlt with ⟨hf, -⟩ | ⟨-, c₂, ps, hclose, hdev, -⟩
  · exact absurd hf hfree
  · refine ⟨c₂, ps, ?_, ?_⟩
    · rw [heq, Option.elim, processMsgDisconnect, if_neg (by omega), hclose]
      rfl
    · obtain ⟨ps', rfl⟩ := hg.table
      exact hdev

/-- **Any other message** changes the table, and set-up waits for the next. -/
theorem plain (h : Waiting d env before c) (hno : ¬ Faulty d env before m)
    (hm : ¬ Final d before m) : m.value ≠ -1 ∧ ∃ c',
      processMsg c m.value m.fd env = .ok (c', none) ∧ Waiting d env (before ++ [m]) c' := by
  obtain ⟨value, fd⟩ := m
  have hrange : ¬ (value < 0 ∨ ivshmemMaxPeers < value) := fun hout =>
    hm (hout.imp id Or.inl)
  obtain ⟨i, rfl⟩ := Int.eq_ofNat_of_zero_le (show 0 ≤ value by omega)
  have hmax : (i : ℤ) ≤ ivshmemMaxPeers := by omega
  obtain ⟨c', ps, hc', hdev⟩ : ∃ c' ps, processMsg c i fd env = .ok (c', none) ∧
      c'.dev = { c.dev with peers := ps } := by
    cases fd with
    | some fd =>
      obtain ⟨ps, hps⟩ := h.connect hmax hno hm
      exact ⟨_, ps, hps, rfl⟩
    | none => exact h.disconnect hmax hno hm
  obtain ⟨c₀, t, ht, rfl, hd⟩ := h.run
  obtain ⟨-, hframe, -⟩ := processMsg_spec hc'
  have hne : (i : ℤ) ≠ -1 := by omega
  refine ⟨hne, c', hc', ⟨c₀, t ++ [(c, ⟨i, fd⟩)], ht.snoc ⟨env, none, hc'⟩, ?_, hd⟩, h.empty,
    h.framed.trans hframe, ?_, ?_, ?_, h.own_snoc hno hm⟩
  · rw [List.map_append]
    rfl
  · rw [hdev]
    exact h.msiVectors
  · rw [hdev]
    exact h.realized
  · rw [hdev]
    exact h.ivshmemBar2

end Waiting

/-! ## On the messages -/

/-- Set-up ends on the messages, or it needs another one, and `fails` holds. -/
def Answered (fails : Prop) (r : Except Fault (Except SetupError (Ctx x × List Msg))) : Prop :=
  ∃ r', r = .ok r' ∧ (r' = .error .read → fails)

/-- **The loop ends exactly if its messages conclude it.** -/
theorem recvUntilShmem_answered {fails : Prop} (h : Waiting d env before c)
    (hid : 0 ≤ d.vmId ∧ d.vmId ≤ ivshmemMaxPeers) :
    Answered fails (recvUntilShmem c env l) ↔ Concludes d env fails before l := by
  induction l generalizing c before with
  | nil =>
    refine ⟨?_, fun hf => ⟨.error .read, rfl, fun _ => hf⟩⟩
    rintro ⟨r, hr, hread⟩
    cases hr
    exact hread rfl
  | cons m l ih =>
    unfold recvUntilShmem Concludes
    by_cases hfaulty : Faulty d env before m
    · rw [h.faulty hid hfaulty]
      refine ⟨?_, fun hc => absurd hfaulty hc.1⟩
      rintro ⟨r, hr, -⟩
      cases hr
    by_cases hfinal : Final d before m
    · obtain ⟨c', err, hm, hshm⟩ := h.final hfaulty hfinal
      refine iff_of_true ?_ ⟨hfaulty, Or.inl hfinal⟩
      rw [hm]
      cases err with
      | some err => exact ⟨_, rfl, by simp⟩
      | none =>
        refine ⟨.ok (c', l), ?_, by simp⟩
        dsimp only [bind, Except.bind]
        rw [if_pos (hshm rfl)]
        rfl
    · obtain ⟨hne, c', hm, hw⟩ := h.plain hfaulty hfinal
      rw [hm]
      dsimp only [bind, Except.bind]
      rw [if_neg hne, ih hw]
      exact ⟨fun hc => ⟨hfaulty, Or.inr hc⟩, fun hc => hc.2.resolve_left hfinal⟩

/-- The shared memory is mapped when its message is handled without an error. -/
theorem processMsg_mapped {fd : Option Fd} (h : processMsg c (-1) fd env = .ok (c', none)) :
    c'.dev.ivshmemBar2.isSome := by
  rw [processMsg_shmem] at h
  unfold processMsgShmem at h
  split_ifs at h with hbar hnone hram
  · cases h
  · cases h
  · cases h
  · cases h
    rw [not_or, Option.isNone_iff_eq_none] at hnone
    exact Option.isSome_iff_ne_none.2 hnone.1

theorem recvUntilShmem_mapped {rest : List Msg} (h : recvUntilShmem c env l = .ok (.ok (c', rest))) :
    c'.dev.ivshmemBar2.isSome := by
  induction l generalizing c with
  | nil => cases h
  | cons m l ih =>
    obtain ⟨c₁, h₁, ⟨hshm, rfl, rfl⟩ | h⟩ := recvUntilShmem_cons h
    · rw [hshm] at h₁
      exact processMsg_mapped h₁
    · exact ih h

section
variable {shm : IdtIvshmemShmStorage} {vectors : ℕ} {bars : Fin 6 → BusAddr}
  {requesterId : BitVec 16}

/-- A device with an empty table for sixteen clients, which waits for the first message. -/
def starting (shm : IdtIvshmemShmStorage) (vectors : ℕ) (bars : Fin 6 → BusAddr)
    (requesterId : BitVec 16) : Ctx x := withId shm vectors bars requesterId 0

/-- Once the id is there, the loop is entered. -/
theorem waiting_starting {id : ℤ} :
    Waiting { (starting (x := x) shm vectors bars requesterId).dev with vmId := id } env []
      ((starting shm vectors bars requesterId).modDev fun d => { d with vmId := id }) := by
  refine ⟨⟨_, [], .nil, rfl, rfl⟩, fun i => ?_, .refl _, rfl, rfl, rfl, fun _ _ => Nat.zero_le _⟩
  exact peer_withId (x := x) shm vectors bars requesterId 0 i

/-- **Set-up ends exactly if its messages conclude it.** -/
theorem recvSetup_answered {fails : Prop} :
    Answered fails (ivshmemRecvSetup (starting (x := x) shm vectors bars requesterId) env l) ↔
      SetupConcludes (starting (x := x) shm vectors bars requesterId).dev env fails l := by
  have hread : Answered (x := x) fails (.ok (.error .read)) ↔ fails := by
    refine ⟨?_, fun hf => ⟨_, rfl, fun _ => hf⟩⟩
    rintro ⟨r, hr, hf⟩
    cases hr
    exact hf rfl
  have herror : ∀ err : SetupError, err ≠ .read → Answered (x := x) fails (.ok (.error err)) := by
    intro err hne
    refine ⟨_, rfl, fun he => ?_⟩
    cases he
    exact absurd rfl hne
  rcases l with _ | ⟨version, l⟩
  · exact hread
  unfold ivshmemRecvSetup SetupConcludes
  dsimp only
  by_cases hversion : version.value ≠ ivshmemProtocolVersion
  · rw [if_pos hversion]
    exact iff_of_true (herror _ nofun) (Or.inl hversion)
  rw [if_neg hversion]
  by_cases hfd : version.fd.isSome = true
  · rw [if_pos hfd]
    exact iff_of_true (herror _ nofun) (Or.inr (Or.inl hfd))
  rw [if_neg hfd, or_iff_right hversion, or_iff_right hfd]
  rcases l with _ | ⟨id, l⟩
  · exact hread
  dsimp only
  by_cases hid : id.fd.isSome = true ∨ id.value < 0 ∨ ivshmemMaxPeers < id.value
  · rw [if_pos hid]
    exact iff_of_true (herror _ nofun) (Or.inl hid)
  · rw [if_neg hid, or_iff_right hid]
    have hrange : 0 ≤ id.value ∧ id.value ≤ ivshmemMaxPeers := by
      simp only [not_or, Int.not_lt] at hid
      exact hid.2
    exact recvUntilShmem_answered waiting_starting hrange

end

/-! ## On the bytes -/

/-- The messages of the connection, with what `qemu_chr_fe_get_msgfd` returns after each. -/
def msgsOn (fds : ℕ → Option Fd) (conn : List ReadResult) : List Msg :=
  (messagesOf (received conn)).mapIdx fun i v => ⟨v, fds i⟩

/-- The loop of `ivshmem_recv_setup` and the assertion behind it.  `buf` is what the variable of a
    message holds before it is received. -/
def recvLoop (buf : List (BitVec 8)) (env : Env) : ℕ → Ctx x → (ℕ → Option Fd) → List ReadResult →
    Option (Except Fault (Except SetupError (Ctx x × List ReadResult)))
  | 0, _, _, _ => none
  | fuel + 1, c, fds, conn => do
    match ← ivshmemRecvMsg fuel buf 0 conn with
    | (.error _, _) => some (.ok (.error .read))
    | (.ok msg, conn) =>
      match processMsg c msg (fds 0) env with
      | .error f => some (.error f)
      | .ok (_, some err) => some (.ok (.error (.message err)))
      | .ok (c, none) =>
        if msg ≠ -1 then recvLoop buf env fuel c (fun i => fds (i + 1)) conn
        else if c.dev.ivshmemBar2.isSome then some (.ok (.ok (c, conn)))
        else some (.error .assertion)

/-- `ivshmem_recv_setup` -/
def recvSetup (buf : List (BitVec 8)) (env : Env) (c : Ctx x) (fds : ℕ → Option Fd)
    (conn : List ReadResult) (fuel : ℕ) :
    Option (Except Fault (Except SetupError (Ctx x × List ReadResult))) := do
  match ← ivshmemRecvMsg fuel buf 0 conn with
  | (.error _, _) => some (.ok (.error .read))
  | (.ok version, conn) =>
    if version ≠ ivshmemProtocolVersion then some (.ok (.error (.version version)))
    else if (fds 0).isSome then some (.ok (.error .versionMessage))
    else
      match ← ivshmemRecvMsg fuel buf 0 conn with
      | (.error _, _) => some (.ok (.error .read))
      | (.ok id, conn) =>
        if (fds 1).isSome ∨ id < 0 ∨ ivshmemMaxPeers < id then some (.ok (.error .idMessage))
        else
          recvLoop buf env fuel (c.modDev fun d => { d with vmId := id }) (fun i => fds (i + 2)) conn

/-- On the connection set-up ends as it does on the messages; where it needs one message more, it
    ends if `fails` holds, and hangs otherwise. -/
structure Mirrors (fails : Prop)
    (run : ℕ → Option (Except Fault (Except SetupError (Ctx x × List ReadResult))))
    (r : Except Fault (Except SetupError (Ctx x × List Msg))) : Prop where
  hangs : r = .ok (.error .read) → ¬ fails → Hangs run
  settles : (r = .ok (.error .read) → fails) → ∃ r', Settles run r' ∧
    r'.map (Except.map Prod.fst) = r.map (Except.map Prod.fst)

variable {buf : List (BitVec 8)} {fds : ℕ → Option Fd} {conn : List ReadResult}

/-- A receive takes the next message, fails, or hangs. -/
theorem recv_cases (hbuf : buf.length = 8) (fds : ℕ → Option Fd) (conn : List ReadResult) :
    (∃ v conn', Settles (ivshmemRecvMsg · buf 0 conn) (.ok v, conn') ∧
      msgsOn fds conn = ⟨v, fds 0⟩ :: msgsOn (fun i => fds (i + 1)) conn' ∧
      (Fails conn' ↔ Fails conn)) ∨
    (msgsOn fds conn = [] ∧ Fails conn ∧ ∃ errno conn',
      Settles (ivshmemRecvMsg · buf 0 conn) (.error errno, conn')) ∨
    (msgsOn fds conn = [] ∧ ¬ Fails conn ∧ Hangs (ivshmemRecvMsg · buf 0 conn)) := by
  have hsettles : ∀ {fuel r}, ivshmemRecvMsg fuel buf 0 conn = some r →
      Settles (ivshmemRecvMsg · buf 0 conn) r := fun h =>
    .of_mono (fun _ _ _ hle hr => recvMsg_mono hle hr) h
  by_cases hlen : (received conn).length < 8
  · have hnil : msgsOn fds conn = [] := by
      unfold msgsOn
      rw [messagesOf_of_lt hlen]
      rfl
    by_cases hf : Fails conn
    · have hrecv : ∃ fuel errno conn', ivshmemRecvMsg fuel buf 0 conn = some (.error errno, conn') :=
        recvMsg_fails hlen hf
      obtain ⟨fuel, errno, conn', hrecv⟩ := hrecv
      exact Or.inr (Or.inl ⟨hnil, hf, errno, conn', hsettles hrecv⟩)
    · exact Or.inr (Or.inr ⟨hnil, hf, fun fuel => recvMsg_short hlen hf⟩)
  · have hlong : 8 - 0 ≤ (received conn).length := by omega
    obtain ⟨fuel, conn', hrecv, -⟩ := recvMsg_complete hbuf (by decide) hlong
    obtain ⟨hhead, hfails⟩ := recvMsg_head hbuf hrecv
    refine Or.inl ⟨_, conn', hsettles hrecv, ?_, hfails⟩
    unfold msgsOn
    rw [hhead, List.mapIdx_cons]

namespace Mirrors

variable {fails : Prop} {run : ℕ → Option (Except Fault (Except SetupError (Ctx x × List ReadResult)))}
  {r : Except Fault (Except SetupError (Ctx x × List Msg))}
  {f : Except ℕ ℤ × List ReadResult → ℕ →
    Option (Except Fault (Except SetupError (Ctx x × List ReadResult)))}
  {recv : ℕ → Option (Except ℕ ℤ × List ReadResult)} {a : Except ℕ ℤ × List ReadResult}

theorem some (r' : Except Fault (Except SetupError (Ctx x × List ReadResult)))
    (hr : r'.map (Except.map Prod.fst) = r.map (Except.map Prod.fst))
    (hread : r ≠ .ok (.error .read)) : Mirrors fails (fun _ => .some r') r :=
  ⟨fun h => absurd h hread, fun _ => ⟨r', .some r', hr⟩⟩

/-- A message is received, and then set-up goes on. -/
theorem bind (h : Settles recv a) (hf : Mirrors fails (f a) r) :
    Mirrors fails (fun fuel => (recv fuel).bind fun a => f a fuel) r := by
  refine ⟨fun hr hno => h.bind_hangs (hf.hangs hr hno), fun hr => ?_⟩
  obtain ⟨r', hs, hmap⟩ := hf.settles hr
  exact ⟨r', h.bind hs, hmap⟩

theorem succ (h0 : run 0 = none) (h : Mirrors fails (fun fuel => run (fuel + 1)) r) :
    Mirrors fails run r := by
  refine ⟨fun hr hno => .succ h0 (h.hangs hr hno), fun hr => ?_⟩
  obtain ⟨r', hs, hmap⟩ := h.settles hr
  exact ⟨r', .succ h0 hs, hmap⟩

end Mirrors

/-- **The loop takes the messages of the stream**, and its assertion never fails. -/
theorem recvLoop_mirrors (hbuf : buf.length = 8) (l : List Msg) (hl : msgsOn fds conn = l) :
    Mirrors (Fails conn) (recvLoop buf env · c fds conn) (recvUntilShmem c env l) := by
  induction l generalizing c fds conn with
  | nil =>
    refine .succ rfl ?_
    rcases recv_cases hbuf fds conn with ⟨v, conn', -, hcons, -⟩ | ⟨-, hf, errno, conn', hs⟩ |
      ⟨-, hf, hh⟩
    · rw [hl] at hcons
      cases hcons
    · exact ⟨fun _ hno => absurd hf hno, fun _ => ⟨_, hs.bind (.some _), rfl⟩⟩
    · exact ⟨fun _ _ => hh.bind, fun hr => absurd (hr rfl) hf⟩
  | cons m l ih =>
    refine .succ rfl ?_
    rcases recv_cases hbuf fds conn with ⟨v, conn', hs, hcons, hfails⟩ | ⟨hnil, -⟩ | ⟨hnil, -⟩
    · rw [hl] at hcons
      obtain ⟨rfl, hrest⟩ := List.cons.inj hcons
      refine .bind hs ?_
      unfold recvUntilShmem
      dsimp only
      cases hm : processMsg c v (fds 0) env with
      | error f => exact .some _ rfl fun h => by cases h
      | ok r =>
        obtain ⟨c₁, err⟩ := r
        cases err with
        | some err => exact .some _ rfl fun h => by cases h
        | none =>
          dsimp only [bind, Except.bind]
          by_cases hv : v = -1
          · subst hv
            simp only [ne_eq, not_true_eq_false, if_false, if_true, processMsg_mapped hm]
            exact .some _ rfl fun h => by cases h
          · simp only [ne_eq, hv, not_false_eq_true, if_true, if_false]
            rw [← hfails]
            exact ih hrest.symm
    · rw [hl] at hnil
      cases hnil
    · rw [hl] at hnil
      cases hnil

/-- **So does all of set-up.** -/
theorem recvSetup_mirrors (hbuf : buf.length = 8) :
    Mirrors (Fails conn) (recvSetup buf env c fds conn) (ivshmemRecvSetup c env (msgsOn fds conn)) := by
  rcases recv_cases hbuf fds conn with ⟨version, conn₁, hs, hcons, hfails⟩ |
    ⟨hnil, hf, errno, conn₁, hs⟩ | ⟨hnil, hf, hh⟩
  · rw [hcons]
    refine .bind hs ?_
    unfold ivshmemRecvSetup
    dsimp only
    by_cases hversion : version ≠ ivshmemProtocolVersion
    · simp only [if_pos hversion]
      exact .some _ rfl (by simp)
    simp only [if_neg hversion]
    by_cases hfd : (fds 0).isSome = true
    · simp only [if_pos hfd]
      exact .some _ rfl (by simp)
    simp only [if_neg hfd]
    rw [← hfails]
    rcases recv_cases hbuf (fun i => fds (i + 1)) conn₁ with ⟨id, conn₂, hs, hcons, hfails⟩ |
      ⟨hnil, hf, errno, conn₂, hs⟩ | ⟨hnil, hf, hh⟩
    · rw [hcons]
      refine .bind hs ?_
      dsimp only
      by_cases hid : (fds 1).isSome = true ∨ id < 0 ∨ ivshmemMaxPeers < id
      · simp only [if_pos hid]
        exact .some _ rfl (by simp)
      · simp only [if_neg hid]
        rw [← hfails]
        exact recvLoop_mirrors hbuf _ rfl
    · rw [hnil]
      exact ⟨fun _ hno => absurd hf hno, fun _ => ⟨_, hs.bind (.some _), rfl⟩⟩
    · rw [hnil]
      exact ⟨fun _ _ => hh.bind, fun hr => absurd (hr rfl) hf⟩
  · rw [hnil]
    exact ⟨fun _ hno => absurd hf hno, fun _ => ⟨_, hs.bind (.some _), rfl⟩⟩
  · rw [hnil]
    exact ⟨fun _ _ => hh.bind, fun hr => absurd (hr rfl) hf⟩

/-! ## Set-up that returns -/

/-- Set-up returns: with an error, or with the version checked, an id in range and the shared memory
    mapped. -/
def Returns (buf : List (BitVec 8)) (env : Env) (c : Ctx x) (fds : ℕ → Option Fd)
    (conn : List ReadResult) : Prop :=
  ∃ fuel r, recvSetup buf env c fds conn fuel = some (.ok r) ∧ ∀ c' conn', r = .ok (c', conn') →
    (messagesOf (received conn)).head? = some ivshmemProtocolVersion ∧
    (0 ≤ c'.dev.vmId ∧ c'.dev.vmId ≤ ivshmemMaxPeers) ∧ c'.dev.ivshmemBar2.isSome

theorem ivshmemRecvSetup_version {rest : List Msg}
    (h : ivshmemRecvSetup c env (msgsOn fds conn) = .ok (.ok (c', rest))) :
    (messagesOf (received conn)).head? = some ivshmemProtocolVersion := by
  unfold msgsOn at h
  cases hmsgs : messagesOf (received conn) with
  | nil =>
    rw [hmsgs] at h
    cases h
  | cons version l =>
    rw [hmsgs, List.mapIdx_cons] at h
    unfold ivshmemRecvSetup at h
    dsimp only at h
    by_cases hversion : version ≠ ivshmemProtocolVersion
    · rw [if_pos hversion] at h
      cases h
    · rw [List.head?_cons, not_not.1 hversion]

/-- Set-up without an error leaves what the rest of realize needs. -/
theorem ivshmemRecvSetup_ok {rest : List Msg} (h : ivshmemRecvSetup c env l = .ok (.ok (c', rest))) :
    (0 ≤ c'.dev.vmId ∧ c'.dev.vmId ≤ ivshmemMaxPeers) ∧ c'.dev.ivshmemBar2.isSome := by
  obtain ⟨version, id, msgs, rfl, h0, hmax, hrecv⟩ := ivshmemRecvSetup_until h
  obtain ⟨t, ht, -⟩ := receives_of_recv hrecv
  obtain ⟨hid, -⟩ := freed_receives ht
  refine ⟨?_, recvUntilShmem_mapped hrecv⟩
  rw [hid]
  exact ⟨h0, hmax⟩

/-- **Set-up returns exactly if its messages conclude it.** -/
theorem setup_returns_iff (shm : IdtIvshmemShmStorage) (vectors : ℕ) (bars : Fin 6 → BusAddr)
    (requesterId : BitVec 16) (hbuf : buf.length = 8) :
    Returns buf env (starting (x := x) shm vectors bars requesterId) fds conn ↔
      SetupConcludes (starting (x := x) shm vectors bars requesterId).dev env (Fails conn)
        (msgsOn fds conn) := by
  rw [← recvSetup_answered]
  have hmirrors : Mirrors (Fails conn)
      (recvSetup buf env (starting (x := x) shm vectors bars requesterId) fds conn) _ :=
    recvSetup_mirrors hbuf
  constructor
  · rintro ⟨fuel, r, hrun, -⟩
    have hread : ivshmemRecvSetup (starting (x := x) shm vectors bars requesterId) env
        (msgsOn fds conn) = .ok (.error .read) → Fails conn := by
      intro hr
      by_contra hno
      rw [hmirrors.hangs hr hno fuel] at hrun
      cases hrun
    obtain ⟨r', hs, hmap⟩ := hmirrors.settles hread
    obtain rfl := hs.eq hrun
    cases hr : ivshmemRecvSetup (starting (x := x) shm vectors bars requesterId) env
        (msgsOn fds conn) with
    | error f =>
      rw [hr] at hmap
      cases hmap
    | ok r₀ => exact ⟨r₀, rfl, fun he => hread (hr.trans (congrArg Except.ok he))⟩
  · rintro ⟨r, hr, hread⟩
    obtain ⟨r', hs, hmap⟩ := hmirrors.settles fun he => hread (Except.ok.inj (hr.symm.trans he))
    obtain ⟨fuel, hrun⟩ := hs.ends
    rw [hr] at hmap
    cases r' with
    | error f => cases hmap
    | ok r' =>
      refine ⟨fuel, r', hrun fuel le_rfl, ?_⟩
      rintro c' conn' rfl
      cases r with
      | error err => cases hmap
      | ok r =>
        obtain ⟨c₀, rest⟩ := r
        cases hmap
        exact ⟨ivshmemRecvSetup_version hr, ivshmemRecvSetup_ok hr⟩

/-- The version, the id and the shared memory, with reads that cut the messages. -/
def cutReads : List ReadResult :=
  [.bytes (List.replicate 5 0), .eintr, .bytes (List.replicate 11 0), .bytes (List.replicate 8 0xFF)]

/-- The third message comes with a descriptor. -/
def thirdFd (i : ℕ) : Option Fd := if i = 2 then some ⟨0, 0⟩ else none

theorem setup_returns_cut : Returns (List.replicate 8 0) eventfdEnv
    (starting (x := .vm1) default 2 (fun _ => default) 0) thirdFd cutReads := by
  refine (setup_returns_iff default 2 (fun _ => default) 0 List.length_replicate).2 ?_
  have hmsgs : msgsOn thirdFd cutReads = [⟨0, none⟩, ⟨0, none⟩, ⟨-1, some ⟨0, 0⟩⟩] := by decide
  rw [hmsgs]
  exact Or.inr (Or.inr (Or.inr ⟨by decide, Or.inl (Or.inl (by decide))⟩))

/-- **The server dies inside the first message**: set-up goes on reading nothing. -/
theorem server_dies : ¬ ∀ conn : List ReadResult, Returns (List.replicate 8 0) eventfdEnv
    (starting (x := .vm1) default 2 (fun _ => default) 0) thirdFd conn := by
  intro hall
  obtain ⟨fuel, r, hrun, -⟩ := hall [.bytes [0, 0, 0]]
  have hno : ¬ Fails [.bytes [0, 0, 0]] := by
    rintro ⟨errno, hmem⟩
    rw [List.mem_singleton] at hmem
    cases hmem
  have hrecv : ivshmemRecvMsg fuel (List.replicate 8 0) 0 [.bytes [0, 0, 0]] = none :=
    recvMsg_short (by decide) hno
  unfold recvSetup at hrun
  rw [hrecv] at hrun
  cases hrun

end IdtNtb
