/-
  Where descriptors are over the life of a device.

  A message hands its descriptor to the device.  From then on it is in a slot of
  the peer table, behind the shared memory region, or closed; what the device
  holds is a multiset, since nothing keeps the server from sending one
  descriptor twice.

  * `balances_message`: a message adds its own descriptor to what is held or
    closed, whether it succeeds or fails, except where the shared memory cannot
    be mapped;
  * `descriptors_balance`: over the whole life of a device, from realize on,
    each descriptor received is held once or was closed once, and exit closes
    all that are held but the one of the region.
-/
import IdtNtb.Lib.Ledger
import IdtNtb.Failures
import Mathlib.Algebra.Order.Group.Multiset
import Mathlib.Data.List.ReduceOption

namespace IdtNtb

open Runs

variable {x : Vm} {c c' : Ctx x} {msg : ℤ} {fd : Option Fd} {env : Env} {err : Option MsgError}

/-! ## What is held -/

/-- The descriptors in the slots that are counted. -/
def Peer.held (p : Peer) : Multiset Fd := ↑(p.eventfds.take p.nbEventfds).reduceOption

/-- The descriptors in the peer table. -/
def IVShmemState.slotFds (d : IVShmemState x) : Multiset Fd := (d.peers.map Peer.held).sum

/-- The descriptor of the shared memory region. -/
def IVShmemState.regionFd (d : IVShmemState x) : Multiset Fd := ↑d.ivshmemBar2.toList

/-- The descriptors that the device holds. -/
def IVShmemState.held (d : IVShmemState x) : Multiset Fd := d.slotFds + d.regionFd

namespace Peer

theorem held_of_zero {p : Peer} (h : p.nbEventfds = 0) : p.held = 0 := by
  unfold held
  rw [h, List.take_zero]
  rfl

theorem held_empty (vectors : ℕ) : (empty vectors).held = 0 := held_of_zero rfl

theorem held_close (p : Peer) : p.close.held = 0 := held_of_zero rfl

theorem held_connect {p : Peer} {fd : Fd} (h : p.nbEventfds < p.eventfds.length) :
    (p.connect fd).held = p.held + {fd} := by
  have htake : (p.eventfds.set p.nbEventfds (some fd)).take (p.nbEventfds + 1) =
      p.eventfds.take p.nbEventfds ++ [some fd] := by
    rw [List.take_add_one, List.take_set_of_le le_rfl, List.getElem?_set_self h]
    rfl
  unfold held
  simp only [connect]
  rw [htake, List.reduceOption_append]
  rfl

end Peer

/-- The entries past the end of the table hold nothing. -/
theorem slotFds_eq (d : IVShmemState x) {n : ℕ} (h : d.nbPeers ≤ n) :
    d.slotFds = ((List.range n).map fun i => (d.peer i).held).sum := by
  have hpeers : d.peers = (List.range d.nbPeers).map d.peer := by
    refine List.ext_getElem? fun i => ?_
    by_cases hi : i < d.nbPeers
    · rw [IVShmemState.getElem?_peer hi, List.getElem?_map, List.getElem?_range hi]
      rfl
    · rw [List.getElem?_eq_none (Nat.le_of_not_lt hi), List.getElem?_eq_none (by simpa using hi)]
  have hpast : ∀ m ∈ ((List.range (n - d.nbPeers)).map (d.nbPeers + ·)).map
      fun i => (d.peer i).held, m = 0 := by
    intro m hm
    obtain ⟨i, hi, rfl⟩ := List.mem_map.1 hm
    obtain ⟨k, -, rfl⟩ := List.mem_map.1 hi
    rw [d.peer_of_le (Nat.le_add_right _ _), Peer.held_empty]
  rw [← Nat.add_sub_cancel' h, List.range_add, List.map_append, List.sum_append,
    List.sum_eq_zero hpast, add_zero, IVShmemState.slotFds]
  conv_lhs => rw [hpeers, List.map_map]
  rfl

/-- Tables with the same entries hold the same, however long they are. -/
theorem slotFds_congr {d d' : IVShmemState x} (h : ∀ i, d'.peer i = d.peer i) :
    d'.slotFds = d.slotFds := by
  rw [slotFds_eq d' (le_max_right d.nbPeers _), slotFds_eq d (le_max_left _ d'.nbPeers)]
  simp only [h]

/-- Replacing one entry of the table. -/
theorem slotFds_set {d : IVShmemState x} {posn : ℕ} {p : Peer} (h : posn < d.nbPeers) :
    ({ d with peers := d.peers.set posn p } : IVShmemState x).slotFds + (d.peer posn).held =
      d.slotFds + p.held := by
  unfold IVShmemState.slotFds
  rw [List.map_set]
  refine sum_set_add ?_ _
  rw [List.getElem?_map, IVShmemState.getElem?_peer h]
  rfl

/-! ## Balances -/

/-- What is held or closed afterwards is what was before, and the descriptors received. -/
def Balances (c c' : Ctx x) (l : Multiset Fd) : Prop :=
  ↑c'.closed + c'.dev.held = ↑c.closed + c.dev.held + l

theorem Balances.refl (c : Ctx x) : Balances c c 0 := (add_zero _).symm

theorem Balances.trans {c'' : Ctx x} {l l' : Multiset Fd} (h : Balances c c' l)
    (h' : Balances c' c'' l') : Balances c c'' (l + l') := by
  unfold Balances at h h' ⊢
  rw [h', h, add_assoc]

/-- Nothing was closed, and the table and the region are the same. -/
theorem Balances.of_keeps (h : WiringKeeps c c') : Balances c c' 0 := by
  unfold Balances IVShmemState.held IVShmemState.slotFds IVShmemState.regionFd
  rw [h.closed, h.peers, h.ivshmemBar2, add_zero]

theorem balances_closeFd (c : Ctx x) (fd : Option Fd) : Balances c (c.closeFd fd) ↑fd.toList := by
  obtain ⟨hdev, -⟩ := closeFd_frame c fd
  unfold Balances
  rw [hdev, Ctx.closed_closeFd, ← Multiset.coe_add]
  ac_rfl

theorem closed_closeFds (l : List (Option Fd)) (c : Ctx x) :
    (l.foldl Ctx.closeFd c).closed = c.closed ++ l.reduceOption := by
  induction l generalizing c with
  | nil => exact (List.append_nil _).symm
  | cons fd l ih =>
    rw [List.foldl_cons, ih, Ctx.closed_closeFd, List.append_assoc]
    cases fd <;> rfl

theorem Balances.of_grown (h : Grown c c') : Balances c c' 0 := by
  have hslots := slotFds_congr h.peer
  obtain ⟨ps, rfl⟩ := h.table
  unfold Balances IVShmemState.held
  rw [hslots, add_zero]
  rfl

/-- One entry of the table is replaced, and what it lets go is closed. -/
theorem balances_set {posn : ℕ} {p : Peer} {l : List Fd} {m : Multiset Fd}
    (hlt : posn < c.dev.nbPeers) (hclosed : c'.closed = c.closed ++ l)
    (hdev : c'.dev = { c.dev with peers := c.dev.peers.set posn p })
    (h : ↑l + p.held = (c.dev.peer posn).held + m) : Balances c c' m := by
  have hslots : c'.dev.slotFds + (c.dev.peer posn).held = c.dev.slotFds + p.held := by
    rw [hdev]
    exact slotFds_set hlt
  have hregion : c'.dev.regionFd = c.dev.regionFd := by
    rw [hdev]
    rfl
  unfold Balances IVShmemState.held
  rw [hclosed, hregion, ← Multiset.coe_add]
  refine add_right_cancel (b := (c.dev.peer posn).held) ?_
  calc ↑c.closed + ↑l + (c'.dev.slotFds + c.dev.regionFd) + (c.dev.peer posn).held
      = ↑c.closed + ↑l + c.dev.regionFd + (c'.dev.slotFds + (c.dev.peer posn).held) := by ac_rfl
    _ = ↑c.closed + (c.dev.slotFds + c.dev.regionFd) + (↑l + p.held) := by rw [hslots]; ac_rfl
    _ = ↑c.closed + (c.dev.slotFds + c.dev.regionFd) + m + (c.dev.peer posn).held := by
      rw [h]
      ac_rfl

/-- Closing an entry closes what it holds. -/
theorem closePeerEventfds_closed {posn : ℕ} (h : closePeerEventfds c posn = .ok c') :
    posn < c.dev.nbPeers ∧
      c'.closed = c.closed ++
        ((c.dev.peer posn).eventfds.take (c.dev.peer posn).nbEventfds).reduceOption ∧
      c'.dev = { c.dev with peers := c.dev.peers.set posn (c.dev.peer posn).close } := by
  unfold closePeerEventfds at h
  cases hp : c.dev.peers[posn]? with
  | none => rw [hp] at h; cases h
  | some p =>
    rw [hp] at h
    dsimp only at h
    split_ifs at h
    cases h
    obtain ⟨hlt, rfl⟩ := getElem?_peers hp
    obtain ⟨hdev, -⟩ := closeFds_frame
      ((c.dev.peer posn).eventfds.take (c.dev.peer posn).nbEventfds) c
    refine ⟨hlt, closed_closeFds _ c, ?_⟩
    simp only [Ctx.modDev, hdev]
    rfl

theorem balances_closePeerEventfds {posn : ℕ} (h : closePeerEventfds c posn = .ok c') :
    Balances c c' 0 := by
  obtain ⟨hlt, hclosed, hdev⟩ := closePeerEventfds_closed h
  refine balances_set hlt hclosed hdev ?_
  rw [Peer.held_close, add_zero, add_zero]
  rfl

/-! ## Messages -/

/-- The region takes over the descriptor, or it is closed. -/
theorem balances_shmem (c : Ctx x) (fd : Option Fd) (env : Env)
    (h : ¬ MappingFails c.dev (-1) fd env) :
    Balances c (processMsgShmem c fd env).1 ↑fd.toList := by
  unfold processMsgShmem
  by_cases hbar : c.dev.ivshmemBar2.isSome = true
  · rw [if_pos hbar]
    exact balances_closeFd c fd
  rw [if_neg hbar]
  have hnone : c.dev.ivshmemBar2 = none := by simpa using hbar
  by_cases hsize : fd.isNone = true ∨ (!env.fstat) = true
  · rw [if_pos hsize]
    exact balances_closeFd c fd
  rw [if_neg hsize]
  obtain ⟨hfd, hstat⟩ := not_or.1 hsize
  by_cases hram : (!env.initRam) = true
  · refine absurd ⟨rfl, hnone, ?_, by simpa using hstat, by simpa using hram⟩ h
    simpa [← Option.ne_none_iff_isSome] using hfd
  · rw [if_neg hram]
    unfold Balances IVShmemState.held IVShmemState.regionFd
    simp only [Ctx.modDev, hnone]
    exact (add_assoc _ _ _).symm.trans (congrArg (· + _) (congrArg _ (add_zero _).symm))

/-- The slot takes over the descriptor, also where KVM then refuses the route, or it is closed. -/
theorem balances_connect {posn : ℕ} {fd : Fd} (hok : c.dev.TableOk) (hlt : posn < c.dev.nbPeers)
    (h : processMsgConnect c posn fd env = .ok (c', err)) : Balances c c' {fd} := by
  unfold processMsgConnect at h
  rw [IVShmemState.getElem?_peer hlt] at h
  dsimp only at h
  by_cases hfull : c.dev.vectors ≤ (c.dev.peer posn).nbEventfds
  · rw [if_pos hfull] at h
    cases h
    exact balances_closeFd c (some fd)
  rw [if_neg hfull] at h
  have hlen : (c.dev.peer posn).nbEventfds < (c.dev.peer posn).eventfds.length := by
    rw [(hok posn).length]
    exact Nat.not_le.1 hfull
  have hstored : Balances c (c.modDev fun d =>
      { d with peers := d.peers.set posn ((c.dev.peer posn).connect fd) }) {fd} := by
    refine balances_set (l := []) hlt (List.append_nil _).symm rfl ?_
    rw [Peer.held_connect hlen]
    exact zero_add _
  split_ifs at h with hall hown
  · obtain ⟨hkeep, -⟩ := setupInterrupt_keeps h
    exact hstored.trans (.of_keeps hkeep)
  · cases h
    exact hstored

theorem balances_disconnect {posn : ℕ} (h : processMsgDisconnect c posn = .ok (c', err)) :
    Balances c c' 0 := by
  unfold processMsgDisconnect at h
  split_ifs at h
  · cases h
    exact .refl c
  · obtain ⟨c₁, h₁, h⟩ := bind_ok.1 h
    cases h
    exact balances_closePeerEventfds h₁

/-- **A message hands its descriptor to the device**, which holds or closes it, unless the shared
    memory cannot be mapped. -/
theorem balances_message (hok : c.dev.TableOk) (hmap : ¬ MappingFails c.dev msg fd env)
    (h : processMsg c msg fd env = .ok (c', err)) : Balances c c' ↑fd.toList := by
  rcases msg_cases msg with hbad | rfl | ⟨posn, rfl, hposn⟩
  · rw [processMsg_invalid c fd env hbad] at h
    cases h
    exact balances_closeFd c fd
  · rw [processMsg_shmem] at h
    obtain rfl := congrArg Prod.fst (Except.ok.inj h)
    exact balances_shmem c fd env hmap
  · obtain ⟨c₁, hg, hlt, heq⟩ := processMsg_posn c fd env hposn
    have hbal : Balances c₁ c' ↑fd.toList := by
      rw [heq] at h
      cases fd with
      | none => exact balances_disconnect h
      | some fd =>
        refine balances_connect (fun i => ?_) hlt h
        rw [hg.peer, hg.framed.vectors]
        exact hok i
    have hall := (Balances.of_grown hg).trans hbal
    rwa [zero_add] at hall

/-! ## Other events -/

/-- Nothing is closed, and the table and the region are the same. -/
theorem Ctx.closed_emitIf (c : Ctx x) (p : Prop) [Decidable p] {e : Effect} (h : e.closed? = none) :
    (c.emitIf p e).closed = c.closed := by
  unfold Ctx.emitIf
  split_ifs
  · exact (WiringKeeps.emit c h).closed
  · rfl

theorem writeReg_closed {r : ConfigReg} {v : BitVec 64} (h : writeReg c r v = .ok c') :
    c'.closed = c.closed := by
  cases r with
  | outmsg i =>
    cases h
    by_cases hf : c.PeerFull i
    · rw [writeOutboundMsg_refused c i v hf, Ctx.closed_emitIf _ _ rfl]
      rfl
    by_cases hid : c.dev.otherVmId = -1
    · rw [writeOutboundMsg_lost c i v hf hid]
      rfl
    · rw [writeOutboundMsg_accepted c i v hf hid, Ctx.closed_emitIf _ _ rfl]
      rfl
  | outdbellset =>
    rw [writeReg_outdbellset] at h
    cases h
    exact Ctx.closed_emitIf _ _ rfl
  | ntgsignal =>
    rw [writeReg_ntgsignal] at h
    by_cases hv : v = 1
    · rw [if_pos hv] at h
      cases h
      exact Ctx.closed_emitIf _ _ rfl
    · rw [if_neg hv] at h
      cases h
  | gasadata =>
    cases h
    unfold writeGasadata
    split <;> rfl
  | ntmtbldata =>
    cases h
    unfold setNtMtbData
    split_ifs <;> rfl
  | _ =>
    cases h
    rfl

theorem ivshmemIoWrite_keeps {addr v : BitVec 64} (h : ivshmemIoWrite c addr v = .ok c') :
    WiringKeeps c c' := by
  rcases ivshmemIoWrite_cases h with ⟨r, -, hr⟩ | ⟨-, rfl⟩
  · have hclosed := writeReg_closed hr
    have hdev := writeReg_dev hr
    refine ⟨?_, ?_, ?_, hclosed⟩ <;> rw [hdev]
  · exact ⟨rfl, rfl, rfl, rfl⟩

theorem ivshmemVectorNotify_keeps {vector : ℕ} {pending : Bool}
    (h : ivshmemVectorNotify c vector pending = .ok c') : WiringKeeps c c' := by
  rcases ivshmemVectorNotify_cases h with ⟨-, rfl⟩ | ⟨-, rfl | ⟨text, rfl⟩ | rfl⟩
  · exact ⟨rfl, rfl, rfl, rfl⟩
  · exact .emit c rfl
  · exact .emit c rfl
  · exact ⟨rfl, rfl, rfl, rfl⟩

/-- The descriptor that comes with an event. -/
def Event.fds : Event → Multiset Fd
  | .message m _ => ↑m.fd.toList
  | _ => 0

/-- What the handler of an event closes. -/
def closings (e : Ctx x × Event) : Multiset Fd :=
  match e.1.next e.2 with
  | .ok c' => ↑c'.closed
  | .error _ => 0

theorem closings_eq {e : Event} (h : Handles c e c') : closings (c, e) = ↑c'.closed := by
  unfold closings
  rw [show c.next e = .ok c' from h]

/-- The device has its table in order and its region mapped. -/
structure Mapped (c : Ctx x) : Prop where
  table : c.dev.TableOk
  region : c.dev.ivshmemBar2.isSome

theorem Mapped.not_mappingFails (h : Mapped c) : ¬ MappingFails c.dev msg fd env := by
  rintro ⟨-, hnone, -⟩
  have hsome := h.region
  rw [hnone] at hsome
  cases hsome

/-- A region that is mapped stays. -/
theorem processMsg_region (hr : c.dev.ivshmemBar2.isSome)
    (h : processMsg c msg fd env = .ok (c', err)) : c'.dev.ivshmemBar2 = c.dev.ivshmemBar2 := by
  rcases msg_cases msg with hbad | rfl | ⟨posn, rfl, hposn⟩
  · rw [processMsg_invalid c fd env hbad] at h
    cases h
    rw [(closeFd_frame c fd).1]
  · rw [processMsg_shmem, processMsgShmem, if_pos hr] at h
    cases h
    rw [(closeFd_frame c fd).1]
  · obtain ⟨c₁, hg, hlt, heq⟩ := processMsg_posn c fd env hposn
    obtain ⟨ps, rfl⟩ := hg.table
    refine Eq.trans ?_ (b := (c.modDev fun d => { d with peers := ps }).dev.ivshmemBar2) rfl
    rw [heq] at h
    cases fd with
    | none =>
      simp only [Option.elim, processMsgDisconnect] at h
      split_ifs at h
      · cases h
        rfl
      · obtain ⟨c₂, h₂, h⟩ := bind_ok.1 h
        cases h
        rw [(closePeerEventfds_closed h₂).2.2]
    | some fd =>
      simp only [Option.elim, processMsgConnect] at h
      rw [IVShmemState.getElem?_peer hlt] at h
      dsimp only at h
      split_ifs at h
      · cases h
        rfl
      · exact (setupInterrupt_keeps h).1.ivshmemBar2
      · cases h
        rfl

/-- **One event**: what comes with it is held afterwards, or its handler closes it. -/
theorem handles_balance {e : Event} (hm : Mapped c) (h : Handles c e c') :
    Mapped c' ∧ c'.dev.held + closings (c, e) = c.dev.held + e.fds := by
  have hfresh : ∀ l, Balances c.fresh c' l → c'.dev.held + closings (c, e) = c.dev.held + l := by
    intro l hbal
    rw [closings_eq h, add_comm]
    refine Eq.trans hbal ?_
    show 0 + c.dev.held + l = c.dev.held + l
    rw [zero_add]
  have hkeep : WiringKeeps c.fresh c' → Mapped c' ∧ c'.dev.held + closings (c, e) = c.dev.held + 0 := by
    intro hk
    refine ⟨⟨fun i => ?_, ?_⟩, hfresh 0 (.of_keeps hk)⟩
    · have hpeer : c'.dev.peer i = c.dev.peer i := by
        unfold IVShmemState.peer
        rw [hk.peers, hk.vectors]
        rfl
      rw [hpeer, hk.vectors]
      exact hm.table i
    · rw [hk.ivshmemBar2]
      exact hm.region
  cases e with
  | message m env =>
    obtain ⟨r, hr, rfl⟩ := map_ok.1 h
    have hm' : Mapped c.fresh := ⟨hm.table, hm.region⟩
    refine ⟨⟨processMsg_tableOk hr hm.table, ?_⟩,
      hfresh _ (balances_message hm'.table hm'.not_mappingFails hr)⟩
    rw [processMsg_region hm'.region hr]
    exact hm.region
  | notify vector pending => exact hkeep (ivshmemVectorNotify_keeps h)
  | write addr val => exact hkeep (ivshmemIoWrite_keeps h)
  | shared shm =>
    cases h
    exact hkeep ⟨rfl, rfl, rfl, rfl⟩

/-! ## Set-up and exit -/

/-- A message that is handled without an error did map the memory, if it was about that. -/
theorem not_mappingFails_of_ok (h : processMsg c msg fd env = .ok (c', none)) :
    ¬ MappingFails c.dev msg fd env := by
  rintro ⟨rfl, hnone, hfd, hstat, hram⟩
  obtain ⟨n, rfl⟩ := Option.isSome_iff_exists.1 hfd
  rw [processMsg_shmem] at h
  simp [processMsgShmem, hnone, hstat, hram] at h

theorem region_of_ok (h : processMsg c (-1) fd env = .ok (c', none)) :
    c'.dev.ivshmemBar2.isSome := by
  rw [processMsg_shmem, processMsgShmem] at h
  split_ifs at h with hbar hsize hram
  · cases h
  · cases h
  · cases h
  · cases h
    obtain ⟨hfd, -⟩ := not_or.1 hsize
    simpa [Ctx.modDev, ← Option.ne_none_iff_isSome] using hfd

/-- Each message that set-up receives adds its descriptor. -/
theorem recvUntilShmem_balances {msgs rest : List Msg} (hok : c.dev.TableOk)
    (h : recvUntilShmem c env msgs = .ok (.ok (c', rest))) :
    ∃ l, msgs = l ++ rest ∧ Balances c c' ↑(l.filterMap Msg.fd) ∧ Mapped c' := by
  induction msgs generalizing c with
  | nil => cases h
  | cons m msgs ih =>
    obtain ⟨c₁, h₁, hmore⟩ := recvUntilShmem_cons h
    have hok₁ := processMsg_tableOk h₁ hok
    have hbal := balances_message hok (not_mappingFails_of_ok h₁) h₁
    rcases hmore with ⟨hshm, rfl, rfl⟩ | h
    · rw [hshm] at h₁
      refine ⟨[m], rfl, ?_, hok₁, region_of_ok h₁⟩
      cases hfd : m.fd <;> simpa [hfd] using hbal
    · obtain ⟨l, rfl, hl, hmap⟩ := ih hok₁ h
      refine ⟨m :: l, rfl, ?_, hmap⟩
      have hall := hbal.trans hl
      cases hfd : m.fd <;> simpa [hfd] using hall

section
variable {shm : IdtIvshmemShmStorage} {vectors : ℕ} {bars : Fin 6 → BusAddr}
  {requesterId : BitVec 16} {masterOn : Bool} {msgs rest : List Msg} {c₀ : Ctx x}

/-- **Realize** holds or closes the descriptors of the messages of set-up. -/
theorem realize_balance
    (h : ivshmemCommonRealize ⟨shm, .init x vectors bars requesterId, []⟩ masterOn env msgs =
      .ok (.ok (c, rest))) :
    Mapped c ∧ ↑c.closed + c.dev.held = (↑((setupMsgs msgs rest).filterMap Msg.fd) : Multiset Fd) := by
  have htable := (realized_of_realize h).table
  obtain ⟨ps, c₁, hpeer, h₁, rfl⟩ := ivshmemCommonRealize_recv h
  obtain ⟨version, id, msgs, rfl, -, -, h₂⟩ := ivshmemRecvSetup_until h₁
  have hok : ({ IVShmemState.init x vectors bars requesterId with
      peers := ps, vmId := id.value } : IVShmemState x).TableOk := by
    intro i
    refine Eq.mpr (congrArg (Peer.Ok · vectors) (hpeer i)) Peer.ok_empty
  obtain ⟨l, rfl, hbal, hmap⟩ := recvUntilShmem_balances hok h₂
  have hmsgs : setupMsgs (version :: id :: (l ++ rest)) rest = l := by simp [setupMsgs]
  obtain ⟨hdev, hout⟩ := realizeRegs_frame (ivshmemSetupInterrupts c₁)
  have hslots : IVShmemState.slotFds { IVShmemState.init x vectors bars requesterId with
      peers := ps } = 0 :=
    slotFds_congr (d := .init x vectors bars requesterId) hpeer
  refine ⟨⟨htable, ?_⟩, ?_⟩
  · rw [hdev]
    exact hmap.region
  · have hstart : ∀ m : Multiset Fd, 0 + (IVShmemState.slotFds { IVShmemState.init x vectors bars
        requesterId with peers := ps } + 0) + m = m := by
      intro m
      rw [hslots, zero_add, zero_add, zero_add]
    rw [hmsgs, Ctx.closed, hout, hdev]
    exact Eq.trans hbal (hstart _)

end

/-- Entries closed one after the other hold nothing more. -/
theorem closeAll_balances {l : List ℕ} (h : l.foldlM closePeerEventfds c = .ok c') :
    Balances c c' 0 ∧ c'.dev.regionFd = c.dev.regionFd ∧ c'.dev.nbPeers = c.dev.nbPeers ∧
      ∀ i, i ∈ l ∨ (c.dev.peer i).held = 0 → (c'.dev.peer i).held = 0 := by
  induction l generalizing c with
  | nil =>
    cases h
    exact ⟨.refl _, rfl, rfl, fun i hi => hi.resolve_left List.not_mem_nil⟩
  | cons k l ih =>
    rw [List.foldlM_cons] at h
    obtain ⟨c₁, h₁, h⟩ := bind_ok.1 h
    obtain ⟨hbal, hregion, hnb, hheld⟩ := ih h
    obtain ⟨hpeer, -⟩ := closePeerEventfds_spec h₁
    obtain ⟨-, -, hdev⟩ := closePeerEventfds_closed h₁
    refine ⟨(balances_closePeerEventfds h₁).trans hbal, ?_, ?_, fun i hi => hheld i ?_⟩
    · rw [hregion, hdev]
      rfl
    · rw [hnb, hdev]
      exact List.length_set
    · rw [hpeer]
      by_cases hik : i = k
      · rw [if_pos hik]
        exact Or.inr (Peer.held_close _)
      · rw [if_neg hik]
        exact hi.imp_left fun hmem => (List.mem_cons.1 hmem).resolve_left hik

/-- **Exit** closes what the table holds, and not the descriptor of the region. -/
theorem exit_balance (h : ivshmemExit c = .ok c') :
    ↑c'.closed + c'.dev.held = ↑c.closed + c.dev.held ∧ c'.dev.held = c.dev.regionFd := by
  obtain ⟨c₁, h₁, h⟩ := bind_ok.1 h
  cases h
  obtain ⟨hbal, hregion, hnb, hheld⟩ := closeAll_balances h₁
  have hslots : c₁.dev.slotFds = 0 := by
    rw [slotFds_eq c₁.dev le_rfl]
    refine List.sum_eq_zero ?_
    intro m hm
    obtain ⟨i, hi, rfl⟩ := List.mem_map.1 hm
    refine hheld i (Or.inl ?_)
    rwa [← hnb]
  have hheld₁ : c₁.dev.held = c.dev.regionFd := by
    rw [IVShmemState.held, hslots, hregion, zero_add]
  have hheld₂ : (0 : Multiset Fd) + c₁.dev.regionFd = c.dev.regionFd := by rw [zero_add, hregion]
  refine ⟨?_, hheld₂⟩
  calc ↑c₁.closed + (0 + c₁.dev.regionFd)
      = ↑c₁.closed + c₁.dev.held := by rw [hheld₁, hheld₂]
    _ = ↑c.closed + c.dev.held := Eq.trans hbal (add_zero _)

/-! ## The life of a device -/

section
variable {shm : IdtIvshmemShmStorage} {vectors : ℕ} {bars : Fin 6 → BusAddr}
  {requesterId : BitVec 16} {masterOn : Bool} {msgs rest : List Msg} {c₀ : Ctx x}
  {t : List (Ctx x × Event)}

/-- The descriptors received in set-up and with the events since. -/
def receivedFds (msgs rest : List Msg) (t : List (Ctx x × Event)) : Multiset Fd :=
  ↑((setupMsgs msgs rest).filterMap Msg.fd) + (t.map fun e => e.2.fds).sum

/-- The descriptors closed in set-up and by the handlers since. -/
def closedSince (c₀ : Ctx x) (t : List (Ctx x × Event)) : Multiset Fd :=
  ↑c₀.closed + (t.map closings).sum

/-- **Each descriptor received is held once or was closed once**, whatever the server sends, the
    calls out of the device return and the guests do; and exit closes those that are held, except
    the one of the shared memory region. -/
theorem descriptors_balance
    (h₀ : ivshmemCommonRealize ⟨shm, .init x vectors bars requesterId, []⟩ masterOn env msgs =
      .ok (.ok (c₀, rest)))
    (h : Run Handles c₀ t c) :
    closedSince c₀ t + c.dev.held = receivedFds msgs rest t ∧
      ∀ c', ivshmemExit c.fresh = .ok c' →
        closedSince c₀ t + ↑c'.closed + c.dev.regionFd = receivedFds msgs rest t := by
  obtain ⟨hmap, hset⟩ := realize_balance h₀
  obtain ⟨-, hrun⟩ := Run.balance Mapped (fun c => c.dev.held) (fun e => e.2.fds) closings hmap h
    fun _ _ _ hm hst => handles_balance hm hst
  have hbal : closedSince c₀ t + c.dev.held = receivedFds msgs rest t := by
    unfold closedSince receivedFds
    rw [← hset, add_assoc, add_comm (t.map closings).sum, hrun, add_assoc]
  refine ⟨hbal, fun c' hc' => ?_⟩
  obtain ⟨hexit, hheld⟩ := exit_balance hc'
  have hregion : c'.dev.held = c.dev.regionFd := hheld
  have hclosed : ↑c'.closed + c'.dev.held = c.dev.held := hexit.trans (zero_add _)
  rw [← hbal, ← hregion, add_assoc, hclosed]

/-- A device that met its peer and exits. -/
theorem descriptors_balance_up : ∃ c c', exec Ctx.next firstUp meetsPeer = .ok c ∧
    ivshmemExit c.fresh = .ok c' ∧
      closedSince firstUp (trace Ctx.next firstUp meetsPeer) + ↑c'.closed + c.dev.regionFd =
        receivedFds (hello 0) [] (trace Ctx.next firstUp meetsPeer) := by
  obtain ⟨c, c', hc, hc'⟩ : ∃ c c', exec Ctx.next firstUp meetsPeer = .ok c ∧
      ivshmemExit c.fresh = .ok c' := ⟨_, _, rfl, rfl⟩
  exact ⟨c, c', hc, hc', (descriptors_balance firstUp_realized (Run.of_exec hc)).2 c' hc'⟩

end

end IdtNtb
