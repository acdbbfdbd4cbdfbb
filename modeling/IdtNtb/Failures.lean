/-
  Messages that fail, and where descriptors go.

  A descriptor that comes with a message is stored in a slot of the peer table,
  kept by the shared memory region, or closed.  `Owner` are the places that keep
  one:

  * `accounted_connect` and `accounted_shmem` follow the descriptor through the
    two handlers;
  * `accounted_iff`: a message that fails leaves the device as it was and closes
    its descriptor, and one that succeeds finds a place for it, except when KVM
    refuses the route for an own vector or the shared memory cannot be mapped.
-/
import IdtNtb.Wiring

namespace IdtNtb

open Runs
open Function (update)

variable {x : Vm} {c c' : Ctx x} {msg : ℤ} {fd : Option Fd} {env : Env} {err : Option MsgError}
  {n : Option Fd} {vector : ℕ}

/-! ## Owners -/

/-- The descriptor that an effect closes. -/
def Effect.closed? : Effect → Option Fd
  | .close fd => some fd
  | _ => none

/-- The descriptors closed so far. -/
def Ctx.closed (c : Ctx x) : List Fd := c.out.filterMap Effect.closed?

theorem Ctx.closed_emit (c : Ctx x) (e : Effect) :
    (c.emit e).closed = c.closed ++ e.closed?.toList := by
  unfold closed
  rw [Ctx.emit_out, List.filterMap_append]
  cases h : e.closed? <;> simp [h]

theorem Ctx.closed_closeFd (c : Ctx x) (fd : Option Fd) :
    (c.closeFd fd).closed = c.closed ++ fd.toList := by
  cases fd with
  | none => exact (List.append_nil _).symm
  | some fd => exact c.closed_emit _

/-- A place that keeps a descriptor. -/
inductive Owner where
  /-- A notifier of the peer table. -/
  | slot (posn vector : ℕ)
  /-- The shared memory region. -/
  | region
deriving DecidableEq

/-- The descriptor kept in a place.  Only the notifiers that are counted keep theirs. -/
def IVShmemState.owned (d : IVShmemState x) : Owner → Option Fd
  | .slot posn vector =>
    if vector < (d.peer posn).nbEventfds then ((d.peer posn).eventfds[vector]?).join else none
  | .region => d.ivshmemBar2

theorem owned_slot (d : IVShmemState x) (posn vector : ℕ) : d.owned (.slot posn vector) =
    if vector < (d.peer posn).nbEventfds then ((d.peer posn).eventfds[vector]?).join else none := rfl

/-- The message has failed: the device is as it was, and the descriptor was closed. -/
structure Undone (c c' : Ctx x) (fd : Option Fd) : Prop where
  peer : ∀ i, c'.dev.peer i = c.dev.peer i
  ivshmemBar2 : c'.dev.ivshmemBar2 = c.dev.ivshmemBar2
  msiVectors : c'.dev.msiVectors = c.dev.msiVectors
  vmId : c'.dev.vmId = c.dev.vmId
  otherVmId : c'.dev.otherVmId = c.dev.otherVmId
  closed : c'.closed = c.closed ++ fd.toList

/-- The descriptor was taken over: it is in one new place, and not closed. -/
def TakenOver (c c' : Ctx x) (fd : Fd) : Prop :=
  (∃ o, c.dev.owned o = none ∧ c'.dev.owned = update c.dev.owned o (some fd)) ∧
    c'.closed = c.closed

/-- Nothing is left half done, and no descriptor is lost. -/
def Accounted (c c' : Ctx x) (fd : Option Fd) : Option MsgError → Prop
  | some _ => Undone c c' fd
  | none => ∀ n, fd = some n → TakenOver c c' n

/-- The shared memory that the server sends cannot be mapped. -/
def MappingFails (d : IVShmemState x) (msg : ℤ) (fd : Option Fd) (env : Env) : Prop :=
  msg = -1 ∧ d.ivshmemBar2 = none ∧ fd.isSome ∧ env.fstat = true ∧ env.initRam = false

/-- Closing the descriptor is all that a failing message has to do. -/
theorem undone_closeFd (c : Ctx x) (fd : Option Fd) : Undone c (c.closeFd fd) fd := by
  obtain ⟨hdev, -⟩ := closeFd_frame c fd
  refine ⟨fun i => ?_, ?_, ?_, ?_, ?_, c.closed_closeFd fd⟩ <;> rw [hdev]

/-! ## The shared memory -/

/-- The region takes over its descriptor, and a mapping that fails loses it. -/
theorem accounted_shmem (c : Ctx x) (fd : Option Fd) (env : Env) :
    Accounted c (processMsgShmem c fd env).1 fd (processMsgShmem c fd env).2 ↔
      ¬ MappingFails c.dev (-1) fd env := by
  unfold processMsgShmem
  by_cases hbar : c.dev.ivshmemBar2.isSome = true
  · rw [if_pos hbar]
    refine iff_of_true (undone_closeFd c fd) ?_
    rintro ⟨-, hnone, -⟩
    rw [hnone] at hbar
    cases hbar
  rw [if_neg hbar]
  have hnone : c.dev.ivshmemBar2 = none := by simpa using hbar
  by_cases hsize : fd.isNone = true ∨ (!env.fstat) = true
  · rw [if_pos hsize]
    refine iff_of_true (undone_closeFd c fd) ?_
    rintro ⟨-, -, hfd, hstat, -⟩
    rw [hstat] at hsize
    rcases hsize with hsize | hsize
    · rw [Option.isNone_iff_eq_none.1 hsize] at hfd
      cases hfd
    · cases hsize
  rw [if_neg hsize]
  obtain ⟨hfd, hstat⟩ := not_or.1 hsize
  obtain ⟨n, rfl⟩ : ∃ n, fd = some n := Option.ne_none_iff_exists'.1 (by simpa using hfd)
  by_cases hram : (!env.initRam) = true
  · -- the descriptor is neither closed nor kept
    rw [if_pos hram]
    refine iff_of_false ?_ ?_
    · intro hr
      have hclosed : c.closed = c.closed ++ [n] := Undone.closed hr
      simp at hclosed
    · exact not_not.2 ⟨rfl, hnone, rfl, by simpa using hstat, by simpa using hram⟩
  · rw [if_neg hram]
    refine iff_of_true ?_ ?_
    · rintro m hm
      cases hm
      refine ⟨⟨.region, hnone, ?_⟩, rfl⟩
      ext1 o
      cases o with
      | slot posn vector => rfl
      | region => rfl
    · rintro ⟨-, -, -, -, hno⟩
      rw [hno] at hram
      exact hram rfl

/-! ## Connects -/

/-- What wiring a vector leaves alone. -/
structure WiringKeeps (c c' : Ctx x) : Prop where
  peers : c'.dev.peers = c.dev.peers
  vectors : c'.dev.vectors = c.dev.vectors
  ivshmemBar2 : c'.dev.ivshmemBar2 = c.dev.ivshmemBar2
  closed : c'.closed = c.closed

theorem WiringKeeps.trans {c'' : Ctx x} (h : WiringKeeps c c') (h' : WiringKeeps c' c'') :
    WiringKeeps c c'' :=
  ⟨h'.peers.trans h.peers, h'.vectors.trans h.vectors, h'.ivshmemBar2.trans h.ivshmemBar2,
    h'.closed.trans h.closed⟩

theorem WiringKeeps.emit (c : Ctx x) {e : Effect} (h : e.closed? = none) :
    WiringKeeps c (c.emit e) :=
  ⟨rfl, rfl, rfl, by rw [Ctx.closed_emit, h, Option.toList_none, List.append_nil]⟩

theorem attachNotifier_keeps (h : attachNotifier c n vector env = .ok (c', err)) :
    WiringKeeps c c' := by
  cases attachNotifier_result h with
  | watched =>
    refine WiringKeeps.trans ?_ (.emit _ rfl)
    exact ⟨rfl, rfl, rfl, rfl⟩
  | routed hirq hmsix he hp hroute hc₁ =>
    subst hc₁
    split_ifs
    · exact ⟨rfl, rfl, rfl, rfl⟩
    · refine WiringKeeps.trans ?_ (.emit _ rfl)
      exact ⟨rfl, rfl, rfl, rfl⟩
  | refused => exact ⟨rfl, rfl, rfl, rfl⟩
  | delayed => exact ⟨rfl, rfl, rfl, rfl⟩

theorem initVmIds_keeps (h : initVmIds c = .ok c') : WiringKeeps c c' := by
  unfold initVmIds at h
  dsimp only at h
  split_ifs at h
  · cases h
    refine WiringKeeps.trans ?_ (.emit _ rfl)
    exact ⟨rfl, rfl, rfl, rfl⟩
  · cases h
    exact ⟨rfl, rfl, rfl, rfl⟩

/-- Wiring a vector fails exactly if KVM refuses the route, and keeps the descriptors either way. -/
theorem setupInterrupt_keeps (h : setupInterrupt c vector env = .ok (c', err)) :
    WiringKeeps c c' ∧ (err.isSome ↔ RouteFails c.dev env) := by
  obtain ⟨n, -, h⟩ := bind_ok.1 h
  obtain ⟨⟨c₁, e⟩, h₁, h⟩ := bind_ok.1 h
  obtain ⟨-, hfail⟩ := attachNotifier_wired h₁
  have hkeep := attachNotifier_keeps h₁
  cases e with
  | some e =>
    cases h
    exact ⟨hkeep, hfail⟩
  | none =>
    dsimp only at h
    split_ifs at h
    · obtain ⟨c₂, h₂, h⟩ := bind_ok.1 h
      cases h
      exact ⟨hkeep.trans (initVmIds_keeps h₂), hfail⟩
    · cases h
      exact ⟨hkeep, hfail⟩

/-- The slot that a connect fills is a new place for the descriptor. -/
theorem owned_connect {d d' : IVShmemState x} {posn : ℕ} {fd : Fd}
    (hpeer : ∀ i, d'.peer i = if i = posn then (d.peer i).connect fd else d.peer i)
    (hbar : d'.ivshmemBar2 = d.ivshmemBar2)
    (hlen : (d.peer posn).nbEventfds < (d.peer posn).eventfds.length) :
    d.owned (.slot posn (d.peer posn).nbEventfds) = none ∧
      d'.owned = update d.owned (.slot posn (d.peer posn).nbEventfds) (some fd) := by
  refine ⟨if_neg (Nat.lt_irrefl _), ?_⟩
  ext1 o
  cases o with
  | region =>
    have hslot : Owner.region ≠ .slot posn (d.peer posn).nbEventfds := by
      intro h
      cases h
    rw [Function.update_of_ne hslot]
    exact hbar
  | slot i k =>
    by_cases hi : i = posn
    · subst hi
      have hnb : ((d.peer i).connect fd).nbEventfds = (d.peer i).nbEventfds + 1 := rfl
      rw [owned_slot, hpeer, if_pos rfl, hnb]
      by_cases hk : k = (d.peer i).nbEventfds
      · subst hk
        rw [Function.update_self, if_pos (Nat.lt_succ_self _)]
        simp [Peer.connect, hlen]
      · have hslot : Owner.slot i k ≠ .slot i (d.peer i).nbEventfds := by
          intro h
          cases h
          exact hk rfl
        rw [Function.update_of_ne hslot]
        have hlt : k < (d.peer i).nbEventfds + 1 ↔ k < (d.peer i).nbEventfds := by omega
        have hget : ((d.peer i).connect fd).eventfds[k]? = (d.peer i).eventfds[k]? :=
          List.getElem?_set_ne (Ne.symm hk)
        rw [owned_slot]
        simp only [hlt, hget]
    · have hslot : Owner.slot i k ≠ .slot posn (d.peer posn).nbEventfds := by
        intro h
        cases h
        exact hi rfl
      rw [Function.update_of_ne hslot, owned_slot, owned_slot, hpeer, if_neg hi]

/-- The slot takes over the descriptor of a connect, and a route that KVM refuses leaves it there. -/
theorem accounted_connect {posn : ℕ} {fd : Fd} (hok : c.dev.TableOk)
    (hposn : (posn : ℤ) ≤ ivshmemMaxPeers) (hlt : posn < c.dev.nbPeers)
    (h : processMsgConnect c posn fd env = .ok (c', err)) :
    Accounted c c' (some fd) err ↔
      ¬ (ConnectsOwn c.dev posn (some fd) ∧ RouteFails c.dev env) := by
  have hentry := (processMsgConnect_spec hposn h).1
  unfold processMsgConnect at h
  rw [IVShmemState.getElem?_peer hlt] at h
  dsimp only at h
  rw [connectsOwn_iff hposn]
  split_ifs at h with hfull hall hown
  · cases h
    exact iff_of_true (undone_closeFd c (some fd)) fun hf => hf.1.2.not_ge hfull
  · have hroom : (c.dev.peer posn).nbEventfds < c.dev.vectors := Nat.not_le.1 hfull
    obtain ⟨hkeep, hfail⟩ := setupInterrupt_keeps h
    have hpeer : ∀ i, c'.dev.peer i =
        if i = posn then (c.dev.peer i).connect fd else c.dev.peer i := by
      intro i
      rw [hentry, entryAfter_eq, entryAfter_connect hposn, if_neg hfull]
      split_ifs with hi
      · rw [hi]
      · rfl
    cases err with
    | some err =>
      refine iff_of_false (fun hr => ?_) (not_not.2 ⟨⟨hown, hroom⟩, hfail.1 rfl⟩)
      -- the slot stays filled
      have hsame := hr.peer posn
      rw [hpeer, if_pos rfl] at hsame
      have hnb : (c.dev.peer posn).nbEventfds + 1 = (c.dev.peer posn).nbEventfds :=
        congrArg Peer.nbEventfds hsame
      omega
    | none =>
      refine iff_of_true ?_ fun hf => by simpa using hfail.2 hf.2
      rintro m hm
      cases hm
      have hlen : (c.dev.peer posn).nbEventfds < (c.dev.peer posn).eventfds.length := by
        rw [(hok posn).length]
        exact hroom
      exact ⟨⟨_, owned_connect hpeer hkeep.ivshmemBar2 hlen⟩, hkeep.closed⟩
  · cases h
    refine iff_of_true ?_ fun hf => hown hf.1.1
    rintro m hm
    cases hm
    have hroom : (c.dev.peer posn).nbEventfds < c.dev.vectors := Nat.not_le.1 hfull
    have hlen : (c.dev.peer posn).nbEventfds < (c.dev.peer posn).eventfds.length := by
      rw [(hok posn).length]
      exact hroom
    refine ⟨⟨_, owned_connect (fun i => ?_) rfl hlen⟩, rfl⟩
    refine (peer_set hlt ((c.dev.peer posn).connect fd) i).trans ?_
    split_ifs with hi
    · rw [hi]
    · rfl

/-! ## Any message -/

theorem processMsgDisconnect_accounted {posn : ℕ}
    (h : processMsgDisconnect c posn = .ok (c', err)) : Accounted c c' none err := by
  unfold processMsgDisconnect at h
  split_ifs at h
  · cases h
    refine ⟨fun i => rfl, rfl, rfl, rfl, rfl, ?_⟩
    exact (List.append_nil _).symm
  · obtain ⟨c₁, -, h⟩ := bind_ok.1 h
    cases h
    exact nofun

/-- Empty entries that were added to the table keep no descriptor. -/
theorem Grown.accounted {c₁ : Ctx x} (h : Grown c c₁) :
    Accounted c₁ c' fd err ↔ Accounted c c' fd err := by
  have hpeer := h.peer
  have howned : c₁.dev.owned = c.dev.owned := by
    ext1 o
    cases o with
    | slot i k => rw [owned_slot, owned_slot, hpeer]
    | region =>
      obtain ⟨ps, rfl⟩ := h.table
      rfl
  have hclosed : c₁.closed = c.closed := by
    obtain ⟨ps, rfl⟩ := h.table
    rfl
  cases err with
  | some err =>
    have hdev : c₁.dev.ivshmemBar2 = c.dev.ivshmemBar2 ∧ c₁.dev.msiVectors = c.dev.msiVectors ∧
        c₁.dev.vmId = c.dev.vmId ∧ c₁.dev.otherVmId = c.dev.otherVmId := by
      obtain ⟨ps, rfl⟩ := h.table
      exact ⟨rfl, rfl, rfl, rfl⟩
    obtain ⟨h1, h2, h3, h4⟩ := hdev
    refine ⟨fun hr => ⟨fun i => (hr.peer i).trans (hpeer i), hr.ivshmemBar2.trans h1,
      hr.msiVectors.trans h2, hr.vmId.trans h3, hr.otherVmId.trans h4, hclosed ▸ hr.closed⟩,
      fun hr => ⟨fun i => (hr.peer i).trans (hpeer i).symm, hr.ivshmemBar2.trans h1.symm,
      hr.msiVectors.trans h2.symm, hr.vmId.trans h3.symm, hr.otherVmId.trans h4.symm,
      hclosed.symm ▸ hr.closed⟩⟩
  | none =>
    unfold Accounted TakenOver
    rw [howned, hclosed]

/-- **A failed message leaves the device as it was and closes its descriptor, and one that succeeds
    finds a place for it**, exactly if KVM does not refuse the route of an own connect and the
    shared memory can be mapped. -/
theorem accounted_iff (hok : c.dev.TableOk) (h : processMsg c msg fd env = .ok (c', err)) :
    Accounted c c' fd err ↔
      ¬ MappingFails c.dev msg fd env ∧ ¬ (ConnectsOwn c.dev msg fd ∧ RouteFails c.dev env) := by
  rcases msg_cases msg with hbad | rfl | ⟨posn, rfl, hposn⟩
  · rw [processMsg_invalid c fd env hbad] at h
    cases h
    refine iff_of_true (undone_closeFd c fd) ⟨fun hm => ?_, fun ho => ?_⟩
    · have hmsg := hm.1
      have hmax : ivshmemMaxPeers = 65535 := rfl
      omega
    · have hrange := ho.1.range
      omega
  · have hshm := accounted_shmem c fd env
    rw [Except.ok.inj ((processMsg_shmem c fd env).symm.trans h)] at hshm
    rw [hshm]
    refine (and_iff_left ?_).symm
    rintro ⟨ho, -⟩
    have hrange := ho.range
    omega
  · obtain ⟨c₁, hg, hlt, heq⟩ := processMsg_posn c fd env hposn
    have hno : ¬ MappingFails c.dev posn fd env := by
      rintro ⟨hmsg, -⟩
      omega
    rw [heq] at h
    rw [and_iff_right hno, ← hg.accounted]
    cases fd with
    | none =>
      refine iff_of_true (processMsgDisconnect_accounted h) ?_
      rintro ⟨ho, -⟩
      exact absurd ho.fd (by simp)
    | some fd =>
      have hok₁ : c₁.dev.TableOk := by
        intro i
        rw [hg.peer, hg.framed.vectors]
        exact hok i
      rw [accounted_connect hok₁ hposn hlt h, hg.connectsOwn]
      obtain ⟨ps, rfl⟩ := hg.table
      exact Iff.rfl

/-- The first connect of the second client. -/
theorem accounted_first_connect : ∃ c',
    processMsg firstUp 1 (some ⟨1, 0⟩) eventfdEnv = .ok (c', none) ∧
      Accounted firstUp c' (some ⟨1, 0⟩) none := by
  obtain ⟨c', hc⟩ : ∃ c', processMsg firstUp 1 (some ⟨1, 0⟩) eventfdEnv = .ok (c', none) := ⟨_, rfl⟩
  refine ⟨c', hc, (accounted_iff (realized_of_realize firstUp_realized).table hc).2 ⟨?_, ?_⟩⟩
  · rintro ⟨hmsg, -⟩
    cases hmsg
  · rintro ⟨ho, -⟩
    exact absurd ho.own (by decide)

/-- Irqfd is used, the guest has enabled MSI-X, and KVM has no routes left. -/
def noRouteEnv : Env := ⟨true, true, fun _ => true, -1, true, true⟩

/-- **An own connect that KVM refuses a route leaves its notifier in the table**, although it
    reports an error. -/
theorem route_refused : ivshmemCommonRealize (x := .vm1)
      ⟨default, .init .vm1 2 (fun _ => default) 0, []⟩ false
      { noRouteEnv with msixEnabled := false } (hello 0) = .ok (.ok (firstUp, [])) ∧
    ¬ ∀ c' err, processMsg firstUp 0 (some ⟨0, 0⟩) noRouteEnv = .ok (c', err) →
      Accounted firstUp c' (some ⟨0, 0⟩) err := by
  refine ⟨rfl, fun hall => ?_⟩
  have hr : Undone firstUp _ (some ⟨0, 0⟩) := hall _ (some .msiRoute) rfl
  have hnb : 1 = 0 := congrArg Peer.nbEventfds (hr.peer 0)
  cases hnb

end IdtNtb
