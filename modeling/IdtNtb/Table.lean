/-
  What a server message does to the peer table and to the ids.

  `entryAfter` is the entry of one peer after a message, `processMsg_peer` says
  that the table becomes just that.  `processMsg_learns` says when the device
  takes over the peer's id and which notifiers it signals: with the second
  connect of its own id (`Inits`), if at all.

  Ids outside the table stand for the empty entries that `resize_peers` would
  add, so that growing the table changes no entry.
-/
import IdtNtb.Lib.Runs
import IdtNtb.Peers

namespace IdtNtb

open Runs

variable {x : Vm} {c c' : Ctx x} {msg : ℤ} {fd : Option Fd} {env : Env} {err : Option MsgError}

/-! ## Entries -/

namespace Peer

/-- The entry of a peer that nothing is known of. -/
def empty (vectors : ℕ) : Peer := ⟨0, List.replicate vectors none, true⟩

/-- The next notifier is connected. -/
def connect (p : Peer) (fd : Fd) : Peer :=
  { p with nbEventfds := p.nbEventfds + 1, eventfds := p.eventfds.set p.nbEventfds (some fd) }

/-- All notifiers are closed, and the array is freed. -/
def close (p : Peer) : Peer :=
  { p with
    nbEventfds := 0
    eventfds := p.eventfds.mapIdx fun i fd => if i < p.nbEventfds then none else fd
    allocated := false }

/-- The notifiers counted are there. -/
structure Ok (p : Peer) (vectors : ℕ) : Prop where
  closed : p.allocated = false → p.nbEventfds = 0
  bound : p.nbEventfds ≤ vectors
  length : p.eventfds.length = vectors
  filled : ∀ k < p.nbEventfds, ∃ fd, p.eventfds[k]? = some (some fd)

variable {p : Peer} {vectors : ℕ}

theorem ok_empty : (empty vectors).Ok vectors where
  closed h := by cases h
  bound := Nat.zero_le _
  length := by simp [empty]
  filled k h := absurd h (Nat.not_lt_zero k)

theorem Ok.connect (h : p.Ok vectors) (hall : p.allocated = true) (hlt : p.nbEventfds < vectors)
    (fd : Fd) : (p.connect fd).Ok vectors where
  closed hf := by
    have : p.allocated = false := hf
    rw [hall] at this
    cases this
  bound := hlt
  length := by simp [Peer.connect, h.length]
  filled k hk := by
    have hk' : k < p.nbEventfds + 1 := hk
    rcases Nat.lt_or_eq_of_le (Nat.le_of_lt_succ hk') with hk | rfl
    · obtain ⟨fd', hfd⟩ := h.filled k hk
      refine ⟨fd', ?_⟩
      simp only [Peer.connect]
      rw [List.getElem?_set_ne (by omega)]
      exact hfd
    · refine ⟨fd, ?_⟩
      simp [Peer.connect, h.length, hlt]

theorem Ok.close (h : p.Ok vectors) : p.close.Ok vectors where
  closed _ := rfl
  bound := Nat.zero_le _
  length := by simp [Peer.close, h.length]
  filled k hk := absurd hk (Nat.not_lt_zero k)

end Peer

namespace IVShmemState
variable (d : IVShmemState x)

/-- The entry of a peer. -/
def peer (i : ℕ) : Peer := d.peers[i]?.getD (.empty d.vectors)

theorem nbEventfds_eq {i : ℤ} (h : 0 ≤ i) : d.nbEventfds i = (d.peer i.toNat).nbEventfds := by
  unfold nbEventfds peer
  rw [if_pos h]
  cases d.peers[i.toNat]? <;> rfl

theorem nbEventfds_natCast (i : ℕ) : d.nbEventfds i = (d.peer i).nbEventfds :=
  d.nbEventfds_eq (Int.natCast_nonneg i)

theorem peer_of_le {i : ℕ} (h : d.nbPeers ≤ i) : d.peer i = .empty d.vectors := by
  unfold peer
  rw [List.getElem?_eq_none h]
  rfl

/-- The table counts only notifiers that are there. -/
def TableOk : Prop := ∀ i, (d.peer i).Ok d.vectors

variable {d}

theorem lt_nbPeers {i : ℕ} (h : 0 < (d.peer i).nbEventfds) : i < d.nbPeers := by
  by_contra hge
  rw [d.peer_of_le (Nat.le_of_not_lt hge)] at h
  exact absurd h (Nat.lt_irrefl 0)

theorem getElem?_peer {i : ℕ} (h : i < d.nbPeers) : d.peers[i]? = some (d.peer i) := by
  unfold peer
  rw [List.getElem?_eq_getElem h]
  rfl

/-- A notifier that is counted can be signalled. -/
theorem TableOk.notifier (h : d.TableOk) {i : ℤ} {k : ℕ} (hk : k < d.nbEventfds i) :
    0 ≤ i ∧ i.toNat < d.nbPeers ∧ ∃ fd, d.notifier i k = .ok (some fd) := by
  have hi : 0 ≤ i := by
    by_contra hneg
    unfold nbEventfds at hk
    rw [if_neg hneg] at hk
    exact Nat.not_lt_zero _ hk
  rw [nbEventfds_eq d hi] at hk
  have hlt : i.toNat < d.nbPeers := lt_nbPeers (Nat.zero_lt_of_lt hk)
  obtain ⟨fd, hfd⟩ := (h i.toNat).filled k hk
  refine ⟨hi, hlt, fd, ?_⟩
  have hall : (d.peer i.toNat).allocated = true := by
    by_contra hf
    rw [(h i.toNat).closed (by simpa using hf)] at hk
    exact Nat.not_lt_zero _ hk
  unfold IVShmemState.notifier
  rw [if_pos hi, getElem?_peer hlt]
  simp only [hall, hfd, if_true]

end IVShmemState

/-! ## Growing, closing, connecting -/

theorem resizePeers_spec {n : ℕ} (h : resizePeers c n = .ok c') : c.dev.nbPeers < n ∧
    c'.dev.nbPeers = n ∧ (∀ i, c'.dev.peer i = c.dev.peer i) ∧
    ∃ ps, c' = c.modDev fun d => { d with peers := ps } := by
  unfold resizePeers at h
  split_ifs at h with hlt
  cases h
  refine ⟨hlt, ?_, fun i => ?_, _, rfl⟩
  · simp only [Ctx.modDev, IVShmemState.nbPeers, List.length_append, List.length_replicate] at hlt ⊢
    omega
  · simp only [Ctx.modDev, IVShmemState.peer]
    by_cases hi : i < c.dev.peers.length
    · rw [List.getElem?_append_left hi]
    · rw [List.getElem?_append_right (by omega), List.getElem?_eq_none (Nat.le_of_not_lt hi),
        List.getElem?_replicate]
      split_ifs <;> rfl

/-- The notifier that an effect signals. -/
def Effect.signal? : Effect → Option (ℤ × ℕ)
  | .eventSet posn vector => some (posn, vector)
  | _ => none

/-- The notifiers signalled so far. -/
def Ctx.signals (c : Ctx x) : List (ℤ × ℕ) := c.out.filterMap Effect.signal?

theorem Ctx.signals_emit (c : Ctx x) (e : Effect) :
    (c.emit e).signals = c.signals ++ e.signal?.toList := by
  unfold signals
  rw [Ctx.emit_out, List.filterMap_append]
  cases h : e.signal? <;> simp [h]

/-- Nothing but the device state has changed, and nothing was signalled. -/
structure Silent (c c' : Ctx x) : Prop where
  shm : c'.shm = c.shm
  otherVmId : c'.dev.otherVmId = c.dev.otherVmId
  signals : c'.signals = c.signals

theorem Silent.refl (c : Ctx x) : Silent c c := ⟨rfl, rfl, rfl⟩

theorem Silent.trans {c'' : Ctx x} (h : Silent c c') (h' : Silent c' c'') : Silent c c'' :=
  ⟨h'.shm.trans h.shm, h'.otherVmId.trans h.otherVmId, h'.signals.trans h.signals⟩

/-- Of the device only what server messages are about has changed. -/
def Framed (d d' : IVShmemState x) : Prop :=
  ∃ ps ms b o, d' = { d with peers := ps, msiVectors := ms, ivshmemBar2 := b, otherVmId := o }

theorem Framed.refl (d : IVShmemState x) : Framed d d :=
  ⟨d.peers, d.msiVectors, d.ivshmemBar2, d.otherVmId, rfl⟩

theorem Framed.trans {d d' d'' : IVShmemState x} (h : Framed d d') (h' : Framed d' d'') :
    Framed d d'' := by
  obtain ⟨ps, ms, b, o, rfl⟩ := h
  obtain ⟨ps', ms', b', o', rfl⟩ := h'
  exact ⟨ps', ms', b', o', rfl⟩

theorem closeFd_frame (c : Ctx x) (fd : Option Fd) :
    (c.closeFd fd).dev = c.dev ∧ Silent c (c.closeFd fd) := by
  cases fd with
  | none => exact ⟨rfl, .refl c⟩
  | some fd => exact ⟨rfl, rfl, rfl, by simp [Ctx.closeFd, Ctx.signals_emit, Effect.signal?]⟩

theorem closeFds_frame (l : List (Option Fd)) (c : Ctx x) :
    (l.foldl Ctx.closeFd c).dev = c.dev ∧ Silent c (l.foldl Ctx.closeFd c) := by
  induction l generalizing c with
  | nil => exact ⟨rfl, .refl c⟩
  | cons fd l ih =>
    obtain ⟨h1, h2⟩ := closeFd_frame c fd
    obtain ⟨h3, h4⟩ := ih (c.closeFd fd)
    exact ⟨h3.trans h1, h2.trans h4⟩

/-- Replacing one entry of the table. -/
theorem peer_set {d : IVShmemState x} {posn : ℕ} (hlt : posn < d.nbPeers) (p : Peer) (i : ℕ) :
    ({ d with peers := d.peers.set posn p } : IVShmemState x).peer i =
      if i = posn then p else d.peer i := by
  unfold IVShmemState.peer
  by_cases hi : i = posn
  · subst hi
    rw [if_pos rfl]
    dsimp only
    rw [List.getElem?_set_self hlt]
    rfl
  · rw [if_neg hi]
    dsimp only
    rw [List.getElem?_set_ne (Ne.symm hi)]

/-- The entry found under an id in the table. -/
theorem getElem?_peers {d : IVShmemState x} {i : ℕ} {p : Peer} (h : d.peers[i]? = some p) :
    i < d.nbPeers ∧ d.peer i = p := by
  refine ⟨(List.getElem?_eq_some_iff.1 h).1, ?_⟩
  unfold IVShmemState.peer
  rw [h]
  rfl

theorem closePeerEventfds_spec {posn : ℕ} (h : closePeerEventfds c posn = .ok c') :
    (∀ i, c'.dev.peer i = if i = posn then (c.dev.peer i).close else c.dev.peer i) ∧
      Framed c.dev c'.dev ∧ Silent c c' := by
  unfold closePeerEventfds at h
  cases hp : c.dev.peers[posn]? with
  | none => rw [hp] at h; cases h
  | some p =>
    rw [hp] at h
    dsimp only at h
    split_ifs at h
    cases h
    obtain ⟨hlt, rfl⟩ := getElem?_peers hp
    obtain ⟨hdev, hsil⟩ := closeFds_frame (((c.dev.peer posn).eventfds).take
      (c.dev.peer posn).nbEventfds) c
    refine ⟨fun i => ?_, ?_, hsil.trans ⟨rfl, rfl, rfl⟩⟩
    · simp only [Ctx.modDev, hdev]
      rw [peer_set hlt]
      split_ifs with hi
      · subst hi
        rfl
      · rfl
    · simp only [Ctx.modDev, hdev]
      exact ⟨_, _, _, _, rfl⟩

/-! ## Announcing the id -/

/-- `*s->other_vm_id_shared` -/
def Ctx.peerId (c : Ctx x) : ℤ := (c.shm.vm x.other).id.toInt

/-- The device has announced its id; the second machine has learnt the id of its peer and signalled
    it. -/
structure Announced (c c' : Ctx x) : Prop where
  realized : c.dev.realized = true
  shm : c'.shm = c.shm.modVm x fun b => { b with id := BitVec.ofInt 32 c.dev.vmId }
  otherVmId : c'.dev.otherVmId = if x = .vm2 then c.peerId else c.dev.otherVmId
  signals : c'.signals = c.signals ++ if x = .vm2 then [(c.peerId, eventfdVmId)] else []

theorem selfNumber_ne_zero (d : IVShmemState x) : d.selfNumber ≠ 0 ↔ x = .vm2 := by
  have h := d.self_block
  unfold Vm.ofNumber at h
  by_cases h0 : d.selfNumber = 0
  · rw [if_pos h0] at h
    subst h
    exact ⟨fun hne => absurd h0 hne, nofun⟩
  · rw [if_neg h0] at h
    exact ⟨fun _ => h.symm, fun _ => h0⟩

theorem initVmIds_spec (h : initVmIds c = .ok c') : Announced c c' ∧
    c'.dev = { c.dev with otherVmId := c'.dev.otherVmId } := by
  unfold initVmIds at h
  by_cases hr : c.dev.realized = true
  · rw [if_pos hr] at h
    dsimp only at h
    by_cases hs : c.dev.selfNumber ≠ 0
    · rw [if_pos hs] at h
      cases h
      have hx : x = .vm2 := (selfNumber_ne_zero c.dev).1 hs
      have hid : (c.shm.modVm x fun b => { b with id := BitVec.ofInt 32 c.dev.vmId }).vm x.other =
          c.shm.vm x.other := by simp
      refine ⟨⟨hr, rfl, ?_, ?_⟩, rfl⟩
      · rw [if_pos hx, Ctx.peerId, ← hid]
        rfl
      · rw [if_pos hx, Ctx.peerId, ← hid]
        exact Ctx.signals_emit _ _
    · rw [if_neg hs] at h
      cases h
      have hx : ¬ x = .vm2 := fun hx => hs ((selfNumber_ne_zero c.dev).2 hx)
      refine ⟨⟨hr, rfl, ?_, ?_⟩, rfl⟩
      · rw [if_neg hx]
      · rw [if_neg hx, List.append_nil]
        rfl
  · rw [if_neg hr] at h
    cases h

/-- KVM refuses a route for the vector. -/
def RouteFails (d : IVShmemState x) (env : Env) : Prop :=
  env.msiViaIrqfd = true ∧ d.hasFeature ivshmemMsi = true ∧ env.msixEnabled = true ∧
    env.addMsiRoute < 0

instance (d : IVShmemState x) (env : Env) : Decidable (RouteFails d env) :=
  inferInstanceAs (Decidable (_ ∧ _))

/-- What wiring a vector does, apart from announcing the id. -/
def Wired (c c' : Ctx x) : Prop :=
  (∃ ms, c'.dev = { c.dev with msiVectors := ms }) ∧ Silent c c'

theorem setMsiVector_wired (c : Ctx x) (vector : ℕ) (v : MSIVector) :
    Wired c (c.setMsiVector vector v) := ⟨⟨_, rfl⟩, rfl, rfl, rfl⟩

/-- **What attaching a notifier does**: the vector gets a handler, or a route and, unless it is
    masked, an irqfd.  KVM can refuse the route, and while MSI-X is disabled nothing happens. -/
inductive AttachResult (c : Ctx x) (n : Option Fd) (vector : ℕ) (env : Env) :
    Ctx x → Option MsgError → Prop
  | watched {e : MSIVector} (hirq : (env.msiViaIrqfd && c.dev.hasFeature ivshmemMsi) = false)
      (he : msiVector c vector = .ok e) (hp : e.pdev = false) :
      AttachResult c n vector env
        ((c.setMsiVector vector { e with pdev := true }).emit (.setFdHandler n vector)) none
  | routed {e : MSIVector} (hirq : (env.msiViaIrqfd && c.dev.hasFeature ivshmemMsi) = true)
      (hmsix : env.msixEnabled = true) (he : msiVector c vector = .ok e) (hp : e.pdev = false)
      (hroute : 0 ≤ env.addMsiRoute) {c₁ : Ctx x}
      (hc₁ : c₁ = c.setMsiVector vector { e with virq := env.addMsiRoute, pdev := true }) :
      AttachResult c n vector env
        (if env.msixIsMasked vector then c₁ else c₁.emit (.addIrqfd n env.addMsiRoute)) none
  | refused {e : MSIVector} (hirq : (env.msiViaIrqfd && c.dev.hasFeature ivshmemMsi) = true)
      (hmsix : env.msixEnabled = true) (he : msiVector c vector = .ok e) (hp : e.pdev = false)
      (hroute : env.addMsiRoute < 0) : AttachResult c n vector env c (some .msiRoute)
  | delayed (hirq : (env.msiViaIrqfd && c.dev.hasFeature ivshmemMsi) = true)
      (hmsix : env.msixEnabled = false) : AttachResult c n vector env c none

theorem attachNotifier_result {n : Option Fd} {vector : ℕ}
    (h : attachNotifier c n vector env = .ok (c', err)) : AttachResult c n vector env c' err := by
  unfold attachNotifier at h
  cases hirq : (env.msiViaIrqfd && c.dev.hasFeature ivshmemMsi) with
  | false =>
    rw [hirq] at h
    obtain ⟨c₁, h₁, h⟩ := bind_ok.1 h
    obtain ⟨e, he, h₁⟩ := bind_ok.1 h₁
    split_ifs at h₁ with hp
    cases h₁
    cases h
    exact .watched hirq he (Bool.eq_false_of_not_eq_true hp)
  | true =>
    rw [hirq] at h
    cases hmsix : env.msixEnabled with
    | false =>
      rw [hmsix] at h
      cases h
      exact .delayed hirq hmsix
    | true =>
      rw [hmsix] at h
      obtain ⟨⟨c₁, e₁⟩, h₁, h⟩ := bind_ok.1 h
      obtain ⟨e, he, h₁⟩ := bind_ok.1 h₁
      split_ifs at h₁ with hp hroute
      · cases h₁
        cases h
        exact .refused hirq hmsix he (Bool.eq_false_of_not_eq_true hp) hroute
      · cases h₁
        cases h
        exact .routed hirq hmsix he (Bool.eq_false_of_not_eq_true hp) (not_lt.1 hroute) rfl

theorem attachNotifier_wired {n : Option Fd} {vector : ℕ}
    (h : attachNotifier c n vector env = .ok (c', err)) :
    Wired c c' ∧ (err.isSome ↔ RouteFails c.dev env) := by
  unfold RouteFails
  cases attachNotifier_result h with
  | watched hirq =>
    refine ⟨⟨⟨_, rfl⟩, rfl, rfl, ?_⟩, ?_⟩
    · simp [Ctx.signals_emit, Effect.signal?]
      rfl
    · rw [Bool.and_eq_false_iff] at hirq
      rcases hirq with hirq | hirq <;> simp [hirq]
  | @routed e hirq hmsix he hp hroute c₁ hc₁ =>
    have hw : Wired c c₁ := hc₁ ▸ setMsiVector_wired c vector _
    refine ⟨?_, by simp [hroute]⟩
    split_ifs
    · exact hw
    · exact ⟨hw.1, hw.2.trans ⟨rfl, rfl, by simp [Ctx.signals_emit, Effect.signal?]⟩⟩
  | refused hirq hmsix he hp hroute =>
    rw [Bool.and_eq_true] at hirq
    exact ⟨⟨⟨_, rfl⟩, .refl c⟩, by simp [hirq, hmsix, hroute]⟩
  | delayed hirq hmsix =>
    exact ⟨⟨⟨_, rfl⟩, .refl c⟩, by simp [hmsix]⟩

theorem Wired.framed (h : Wired c c') : c'.dev.peers = c.dev.peers ∧ Framed c.dev c'.dev := by
  obtain ⟨⟨ms, hdev⟩, -⟩ := h
  rw [hdev]
  exact ⟨rfl, _, _, _, _, rfl⟩

/-- The id can be announced after other parts of the device have changed. -/
theorem Announced.of_silent {c₁ : Ctx x} (hf : Framed c.dev c₁.dev) (hsil : Silent c c₁)
    (h : Announced c₁ c') : Announced c c' := by
  obtain ⟨ps, ms, b, o, hdev⟩ := hf
  obtain ⟨hr, hshm, hid, hsig⟩ := h
  have hpeer : c₁.peerId = c.peerId := by
    unfold Ctx.peerId
    rw [hsil.shm]
  refine ⟨?_, ?_, ?_, ?_⟩
  · rw [hdev] at hr
    exact hr
  · rw [hshm, hsil.shm, hdev]
  · rw [hid, hpeer, hsil.otherVmId]
  · rw [hsig, hpeer, hsil.signals]

/-- Wiring a vector changes the interrupt vectors, and with vector 1 the id is announced. -/
theorem setupInterrupt_spec {vector : ℕ} (h : setupInterrupt c vector env = .ok (c', err)) :
    c'.dev.peers = c.dev.peers ∧ Framed c.dev c'.dev ∧
      ((vector = 1 ∧ ¬ RouteFails c.dev env ∧ Announced c c') ∨
        ((vector = 1 → RouteFails c.dev env) ∧ Silent c c')) := by
  obtain ⟨n, -, h⟩ := bind_ok.1 h
  obtain ⟨⟨c₁, e⟩, h₁, h⟩ := bind_ok.1 h
  obtain ⟨hw, hfail⟩ := attachNotifier_wired h₁
  obtain ⟨hpeers, hframe⟩ := hw.framed
  cases e with
  | some e =>
    cases h
    exact ⟨hpeers, hframe, Or.inr ⟨fun _ => hfail.1 rfl, hw.2⟩⟩
  | none =>
    have hok : ¬ RouteFails c.dev env := fun hf => by simpa using hfail.2 hf
    by_cases hv : vector = 1
    · simp only [if_pos hv] at h
      obtain ⟨c₂, h₂, h⟩ := bind_ok.1 h
      cases h
      obtain ⟨hann, hdev⟩ := initVmIds_spec h₂
      have hpeers' : c'.dev.peers = c₁.dev.peers := by rw [hdev]
      have hframe' : Framed c₁.dev c'.dev := ⟨_, _, _, _, hdev⟩
      exact ⟨hpeers'.trans hpeers, hframe.trans hframe', Or.inl ⟨hv, hok, hann.of_silent hframe hw.2⟩⟩
    · simp only [if_neg hv] at h
      cases h
      exact ⟨hpeers, hframe, Or.inr ⟨fun h1 => absurd h1 hv, hw.2⟩⟩

/-! ## One message -/

/-- The entry of a peer after a message. -/
def entryAfter (d : IVShmemState x) (msg : ℤ) (fd : Option Fd) (i : ℕ) : Peer :=
  if (i : ℤ) = msg ∧ msg ≤ ivshmemMaxPeers then
    match fd with
    | some fd => if d.vectors ≤ (d.peer i).nbEventfds then d.peer i else (d.peer i).connect fd
    | none => if msg = d.vmId then d.peer i else (d.peer i).close
  else d.peer i

section
variable {d : IVShmemState x} {i posn : ℕ}

theorem entryAfter_of_not (h : ¬ ((i : ℤ) = msg ∧ msg ≤ ivshmemMaxPeers)) :
    entryAfter d msg fd i = d.peer i := if_neg h

/-- The message is about another client. -/
theorem entryAfter_of_ne (h : msg ≠ i) : entryAfter d msg fd i = d.peer i := by
  refine entryAfter_of_not ?_
  rintro ⟨rfl, -⟩
  exact h rfl

/-- The message is not about a client. -/
theorem entryAfter_of_not_peer (h : msg < 0 ∨ ivshmemMaxPeers < msg) :
    entryAfter d msg fd i = d.peer i := by
  refine entryAfter_of_not ?_
  rintro ⟨rfl, hmax⟩
  omega

theorem entryAfter_connect {n : Fd} (h : (i : ℤ) ≤ ivshmemMaxPeers) :
    entryAfter d i (some n) i =
      if d.vectors ≤ (d.peer i).nbEventfds then d.peer i else (d.peer i).connect n :=
  if_pos ⟨rfl, h⟩

theorem entryAfter_disconnect (h : (i : ℤ) ≤ ivshmemMaxPeers) :
    entryAfter d i none i = if (i : ℤ) = d.vmId then d.peer i else (d.peer i).close :=
  if_pos ⟨rfl, h⟩

theorem entryAfter_eq : entryAfter d posn fd i =
    if i = posn then entryAfter d posn fd posn else d.peer i := by
  by_cases hi : i = posn
  · rw [if_pos hi, hi]
  · rw [if_neg hi]
    exact entryAfter_of_ne fun he => hi (Int.natCast_inj.1 he).symm

end

/-- A connect that fills a notifier finds the array of its peer. -/
def Storable (d : IVShmemState x) (msg : ℤ) (fd : Option Fd) : Prop :=
  ∀ i : ℕ, fd.isSome → (i : ℤ) = msg → msg ≤ ivshmemMaxPeers →
    (d.peer i).nbEventfds < d.vectors → (d.peer i).allocated = true

/-- The message announces the id: it is the second connect of the device's own id, and KVM does not
    refuse the route. -/
def Inits (d : IVShmemState x) (msg : ℤ) (fd : Option Fd) (env : Env) : Prop :=
  fd.isSome ∧ msg = d.vmId ∧ msg ≤ ivshmemMaxPeers ∧ d.nbEventfds msg = 1 ∧ 1 < d.vectors ∧
    ¬ RouteFails d env

instance (d : IVShmemState x) (msg : ℤ) (fd : Option Fd) (env : Env) :
    Decidable (Inits d msg fd env) :=
  inferInstanceAs (Decidable (_ ∧ _))

/-- What a message does to the device, apart from the peer table. -/
def Learns (c c' : Ctx x) (inits : Prop) : Prop :=
  (inits ∧ Announced c c') ∨ (¬ inits ∧ Silent c c')

theorem processMsgConnect_spec {posn : ℕ} {fd : Fd} (hposn : (posn : ℤ) ≤ ivshmemMaxPeers)
    (h : processMsgConnect c posn fd env = .ok (c', err)) :
    (∀ i, c'.dev.peer i = entryAfter c.dev posn (some fd) i) ∧ Framed c.dev c'.dev ∧
      Learns c c' (Inits c.dev posn (some fd) env) ∧ Storable c.dev posn (some fd) := by
  unfold processMsgConnect at h
  cases hp : c.dev.peers[posn]? with
  | none => rw [hp] at h; cases h
  | some p =>
    rw [hp] at h
    dsimp only at h
    obtain ⟨hlt, rfl⟩ := getElem?_peers hp
    have hnb : c.dev.nbEventfds posn = (c.dev.peer posn).nbEventfds := by
      rw [IVShmemState.nbEventfds_natCast]
    have hentry : ∀ i, entryAfter c.dev posn (some fd) i =
        if i = posn then
          if c.dev.vectors ≤ (c.dev.peer posn).nbEventfds then c.dev.peer posn
          else (c.dev.peer posn).connect fd
        else c.dev.peer i := by
      intro i
      rw [entryAfter_eq, entryAfter_connect hposn]
    have hacc : (c.dev.vectors ≤ (c.dev.peer posn).nbEventfds ∨
        (c.dev.peer posn).allocated = true) → Storable c.dev posn (some fd) := by
      intro hor i _ hi _ hlt
      obtain rfl := Int.natCast_inj.1 hi
      rcases hor with hfull | hall
      · omega
      · exact hall
    split_ifs at h with hfull hall hown
    · cases h
      obtain ⟨hdev, hsil⟩ := closeFd_frame c (some fd)
      refine ⟨fun i => ?_, ?_, Or.inr ⟨?_, hsil⟩, hacc (Or.inl hfull)⟩
      · rw [hdev, hentry, if_pos hfull]
        split_ifs with hi
        · rw [hi]
        · rfl
      · rw [hdev]
        exact .refl _
      · rintro ⟨-, -, -, h1, h2, -⟩
        omega
    · -- the table first, then the interrupt vector
      obtain ⟨hpeers, hframe, hids⟩ := setupInterrupt_spec h
      have hfr : Framed c.dev
          { c.dev with peers := c.dev.peers.set posn ((c.dev.peer posn).connect fd) } :=
        ⟨_, _, _, _, rfl⟩
      have hvec : c'.dev.vectors = c.dev.vectors := by
        obtain ⟨ps, ms, b, o, hdev⟩ := hfr.trans hframe
        rw [hdev]
      refine ⟨fun i => ?_, hfr.trans hframe, ?_, hacc (Or.inr hall)⟩
      · rw [hentry, if_neg hfull, ← peer_set hlt]
        unfold IVShmemState.peer
        rw [hpeers, hvec]
        rfl
      · rcases hids with ⟨hv, hok, hann⟩ | ⟨hv, hsil⟩
        · refine Or.inl ⟨⟨rfl, hown, hposn, ?_, ?_, hok⟩, Announced.of_silent ?_ ?_ hann⟩
          · rw [hnb, hv]
          · omega
          · exact hfr
          · exact ⟨rfl, rfl, rfl⟩
        · refine Or.inr ⟨?_, Silent.trans ?_ hsil⟩
          · rintro ⟨-, -, -, h1, -, h2⟩
            rw [hnb] at h1
            exact h2 (hv h1)
          · exact ⟨rfl, rfl, rfl⟩
    · cases h
      refine ⟨fun i => ?_, ⟨_, _, _, _, rfl⟩, Or.inr ⟨?_, rfl, rfl, rfl⟩, hacc (Or.inr hall)⟩
      · rw [hentry, if_neg hfull, ← peer_set hlt]
        rfl
      · rintro ⟨-, h1, -⟩
        exact hown h1

theorem processMsgDisconnect_spec {posn : ℕ} (hposn : (posn : ℤ) ≤ ivshmemMaxPeers)
    (hlt : posn < c.dev.nbPeers) (h : processMsgDisconnect c posn = .ok (c', err)) :
    (∀ i, c'.dev.peer i = entryAfter c.dev posn none i) ∧ Framed c.dev c'.dev ∧ Silent c c' := by
  have hentry : ∀ i, entryAfter c.dev posn none i =
      if i = posn then
        if (posn : ℤ) = c.dev.vmId then c.dev.peer posn else (c.dev.peer posn).close
      else c.dev.peer i := by
    intro i
    rw [entryAfter_eq, entryAfter_disconnect hposn]
  unfold processMsgDisconnect at h
  split_ifs at h with hown
  · cases h
    have hself : (posn : ℤ) = c.dev.vmId := by
      rcases hown with h | h
      · omega
      · exact h
    refine ⟨fun i => ?_, .refl _, .refl _⟩
    rw [hentry, if_pos hself]
    split_ifs with hi
    · rw [hi]
    · rfl
  · obtain ⟨c₁, h₁, h⟩ := bind_ok.1 h
    cases h
    obtain ⟨hpeer, hframe, hsil⟩ := closePeerEventfds_spec h₁
    refine ⟨fun i => ?_, hframe, hsil⟩
    rw [hpeer, hentry, if_neg (not_or.1 hown).2]
    split_ifs with hi
    · rw [hi]
    · rfl

theorem processMsgShmem_frame (c : Ctx x) (fd : Option Fd) (env : Env) :
    (processMsgShmem c fd env).1.dev.peers = c.dev.peers ∧
      Framed c.dev (processMsgShmem c fd env).1.dev ∧ Silent c (processMsgShmem c fd env).1 := by
  obtain ⟨hdev, hsil⟩ := closeFd_frame c fd
  unfold processMsgShmem
  split_ifs
  · exact ⟨by rw [hdev], by rw [hdev]; exact .refl _, hsil⟩
  · exact ⟨by rw [hdev], by rw [hdev]; exact .refl _, hsil⟩
  · exact ⟨rfl, .refl _, .refl _⟩
  · exact ⟨rfl, ⟨_, _, _, _, rfl⟩, rfl, rfl, rfl⟩

/-- A device is framed with its table entries in place if the table is. -/
theorem peer_of_peers {d d' : IVShmemState x} (hf : Framed d d') (h : d'.peers = d.peers) (i : ℕ) :
    d'.peer i = d.peer i := by
  obtain ⟨ps, ms, b, o, rfl⟩ := hf
  unfold IVShmemState.peer
  rw [h]

/-- At most empty entries were added to the table. -/
structure Grown (c c₁ : Ctx x) : Prop where
  table : ∃ ps, c₁ = c.modDev fun d => { d with peers := ps }
  nbPeers : c.dev.nbPeers ≤ c₁.dev.nbPeers
  peer : ∀ i, c₁.dev.peer i = c.dev.peer i

namespace Grown
variable {c₁ : Ctx x}

theorem refl (c : Ctx x) : Grown c c := ⟨⟨c.dev.peers, rfl⟩, le_rfl, fun _ => rfl⟩

theorem framed (h : Grown c c₁) : Framed c.dev c₁.dev := by
  obtain ⟨ps, rfl⟩ := h.table
  exact ⟨_, _, _, _, rfl⟩

theorem silent (h : Grown c c₁) : Silent c c₁ := by
  obtain ⟨ps, rfl⟩ := h.table
  exact ⟨rfl, rfl, rfl⟩

theorem entryAfter (h : Grown c c₁) (i : ℕ) :
    entryAfter c₁.dev msg fd i = entryAfter c.dev msg fd i := by
  have hpeer := h.peer i
  obtain ⟨ps, rfl⟩ := h.table
  unfold IdtNtb.entryAfter
  rw [hpeer]
  rfl

theorem inits (h : Grown c c₁) {posn : ℕ} :
    Inits c₁.dev posn fd env ↔ Inits c.dev posn fd env := by
  have hpeer := h.peer posn
  obtain ⟨ps, rfl⟩ := h.table
  unfold Inits
  rw [IVShmemState.nbEventfds_natCast, IVShmemState.nbEventfds_natCast, hpeer]
  rfl

theorem storable (h : Grown c c₁) : Storable c₁.dev msg fd ↔ Storable c.dev msg fd := by
  have hpeer := h.peer
  obtain ⟨ps, rfl⟩ := h.table
  unfold Storable
  simp only [hpeer]
  rfl

end Grown

/-- **A message about a client** finds a table that has the client's entry. -/
theorem processMsg_posn (c : Ctx x) (fd : Option Fd) (env : Env) {posn : ℕ}
    (hposn : (posn : ℤ) ≤ ivshmemMaxPeers) : ∃ c₁, Grown c c₁ ∧ posn < c₁.dev.nbPeers ∧
      processMsg c posn fd env =
        fd.elim (processMsgDisconnect c₁ posn) fun fd => processMsgConnect c₁ posn fd env := by
  unfold processMsg
  rw [if_neg (by omega), if_neg (by omega)]
  dsimp only
  rw [Int.toNat_natCast]
  by_cases hlt : c.dev.nbPeers ≤ posn
  · rw [if_pos hlt]
    obtain ⟨c₁, h₁⟩ : ∃ c₁, resizePeers c (posn + 1) = .ok c₁ := by
      unfold resizePeers
      rw [if_pos (Nat.lt_succ_of_le hlt)]
      exact ⟨_, rfl⟩
    obtain ⟨-, hnb, hpeer, hps⟩ := resizePeers_spec h₁
    refine ⟨c₁, ⟨hps, by omega, hpeer⟩, by omega, ?_⟩
    rw [h₁]
    cases fd <;> rfl
  · rw [if_neg hlt]
    refine ⟨c, .refl c, Nat.not_le.1 hlt, ?_⟩
    cases fd <;> rfl

/-- **The three kinds of messages**: one out of range, the shared memory, and one about a client. -/
theorem msg_cases (msg : ℤ) : (msg < -1 ∨ ivshmemMaxPeers < msg) ∨ msg = -1 ∨
    ∃ posn : ℕ, msg = posn ∧ (posn : ℤ) ≤ ivshmemMaxPeers := by
  by_cases hbad : msg < -1 ∨ ivshmemMaxPeers < msg
  · exact Or.inl hbad
  by_cases hshm : msg = -1
  · exact Or.inr (Or.inl hshm)
  · exact Or.inr (Or.inr ⟨msg.toNat, by omega, by omega⟩)

theorem processMsg_invalid (c : Ctx x) (fd : Option Fd) (env : Env)
    (h : msg < -1 ∨ ivshmemMaxPeers < msg) :
    processMsg c msg fd env = .ok (c.closeFd fd, some (.invalidMessage msg)) := if_pos h

theorem processMsg_shmem (c : Ctx x) (fd : Option Fd) (env : Env) :
    processMsg c (-1) fd env = .ok (processMsgShmem c fd env) := rfl

/-- A message that is not about a client announces nothing. -/
theorem not_inits_of_not_peer {d : IVShmemState x} (h : msg < 0 ∨ ivshmemMaxPeers < msg) :
    ¬ Inits d msg fd env := by
  rintro ⟨-, -, hmax, hnb, -⟩
  have hneg : ¬ 0 ≤ msg := by omega
  rw [IVShmemState.nbEventfds, if_neg hneg] at hnb
  cases hnb

/-- Nor does it store a notifier. -/
theorem storable_of_not_peer {d : IVShmemState x} (h : msg < 0 ∨ ivshmemMaxPeers < msg) :
    Storable d msg fd := by
  rintro i - rfl hmax
  omega

/-- **What a message does**: one entry of the table, and perhaps the ids. -/
theorem processMsg_spec (h : processMsg c msg fd env = .ok (c', err)) :
    (∀ i, c'.dev.peer i = entryAfter c.dev msg fd i) ∧ Framed c.dev c'.dev ∧
      Learns c c' (Inits c.dev msg fd env) ∧ Storable c.dev msg fd := by
  rcases msg_cases msg with hbad | rfl | ⟨posn, rfl, hposn⟩
  · rw [processMsg_invalid c fd env hbad] at h
    cases h
    have hno : msg < 0 ∨ ivshmemMaxPeers < msg := by omega
    obtain ⟨hdev, hsil⟩ := closeFd_frame c fd
    refine ⟨fun i => ?_, by rw [hdev]; exact .refl _, Or.inr ⟨not_inits_of_not_peer hno, hsil⟩,
      storable_of_not_peer hno⟩
    rw [hdev, entryAfter_of_not_peer hno]
  · have hno : (-1 : ℤ) < 0 ∨ ivshmemMaxPeers < -1 := Or.inl (by omega)
    obtain ⟨hpeers, hframe, hsil⟩ := processMsgShmem_frame c fd env
    rw [Except.ok.inj ((processMsg_shmem c fd env).symm.trans h)] at hpeers hframe hsil
    refine ⟨fun i => ?_, hframe, Or.inr ⟨not_inits_of_not_peer hno, hsil⟩, storable_of_not_peer hno⟩
    rw [peer_of_peers hframe hpeers, entryAfter_of_not_peer hno]
  · -- the table is grown first
    obtain ⟨c₁, hg, hlt, heq⟩ := processMsg_posn c fd env hposn
    rw [heq] at h
    cases fd with
    | some fd =>
      obtain ⟨h1, h2, h3, h4⟩ := processMsgConnect_spec hposn h
      refine ⟨fun i => (h1 i).trans (hg.entryAfter i), hg.framed.trans h2, ?_, hg.storable.1 h4⟩
      rcases h3 with ⟨hi, ha⟩ | ⟨hi, hs⟩
      · exact Or.inl ⟨hg.inits.1 hi, ha.of_silent hg.framed hg.silent⟩
      · exact Or.inr ⟨fun hn => hi (hg.inits.2 hn), hg.silent.trans hs⟩
    | none =>
      obtain ⟨h1, h2, h3⟩ := processMsgDisconnect_spec hposn hlt h
      refine ⟨fun i => (h1 i).trans (hg.entryAfter i), hg.framed.trans h2,
        Or.inr ⟨?_, hg.silent.trans h3⟩, nofun⟩
      rintro ⟨hn, -⟩
      cases hn

theorem Framed.vectors {d d' : IVShmemState x} (h : Framed d d') : d'.vectors = d.vectors := by
  obtain ⟨ps, ms, b, o, rfl⟩ := h
  rfl

theorem Framed.vmId {d d' : IVShmemState x} (h : Framed d d') : d'.vmId = d.vmId := by
  obtain ⟨ps, ms, b, o, rfl⟩ := h
  rfl

theorem Framed.realized {d d' : IVShmemState x} (h : Framed d d') : d'.realized = d.realized := by
  obtain ⟨ps, ms, b, o, rfl⟩ := h
  rfl

/-- Messages keep the table in order. -/
theorem processMsg_tableOk (h : processMsg c msg fd env = .ok (c', err)) (hok : c.dev.TableOk) :
    c'.dev.TableOk := by
  obtain ⟨hpeer, hframe, -, hacc⟩ := processMsg_spec h
  intro i
  rw [hpeer, hframe.vectors]
  by_cases hi : (i : ℤ) = msg ∧ msg ≤ ivshmemMaxPeers
  · obtain ⟨rfl, hmax⟩ := hi
    cases fd with
    | some fd =>
      rw [entryAfter_connect hmax]
      split_ifs with hfull
      · exact hok i
      · exact (hok i).connect (hacc i rfl rfl hmax (by omega)) (by omega) fd
    | none =>
      rw [entryAfter_disconnect hmax]
      split_ifs
      · exact hok i
      · exact (hok i).close
  · rw [entryAfter_of_not hi]
    exact hok i

end IdtNtb
