/-
  The ivshmem server and the devices that join it.

  A device that joins gets an id that was never used before, and a queue of
  messages: the version, its id, the shared memory, the connects of the device
  that is already there, and its own connects.  The device that is there is told
  of the newcomer, and of a device that leaves.  Each device works off its queue
  in its own time: realize takes what comes first, later messages are handled
  one by one, and the events on its notifiers in between.  What the calls out of
  a device answer comes with the action (`Env`).

  * `Net.Ok` is the invariant of the queues and the peer tables: what the server
    still has to say about a device (`Feed`) is what the table lacks of it;
    `ok_step` proves it for every step;
  * `Net.Announced` says that a device with complete notifiers has announced its
    id, which irqfd mode does not promise: there a route can be refused
    (`announced_step`).
-/
import IdtNtb.Notifiers

namespace IdtNtb

open Function (update)
open Runs

/-! ## Devices on a server -/

/-- A device that has joined. -/
structure Client (x : Vm) where
  dev : IVShmemState x
  /-- The id that the server gave it. -/
  id : ℕ
  /-- The messages that wait on its connection. -/
  queue : List Msg

/-- The server, the devices and what they share. -/
structure Net where
  shm : IdtIvshmemShmStorage
  client : (x : Vm) → Option (Client x)
  /-- The eventfds with an event pending. -/
  pending : Fd → Bool
  /-- The ids that the server has given out. -/
  used : List ℕ

inductive NetAct where
  | join (x : Vm) (id : ℕ)
  | leave (x : Vm)
  /-- The device is realized; the calls out of it answer as `env` says. -/
  | realize (x : Vm) (env : Env)
  /-- The device handles the first message of its queue. -/
  | recv (x : Vm) (env : Env)
  /-- The device finds its notifier of this vector readable. -/
  | notify (x : Vm) (vector : ℕ)

/-- The devices are in eventfd mode. -/
def NetAct.Eventfd : NetAct → Prop
  | .realize _ env | .recv _ env => env.msiViaIrqfd = false
  | _ => True

instance : (a : NetAct) → Decidable a.Eventfd
  | .realize _ env | .recv _ env => inferInstanceAs (Decidable (env.msiViaIrqfd = false))
  | .join _ _ | .leave _ | .notify _ _ => isTrue trivial

/-- Why an action has no result. -/
inductive Halt where
  | fault (f : Fault)
  | disabled

/-- What the server sends about the notifiers of a client. -/
def connects (n id : ℕ) : List Msg := (List.range n).map fun k => ⟨id, some ⟨id, k⟩⟩

namespace Client
variable {x : Vm}

/-- A device that has not yet been realized. -/
def fresh (x : Vm) (n id : ℕ) (l : List Msg) : Client x :=
  ⟨.init x n (fun _ => default) 0, id, hello id ++ l⟩

def push (l : List Msg) (c : Client x) : Client x := { c with queue := c.queue ++ l }

/-- What a handler of the device starts from. -/
def ctx (c : Client x) (shm : IdtIvshmemShmStorage) : Ctx x := ⟨shm, c.dev, []⟩

end Client

namespace Net

/-- Take over what a handler of the device left, and deliver its notifications. -/
def finish (s : Net) {x : Vm} (c : Client x) (r : Ctx x) : Except Halt Net := do
  let pending ← (r.out.foldlM (deliver r.dev) s.pending).mapError Halt.fault
  pure { s with
    shm := r.shm
    client := update s.client x (some { c with dev := r.dev })
    pending := pending }

/-- `event_notifier_test_and_clear` takes the pending event. -/
def testAndClear (s : Net) : Option Fd → Net
  | some fd => { s with pending := update s.pending fd false }
  | none => s

/-- What a newcomer is told about the notifiers of `x`. -/
def present (n : ℕ) (s : Net) (x : Vm) : List Msg :=
  match s.client x with
  | some c => connects n c.id
  | none => []

/-- One action; the server and the devices have `n` vectors. -/
def next (n : ℕ) (s : Net) : NetAct → Except Halt Net
  | .join x id =>
    if (s.client x).isSome ∨ id ∈ s.used ∨ ivshmemMaxPeers < id then .error .disabled
    else
      .ok { s with
        client := update (fun y => (s.client y).map (.push (connects n id))) x
          (some (.fresh x n id (s.present n x.other ++ connects n id)))
        used := id :: s.used }
  | .leave x =>
    match s.client x with
    | none => .error .disabled
    | some c =>
      .ok { s with client := update (fun y => (s.client y).map (.push [⟨c.id, none⟩])) x none }
  | .realize x env =>
    match s.client x with
    | none => .error .disabled
    | some c =>
      if c.dev.realized then .error .disabled
      else do
        match ← (ivshmemCommonRealize (c.ctx s.shm) false env c.queue).mapError Halt.fault with
        | .error _ => .error .disabled
        | .ok (r, queue) => s.finish { c with queue := queue } r
  | .recv x env =>
    match s.client x with
    | none => .error .disabled
    | some c =>
      match c.dev.realized, c.queue with
      | true, m :: queue => do
        let r ← (processMsg (c.ctx s.shm) m.value m.fd env).mapError Halt.fault
        s.finish { c with queue := queue } r.1
      | _, _ => .error .disabled
  | .notify x vector =>
    match s.client x with
    | none => .error .disabled
    | some c => do
      let fd ← (vectorNotifier (c.ctx s.shm) vector).mapError Halt.fault
      let r ← (ivshmemVectorNotify (c.ctx s.shm) vector (fd.any s.pending)).mapError Halt.fault
      (s.testAndClear fd).finish c r

/-- Nobody has joined yet; the memory may hold anything. -/
def start (shm : IdtIvshmemShmStorage) : Net := ⟨shm, fun _ => none, fun _ => false, []⟩

end Net

/-- One step of the server and the devices. -/
def NetStep (n : ℕ) (s : Net) (a : NetAct) (s' : Net) : Prop := s.next n a = .ok s'

/-! ## What a step can do -/

section
variable {n : ℕ} {s s' : Net} {x y : Vm} {env : Env}

theorem mapError_ok {ε ε' α : Type} {m : Except ε α} {f : ε → ε'} {a : α} :
    m.mapError f = .ok a ↔ m = .ok a := by
  cases m with
  | error e => exact ⟨nofun, nofun⟩
  | ok b => simp [Except.mapError]

theorem Net.finish_ok {c : Client x} {r : Ctx x} (h : s.finish c r = .ok s') :
    ∃ pending, r.out.foldlM (deliver r.dev) s.pending = .ok pending ∧
      s' = { s with
        shm := r.shm
        client := update s.client x (some { c with dev := r.dev })
        pending := pending } := by
  obtain ⟨pending, h₁, h⟩ := bind_ok.1 h
  cases h
  exact ⟨pending, mapError_ok.1 h₁, rfl⟩

/-- The step in which a device joins. -/
theorem net_join {id : ℕ} (h : NetStep n s (.join x id) s') : s.client x = none ∧ id ∉ s.used ∧
    (id : ℤ) ≤ ivshmemMaxPeers ∧ s' = { s with
      client := update (fun y => (s.client y).map (.push (connects n id))) x
        (some (.fresh x n id (s.present n x.other ++ connects n id)))
      used := id :: s.used } := by
  unfold NetStep Net.next at h
  dsimp only at h
  split_ifs at h with hen
  cases h
  simp only [not_or, Bool.not_eq_true, Option.isSome_eq_false_iff, Option.isNone_iff_eq_none,
    Int.not_lt] at hen
  exact ⟨hen.1, hen.2.1, hen.2.2, rfl⟩

/-- The step in which a device leaves. -/
theorem net_leave (h : NetStep n s (.leave x) s') : ∃ c, s.client x = some c ∧
    s' = { s with client := update (fun y => (s.client y).map (.push [⟨c.id, none⟩])) x none } := by
  unfold NetStep Net.next at h
  dsimp only at h
  cases hc : s.client x with
  | none => rw [hc] at h; cases h
  | some c =>
    rw [hc] at h
    cases h
    exact ⟨c, rfl, rfl⟩

/-- The step in which a device is realized. -/
theorem net_realize (h : NetStep n s (.realize x env) s') : ∃ c r queue, s.client x = some c ∧
    c.dev.realized = false ∧
    ivshmemCommonRealize (c.ctx s.shm) false env c.queue = .ok (.ok (r, queue)) ∧
    s.finish { c with queue := queue } r = .ok s' := by
  unfold NetStep Net.next at h
  dsimp only at h
  cases hc : s.client x with
  | none => rw [hc] at h; cases h
  | some c =>
    rw [hc] at h
    dsimp only at h
    by_cases hr : c.dev.realized = true
    · rw [if_pos hr] at h
      cases h
    rw [if_neg hr] at h
    obtain ⟨o, h₁, h⟩ := bind_ok.1 h
    cases o with
    | error e => cases h
    | ok o => exact ⟨c, o.1, o.2, rfl, by simpa using hr, mapError_ok.1 h₁, h⟩

/-- The step in which a device handles a message. -/
theorem net_recv (h : NetStep n s (.recv x env) s') : ∃ c m queue r err, s.client x = some c ∧
    c.dev.realized = true ∧ c.queue = m :: queue ∧
    processMsg (c.ctx s.shm) m.value m.fd env = .ok (r, err) ∧
    s.finish { c with queue := queue } r = .ok s' := by
  unfold NetStep Net.next at h
  dsimp only at h
  cases hc : s.client x with
  | none => rw [hc] at h; cases h
  | some c =>
    rw [hc] at h
    dsimp only at h
    cases hr : c.dev.realized with
    | false => rw [hr] at h; cases h
    | true =>
      cases hq : c.queue with
      | nil => rw [hr, hq] at h; cases h
      | cons m queue =>
        rw [hr, hq] at h
        obtain ⟨r, h₁, h⟩ := bind_ok.1 h
        exact ⟨c, m, queue, r.1, r.2, rfl, hr, hq, mapError_ok.1 h₁, h⟩

/-- The step in which a device looks at one of its notifiers. -/
theorem net_notify {vector : ℕ} (h : NetStep n s (.notify x vector) s') : ∃ c fd r,
    s.client x = some c ∧ vectorNotifier (c.ctx s.shm) vector = .ok fd ∧
    ivshmemVectorNotify (c.ctx s.shm) vector (fd.any s.pending) = .ok r ∧
    (s.testAndClear fd).finish c r = .ok s' := by
  unfold NetStep Net.next at h
  dsimp only at h
  cases hc : s.client x with
  | none => rw [hc] at h; cases h
  | some c =>
    rw [hc] at h
    obtain ⟨fd, h₁, h⟩ := bind_ok.1 h
    obtain ⟨r, h₂, h⟩ := bind_ok.1 h
    exact ⟨c, fd, r, rfl, mapError_ok.1 h₁, mapError_ok.1 h₂, h⟩

end

/-! ## What the handlers do -/

section
variable {n : ℕ} {x : Vm} {c c' : Ctx x} {env : Env}

theorem IVShmemState.notifier_ok {d : IVShmemState x} {i : ℤ} {k : ℕ} {o : Option Fd}
    (h : d.notifier i k = .ok o) : (d.peer i.toNat).eventfds[k]? = some o := by
  unfold IVShmemState.notifier at h
  by_cases hi : 0 ≤ i
  · rw [if_pos hi] at h
    cases hp : d.peers[i.toNat]? with
    | none => rw [hp] at h; cases h
    | some p =>
      obtain ⟨-, rfl⟩ := getElem?_peers hp
      rw [hp] at h
      dsimp only at h
      split_ifs at h
      cases hk : (d.peer i.toNat).eventfds[k]? with
      | none => rw [hk] at h; cases h
      | some fd =>
        rw [hk] at h
        cases h
        rfl
  · rw [if_neg hi] at h
    cases h

theorem realizeRegs_id (c : Ctx x) (y : Vm) : ((realizeRegs c).shm.vm y).id = (c.shm.vm y).id := by
  unfold realizeRegs
  dsimp only
  split_ifs <;> simp [Ctx.setBar, Ctx.modRegs, Ctx.modGregs, modVm_id]

/-- Set-up takes what the server sends first, and no more. -/
theorem ivshmemRecvSetup_hello {id : ℕ} {queue rest : List Msg} (hbar : c.dev.ivshmemBar2 = none)
    (h : ivshmemRecvSetup c env (hello id ++ queue) = .ok (.ok (c', rest))) :
    rest = queue ∧ c' = c.modDev fun d => { d with vmId := id, ivshmemBar2 := some ⟨0, 0⟩ } := by
  simp only [hello, List.cons_append, List.nil_append, ivshmemRecvSetup] at h
  rw [if_neg (by decide), if_neg (by decide)] at h
  split_ifs at h
  · cases h
  unfold recvUntilShmem at h
  obtain ⟨⟨c₁, err⟩, h₁, h⟩ := bind_ok.1 h
  rw [processMsg_shmem] at h₁
  unfold processMsgShmem at h₁
  rw [if_neg (by simp [Ctx.modDev, hbar])] at h₁
  -- the descriptor is there, and a call that fails ends the set-up
  split_ifs at h₁ <;> cases h₁
  · cases h
  · cases h
  · cases h
    exact ⟨rfl, rfl⟩

theorem ivshmemCommonRealize_hello {shm : IdtIvshmemShmStorage} {id : ℕ} {queue rest : List Msg}
    (h : ivshmemCommonRealize ⟨shm, .init x n (fun _ => default) 0, []⟩ false env
      (hello id ++ queue) = .ok (.ok (c, rest))) :
    rest = queue ∧ c.dev.vmId = id ∧ c.dev.vectors = n ∧ (∀ i, c.dev.peer i = .empty n) ∧
      ∀ y, (c.shm.vm y).id = (shm.vm y).id := by
  obtain ⟨c₁, h₁, h⟩ := bind_ok.1 h
  obtain ⟨-, -, hpeer, ps, rfl⟩ := resizePeers_spec h₁
  obtain ⟨r, h₂, h⟩ := bind_ok.1 h
  cases r with
  | error err => cases h
  | ok r =>
    obtain ⟨c₂, rest₂⟩ := r
    obtain ⟨rfl, rfl⟩ := ivshmemRecvSetup_hello rfl h₂
    simp only [Bool.false_eq_true, false_and, if_false, pure, Except.pure, Except.ok.injEq,
      Prod.mk.injEq] at h
    obtain ⟨rfl, rfl⟩ := h
    have hdev := (realizeRegs_frame (ivshmemSetupInterrupts (Ctx.modDev (Ctx.modDev
      (⟨shm, .init x n (fun _ => default) 0, []⟩ : Ctx x) fun d => { d with peers := ps })
      fun d => { d with vmId := id, ivshmemBar2 := some ⟨0, 0⟩ }))).1
    refine ⟨rfl, by rw [hdev]; rfl, by rw [hdev]; rfl, fun i => ?_, fun y => realizeRegs_id _ y⟩
    rw [hdev]
    exact hpeer i

/-- With eventfds the own notifiers are complete when the id is announced, and stay so. -/
theorem connected_own_iff {m : Msg} {err : Option MsgError} (he : env.msiViaIrqfd = false)
    (h : processMsg c m.value m.fd env = .ok (c', err)) : Connected c'.dev c.dev.vmId ↔
      Inits c.dev m.value m.fd env ∨ Connected c.dev c.dev.vmId := by
  constructor
  · intro hconn
    by_cases hold : Connected c.dev c.dev.vmId
    · exact Or.inr hold
    left
    obtain ⟨hpeer, -, -, -⟩ := processMsg_spec h
    have hid : 0 ≤ c.dev.vmId := by
      by_contra hneg
      unfold Connected IVShmemState.nbEventfds at hconn
      rw [if_neg hneg] at hconn
      exact Nat.not_lt_zero _ hconn
    obtain ⟨i, hi⟩ := Int.eq_ofNat_of_zero_le hid
    unfold Connected at hconn hold
    rw [hi, IVShmemState.nbEventfds_natCast] at hconn hold
    rw [hpeer] at hconn
    by_cases hm : m.value = i ∧ (i : ℤ) ≤ ivshmemMaxPeers
    · obtain ⟨hm, hmax⟩ := hm
      rw [hm] at hconn
      cases hfd : m.fd with
      | none =>
        rw [hfd, entryAfter_disconnect hmax, if_pos hi.symm] at hconn
        exact absurd hconn hold
      | some fd =>
        rw [hfd, entryAfter_connect hmax] at hconn
        by_cases hfull : c.dev.vectors ≤ (c.dev.peer i).nbEventfds
        · rw [if_pos hfull] at hconn
          exact absurd hconn hold
        · -- the second notifier is the one that this message brings
          rw [if_neg hfull] at hconn
          have hlt : 1 < (c.dev.peer i).nbEventfds + 1 := hconn
          have hge : ¬ 1 < (c.dev.peer i).nbEventfds := hold
          refine ⟨rfl, hm.trans hi.symm, hm ▸ hmax, ?_, by omega,
            fun hroute => Bool.false_ne_true (he.symm.trans hroute.1)⟩
          rw [hm, IVShmemState.nbEventfds_natCast]
          omega
    · have hkeep : entryAfter c.dev m.value m.fd i = c.dev.peer i := by
        by_cases hv : m.value = i
        · rw [hv]
          exact entryAfter_of_not_peer (Or.inr (Int.not_le.1 fun hmax => hm ⟨hv, hmax⟩))
        · exact entryAfter_of_ne hv
      rw [hkeep] at hconn
      exact absurd hconn hold
  · rintro (hi | hconn)
    · exact connected_own h hi
    · exact hconn.message h fun hd => hd.2.2.2 hd.2.1

end

/-! ## One device and its queue -/

/-- The message is about client `p`. -/
def Msg.about (p : ℕ) (m : Msg) : Bool := m.value = p

@[simp] theorem Msg.about_iff {p : ℕ} {m : Msg} : m.about p = true ↔ m.value = p :=
  decide_eq_true_iff

namespace Client
variable {n : ℕ} {used used' : List ℕ} {x : Vm} {c : Client x} {l : List Msg} {p : ℕ}

/-- The messages that the device has still to handle one by one. -/
def backlog (c : Client x) : List Msg := if c.dev.realized then c.queue else c.queue.drop 3

theorem backlog_realized (hr : c.dev.realized = true) : c.backlog = c.queue := if_pos hr

/-- The own notifiers are connected, up to the second one, with which the id is announced. -/
def Inited (c : Client x) : Prop := Connected c.dev c.id

instance (c : Client x) : Decidable c.Inited := inferInstanceAs (Decidable (Connected _ _))

structure Ok (n : ℕ) (used : List ℕ) (c : Client x) : Prop where
  given : c.id ∈ used
  max : (c.id : ℤ) ≤ ivshmemMaxPeers
  waits : c.dev.realized = false →
    c.dev = .init x n (fun _ => default) 0 ∧ ∃ queue, c.queue = hello c.id ++ queue
  vmId : c.dev.realized = true → c.dev.vmId = c.id
  vectors : c.dev.vectors = n
  table : c.dev.TableOk
  queued : ∀ m ∈ c.backlog, ∃ i ∈ used, m.value = (i : ℤ)
  unknown : ∀ i ∉ used, c.dev.peer i = .empty n

/-- What the table lacks of the notifiers of client `p` is what waits in the queue. -/
structure Feed (n : ℕ) (c : Client x) (p : ℕ) : Prop where
  todo : c.backlog.filter (Msg.about p) = (connects n p).drop (c.dev.peer p).nbEventfds
  slots : ∀ (k : ℕ) (fd : Fd), (c.dev.peer p).eventfds[k]? = some (some fd) → fd = ⟨p, k⟩

theorem mem_connects {m : Msg} {id : ℕ} (h : m ∈ connects n id) : m.value = id := by
  obtain ⟨k, -, rfl⟩ := List.mem_map.1 h
  rfl

/-- What is left of the connects of a client starts with the next one. -/
theorem connects_drop {id k : ℕ} {m : Msg} (h : (connects n id).drop k = m :: l) :
    k < n ∧ m = ⟨id, some ⟨id, k⟩⟩ ∧ l = (connects n id).drop (k + 1) := by
  have hk : k < (connects n id).length := by
    by_contra hge
    rw [List.drop_eq_nil_of_le (Nat.le_of_not_lt hge)] at h
    cases h
  rw [List.drop_eq_getElem_cons hk] at h
  obtain ⟨rfl, rfl⟩ := List.cons.inj h
  refine ⟨by simpa [connects] using hk, by simp [connects], rfl⟩

theorem push_backlog (hok : c.Ok n used) (l : List Msg) : (c.push l).backlog = c.backlog ++ l := by
  unfold backlog
  cases hr : c.dev.realized with
  | true =>
    rw [if_pos (show (c.push l).dev.realized = true from hr), if_pos rfl]
    rfl
  | false =>
    obtain ⟨-, queue, hq⟩ := hok.waits hr
    rw [if_neg (by simp [push, hr]), if_neg (by simp), push, hq]
    rfl

theorem Ok.push (hok : c.Ok n used) (hsub : used ⊆ used')
    (hl : ∀ m ∈ l, ∃ i ∈ used', m.value = (i : ℤ)) : (c.push l).Ok n used' where
  given := hsub hok.given
  max := hok.max
  waits hr := by
    obtain ⟨hdev, queue, hq⟩ := hok.waits hr
    refine ⟨hdev, queue ++ l, ?_⟩
    rw [Client.push, hq, List.append_assoc]
  vmId := hok.vmId
  vectors := hok.vectors
  table := hok.table
  queued m hm := by
    rw [push_backlog hok] at hm
    rcases List.mem_append.1 hm with hm | hm
    · obtain ⟨i, hi, hv⟩ := hok.queued m hm
      exact ⟨i, hsub hi, hv⟩
    · exact hl m hm
  unknown i hi := hok.unknown i fun h => hi (hsub h)

/-- Messages about other clients wait behind. -/
theorem Feed.push (hok : c.Ok n used) (hf : c.Feed n p) (hl : ∀ m ∈ l, m.value ≠ p) :
    (c.push l).Feed n p where
  todo := by
    have hnil : l.filter (Msg.about p) = [] := by
      rw [List.filter_eq_nil_iff]
      intro m hm
      simpa using hl m hm
    rw [push_backlog hok, List.filter_append, hnil, List.append_nil]
    exact hf.todo
  slots := hf.slots

theorem filter_connects (n p : ℕ) : (connects n p).filter (Msg.about p) = connects n p := by
  rw [List.filter_eq_self]
  intro m hm
  simpa using mem_connects hm

/-- The connects of a client that was never heard of. -/
theorem feed_new (hok : c.Ok n used) (hp : p ∉ used) : (c.push (connects n p)).Feed n p where
  todo := by
    have hnil : c.backlog.filter (Msg.about p) = [] := by
      rw [List.filter_eq_nil_iff]
      intro m hm
      obtain ⟨i, hi, hv⟩ := hok.queued m hm
      simp only [Msg.about_iff, hv, Nat.cast_inj]
      rintro rfl
      exact hp hi
    have hent : (c.push (connects n p)).dev.peer p = .empty n := hok.unknown p hp
    rw [push_backlog hok, List.filter_append, hnil, List.nil_append, filter_connects, hent]
    rfl
  slots k fd h := by
    have hent : (c.push (connects n p)).dev.peer p = .empty n := hok.unknown p hp
    rw [hent] at h
    simp [Peer.empty, List.getElem?_replicate] at h

theorem peer_init (i : ℕ) : (IVShmemState.init x n (fun _ => default) 0).peer i = .empty n := rfl

theorem ok_fresh {id : ℕ} (hused : id ∈ used) (hmax : (id : ℤ) ≤ ivshmemMaxPeers)
    (hl : ∀ m ∈ l, ∃ i ∈ used, m.value = (i : ℤ)) : (fresh x n id l).Ok n used where
  given := hused
  max := hmax
  waits _ := ⟨rfl, l, rfl⟩
  vmId := nofun
  vectors := rfl
  table i := by
    show ((IVShmemState.init x n (fun _ => default) 0).peer i).Ok n
    rw [peer_init]
    exact Peer.ok_empty
  queued := hl
  unknown i _ := peer_init i

theorem feed_fresh {id : ℕ} (hl : l.filter (Msg.about p) = connects n p) :
    (fresh x n id l).Feed n p where
  todo := hl
  slots k fd h := by
    have h' : (Peer.empty n).eventfds[k]? = some (some fd) := h
    simp [Peer.empty, List.getElem?_replicate] at h'

/-! ### Handlers -/

variable {shm : IdtIvshmemShmStorage} {m : Msg} {queue : List Msg} {r : Ctx x} {env : Env}
  {err : Option MsgError}

theorem ok_recv (hok : c.Ok n used) (hr : c.dev.realized = true) (hq : c.queue = m :: queue)
    (h : processMsg (c.ctx shm) m.value m.fd env = .ok (r, err)) :
    ({ c with dev := r.dev, queue := queue } : Client x).Ok n used := by
  obtain ⟨hpeer, hframe, -, -⟩ := processMsg_spec h
  have hr' : r.dev.realized = true := hframe.realized.trans hr
  have hback : c.backlog = m :: queue := (backlog_realized hr).trans hq
  refine ⟨hok.given, hok.max, ?_, ?_, hframe.vectors.trans hok.vectors,
    processMsg_tableOk h hok.table, ?_, ?_⟩
  · intro hf
    have hf' : r.dev.realized = false := hf
    rw [hr'] at hf'
    cases hf'
  · intro _
    exact hframe.vmId.trans (hok.vmId hr)
  · intro m' hm'
    rw [backlog_realized hr'] at hm'
    exact hok.queued m' (by rw [hback]; exact List.mem_cons_of_mem m hm')
  · intro i hi
    obtain ⟨j, hj, hv⟩ := hok.queued m (by rw [hback]; exact List.mem_cons_self)
    have hne : m.value ≠ (i : ℕ) := by
      rw [hv]
      intro h1
      exact hi (Nat.cast_inj.1 h1 ▸ hj)
    show r.dev.peer i = _
    rw [hpeer, entryAfter_of_ne hne]
    exact hok.unknown i hi

/-- Handling a message moves a notifier from the queue to the table. -/
theorem feed_recv (hok : c.Ok n used) (hr : c.dev.realized = true) (hq : c.queue = m :: queue)
    (h : processMsg (c.ctx shm) m.value m.fd env = .ok (r, err))
    (hp : (p : ℤ) ≤ ivshmemMaxPeers) (hf : c.Feed n p) :
    ({ c with dev := r.dev, queue := queue } : Client x).Feed n p := by
  obtain ⟨hpeer, hframe, -, -⟩ := processMsg_spec h
  have hr' : r.dev.realized = true := hframe.realized.trans hr
  have hback : c.backlog = m :: queue := (backlog_realized hr).trans hq
  have hback' : ({ c with dev := r.dev, queue := queue } : Client x).backlog = queue :=
    backlog_realized hr'
  have htodo := hf.todo
  rw [hback] at htodo
  by_cases hm : m.value = p
  · rw [List.filter_cons_of_pos (by simpa using hm)] at htodo
    obtain ⟨hlt, rfl, hrest⟩ := connects_drop htodo.symm
    have hfull : ¬ c.dev.vectors ≤ (c.dev.peer p).nbEventfds := by
      rw [hok.vectors]
      omega
    have hent : r.dev.peer p = (c.dev.peer p).connect ⟨p, (c.dev.peer p).nbEventfds⟩ := by
      rw [hpeer, entryAfter_connect hp]
      exact if_neg hfull
    constructor
    · rw [hback', hrest]
      show _ = (connects n p).drop (r.dev.peer p).nbEventfds
      rw [hent]
      rfl
    · intro k fd hk
      have hk' : (r.dev.peer p).eventfds[k]? = some (some fd) := hk
      rw [hent, Peer.connect, List.getElem?_set] at hk'
      by_cases hkn : (c.dev.peer p).nbEventfds = k
      · subst hkn
        simp only [if_true] at hk'
        split_ifs at hk'
        cases hk'
        rfl
      · rw [if_neg hkn] at hk'
        exact hf.slots k fd hk'
  · rw [List.filter_cons_of_neg (by simpa using hm)] at htodo
    have hent : r.dev.peer p = c.dev.peer p := by
      rw [hpeer, entryAfter_of_ne hm]
      rfl
    constructor
    · rw [hback', htodo]
      show _ = (connects n p).drop (r.dev.peer p).nbEventfds
      rw [hent]
    · intro k fd hk
      have hk' : (r.dev.peer p).eventfds[k]? = some (some fd) := hk
      rw [hent] at hk'
      exact hf.slots k fd hk'

end Client

/-! ## The invariant -/

/-- The queues and the tables fit together. -/
structure Net.Ok (n : ℕ) (s : Net) : Prop where
  client : ∀ {x} {c : Client x}, s.client x = some c → c.Ok n s.used
  distinct : ∀ {x y} {c : Client x} {c' : Client y}, s.client x = some c → s.client y = some c' →
    x ≠ y → c.id ≠ c'.id
  feed : ∀ {x y} {c : Client x} {c' : Client y}, s.client x = some c → s.client y = some c' →
    c.Feed n c'.id

/-- A device that has announced its id finds it in its block. -/
structure Net.Announced (s : Net) : Prop where
  blockId : ∀ {x} {c : Client x}, s.client x = some c → c.Inited →
    (s.shm.vm x).id = BitVec.ofInt 32 c.id

section
variable {n : ℕ} {s s' : Net} {x y : Vm} {a : NetAct} {env : Env}

theorem announced_start (shm : IdtIvshmemShmStorage) : (Net.start shm).Announced where
  blockId := nofun

theorem ok_start (n : ℕ) (shm : IdtIvshmemShmStorage) : (Net.start shm).Ok n where
  client := nofun
  distinct := nofun
  feed := nofun

/-- A device that is not realized knows nobody. -/
theorem Client.Ok.not_inited {used : List ℕ} {c : Client x} (hok : c.Ok n used)
    (hr : c.dev.realized = false) : ¬ c.Inited := by
  obtain ⟨hdev, -⟩ := hok.waits hr
  intro hi
  unfold Client.Inited Connected at hi
  rw [hdev, IVShmemState.nbEventfds_natCast, Client.peer_init] at hi
  exact Nat.not_lt_zero _ hi

/-- One device goes on, the other one and the server stay. -/
structure Net.Goes (s s' : Net) {x : Vm} (c c' : Client x) : Prop where
  client : s.client x = some c
  client' : s'.client = update s.client x (some c')
  used : s'.used = s.used
  id : c'.id = c.id

section
variable {c c' : Client x} {d : Client y}

theorem Net.Goes.self (h : s.Goes s' c c') : s'.client x = some c' := by
  rw [h.client', Function.update_self]

theorem Net.Goes.of_ne (h : s.Goes s' c c') (hy : y ≠ x) : s'.client y = s.client y := by
  rw [h.client', Function.update_of_ne hy]

/-- The clients of before are those of now. -/
theorem Net.Goes.back (h : s.Goes s' c c') (hd : s'.client y = some d) :
    ∃ d₀ : Client y, s.client y = some d₀ ∧ d₀.id = d.id := by
  rcases eq_or_ne y x with rfl | hy
  · rw [h.self, Option.some_inj] at hd
    subst hd
    exact ⟨c, h.client, h.id.symm⟩
  · rw [h.of_ne hy] at hd
    exact ⟨d, hd, rfl⟩

theorem Net.Ok.go (hok : s.Ok n) (h : s.Goes s' c c') (hc' : c'.Ok n s.used)
    (hfeed : ∀ p : ℕ, (p : ℤ) ≤ ivshmemMaxPeers → c.Feed n p → c'.Feed n p) : s'.Ok n where
  client := by
    intro y d hd
    rw [h.used]
    rcases eq_or_ne y x with rfl | hy
    · rw [h.self, Option.some_inj] at hd
      exact hd ▸ hc'
    · rw [h.of_ne hy] at hd
      exact hok.client hd
  distinct := by
    intro y z d e hd he hyz
    obtain ⟨d₀, hd₀, hdi⟩ := h.back hd
    obtain ⟨e₀, he₀, hei⟩ := h.back he
    rw [← hdi, ← hei]
    exact hok.distinct hd₀ he₀ hyz
  feed := by
    intro y z d e hd he
    obtain ⟨e₀, he₀, hei⟩ := h.back he
    rw [← hei]
    rcases eq_or_ne y x with rfl | hy
    · rw [h.self, Option.some_inj] at hd
      subst hd
      exact hfeed _ (hok.client he₀).max (hok.feed h.client he₀)
    · rw [h.of_ne hy] at hd
      exact hok.feed hd he₀

theorem Net.Announced.go (han : s.Announced) (h : s.Goes s' c c')
    (hann : c'.Inited → (s'.shm.vm x).id = BitVec.ofInt 32 c.id)
    (hother : (s'.shm.vm x.other).id = (s.shm.vm x.other).id) : s'.Announced where
  blockId := by
    intro y d hd hi
    rcases eq_or_ne y x with rfl | hy
    · rw [h.self, Option.some_inj] at hd
      subst hd
      rw [h.id]
      exact hann hi
    · rw [h.of_ne hy] at hd
      obtain rfl := Vm.eq_other_of_ne hy
      exact hother.trans (han.blockId hd hi)

end

/-! ### Devices come and go -/

/-- The clients after a device has joined. -/
theorem client_join {id : ℕ} (h : NetStep n s (.join x id) s') {d : Client y}
    (hd : s'.client y = some d) :
    (∃ hx : y = x, d = hx ▸ .fresh x n id (s.present n x.other ++ connects n id)) ∨
      (y = x.other ∧ ∃ d₀, s.client y = some d₀ ∧ d = d₀.push (connects n id)) := by
  obtain ⟨-, -, -, rfl⟩ := net_join h
  dsimp only at hd
  rcases eq_or_ne y x with rfl | hy
  · rw [Function.update_self, Option.some_inj] at hd
    exact Or.inl ⟨rfl, hd.symm⟩
  · rw [Function.update_of_ne hy, Option.map_eq_some_iff] at hd
    obtain ⟨d₀, hd₀, rfl⟩ := hd
    exact Or.inr ⟨Vm.eq_other_of_ne hy, d₀, hd₀, rfl⟩

/-- The client after a device has left. -/
theorem client_leave (h : NetStep n s (.leave x) s') {d : Client y} (hd : s'.client y = some d) :
    y = x.other ∧ ∃ (c : Client x) (d₀ : Client y), s.client x = some c ∧ s.client y = some d₀ ∧
      d = d₀.push [⟨c.id, none⟩] := by
  obtain ⟨c, hc, rfl⟩ := net_leave h
  dsimp only at hd
  rcases eq_or_ne y x with rfl | hy
  · rw [Function.update_self] at hd
    cases hd
  · rw [Function.update_of_ne hy, Option.map_eq_some_iff] at hd
    obtain ⟨d₀, hd₀, rfl⟩ := hd
    exact ⟨Vm.eq_other_of_ne hy, c, d₀, hc, hd₀, rfl⟩

theorem mem_present {m : Msg} (hm : m ∈ s.present n x) :
    ∃ c, s.client x = some c ∧ m ∈ connects n c.id := by
  unfold Net.present at hm
  cases hc : s.client x with
  | none => rw [hc] at hm; cases hm
  | some c =>
    rw [hc] at hm
    exact ⟨c, rfl, hm⟩

theorem filter_connects_of_ne {p q : ℕ} (h : q ≠ p) : (connects n q).filter (Msg.about p) = [] := by
  rw [List.filter_eq_nil_iff]
  intro m hm
  rw [Msg.about_iff, Client.mem_connects hm]
  exact fun hq => h (Nat.cast_inj.1 hq)

theorem ok_join {id : ℕ} (hok : s.Ok n) (h : NetStep n s (.join x id) s') : s'.Ok n := by
  have hs' := net_join h
  obtain ⟨hnone, hnew, hmax, rfl⟩ := hs'
  have hne : ∀ {y} {d : Client y}, s.client y = some d → d.id ≠ id := by
    rintro y d hd rfl
    exact hnew (hok.client hd).given
  -- what the newcomer is told
  have hpres : ∀ p : ℕ, (p = id ∨ ∃ d, s.client x.other = some d ∧ d.id = p) →
      (s.present n x.other ++ connects n id).filter (Msg.about p) = connects n p := by
    intro p hp
    rw [List.filter_append]
    cases hc : s.client x.other with
    | none =>
      have hid : p = id := by
        rcases hp with rfl | ⟨d, hd, -⟩
        · rfl
        · rw [hc] at hd
          cases hd
      subst hid
      rw [Net.present, hc, Client.filter_connects]
      rfl
    | some d =>
      rw [Net.present, hc]
      dsimp only
      rcases hp with rfl | ⟨d', hd, rfl⟩
      · rw [filter_connects_of_ne (hne hc), Client.filter_connects, List.nil_append]
      · rw [hc, Option.some_inj] at hd
        subst hd
        rw [filter_connects_of_ne (hne hc).symm, Client.filter_connects, List.append_nil]
  refine ⟨?_, ?_, ?_⟩
  · intro y d hd
    rcases client_join h hd with ⟨rfl, rfl⟩ | ⟨-, d₀, hd₀, rfl⟩
    · refine Client.ok_fresh List.mem_cons_self hmax ?_
      intro m hm
      rcases List.mem_append.1 hm with hm | hm
      · obtain ⟨c, hc, hm⟩ := mem_present hm
        exact ⟨c.id, List.mem_cons_of_mem _ (hok.client hc).given, Client.mem_connects hm⟩
      · exact ⟨id, List.mem_cons_self, Client.mem_connects hm⟩
    · refine (hok.client hd₀).push (List.subset_cons_self _ _) ?_
      intro m hm
      exact ⟨id, List.mem_cons_self, Client.mem_connects hm⟩
  · intro y z d e hd he hyz
    rcases client_join h hd with ⟨rfl, rfl⟩ | ⟨hy, d₀, hd₀, rfl⟩
    · rcases client_join h he with ⟨rfl, rfl⟩ | ⟨-, e₀, he₀, rfl⟩
      · exact absurd rfl hyz
      · exact (hne he₀).symm
    · rcases client_join h he with ⟨rfl, rfl⟩ | ⟨hz, e₀, he₀, rfl⟩
      · have hid := hne hd₀
        exact hid
      · exact absurd (hy.trans hz.symm) hyz
  · intro y z d e hd he
    rcases client_join h hd with ⟨rfl, rfl⟩ | ⟨hy, d₀, hd₀, rfl⟩
    · refine Client.feed_fresh (hpres _ ?_)
      rcases client_join h he with ⟨rfl, rfl⟩ | ⟨rfl, e₀, he₀, rfl⟩
      · exact Or.inl rfl
      · exact Or.inr ⟨e₀, he₀, rfl⟩
    · rcases client_join h he with ⟨rfl, rfl⟩ | ⟨hz, e₀, he₀, rfl⟩
      · exact Client.feed_new (hok.client hd₀) hnew
      · have hf := hok.feed hd₀ he₀
        refine Client.Feed.push (hok.client hd₀) hf ?_
        intro m hm
        rw [Client.mem_connects hm]
        exact fun hq => hne he₀ (Nat.cast_inj.1 hq).symm

theorem announced_join {id : ℕ} (han : s.Announced) (h : NetStep n s (.join x id) s') :
    s'.Announced where
  blockId := by
    intro y d hd hi
    have hs' := net_join h
    obtain ⟨-, -, -, rfl⟩ := hs'
    rcases client_join h hd with ⟨rfl, rfl⟩ | ⟨-, d₀, hd₀, rfl⟩
    · exact absurd hi (Nat.not_lt_zero _)
    · have hann := han.blockId hd₀ hi
      exact hann

theorem announced_leave (han : s.Announced) (h : NetStep n s (.leave x) s') : s'.Announced where
  blockId := by
    intro y d hd hi
    have hs' := net_leave h
    obtain ⟨c, hc, rfl⟩ := hs'
    obtain ⟨-, c', d₀, -, hd₀, rfl⟩ := client_leave h hd
    have hann := han.blockId hd₀ hi
    exact hann

theorem ok_leave (hok : s.Ok n) (h : NetStep n s (.leave x) s') : s'.Ok n := by
  have hs' := net_leave h
  obtain ⟨c, hc, rfl⟩ := hs'
  refine ⟨?_, ?_, ?_⟩
  · intro y d hd
    obtain ⟨-, c', d₀, hc', hd₀, rfl⟩ := client_leave h hd
    refine (hok.client hd₀).push (List.Subset.refl _) ?_
    intro m hm
    rw [List.mem_singleton] at hm
    subst hm
    exact ⟨c'.id, (hok.client hc').given, rfl⟩
  · intro y z d e hd he hyz
    obtain ⟨hy, -⟩ := client_leave h hd
    obtain ⟨hz, -⟩ := client_leave h he
    exact absurd (hy.trans hz.symm) hyz
  · intro y z d e hd he
    obtain ⟨-, c', d₀, hc', hd₀, rfl⟩ := client_leave h hd
    obtain ⟨hz, -, e₀, -, he₀, rfl⟩ := client_leave h he
    have hf := hok.feed hd₀ he₀
    refine Client.Feed.push (hok.client hd₀) hf ?_
    intro m hm
    rw [List.mem_singleton] at hm
    subst hm
    intro hq
    have hne : x ≠ z := by
      rw [hz]
      exact Vm.ne_other x
    exact hok.distinct hc' he₀ hne (Nat.cast_inj.1 hq)

/-! ### One device goes on -/

/-- Other events stay pending. -/
theorem Net.testAndClear_of_notMem {fd : Option Fd} {f : Fd} (h : f ∉ fd) :
    (s.testAndClear fd).pending f = s.pending f := by
  cases fd with
  | none => rfl
  | some g =>
    show update s.pending g false f = s.pending f
    rw [Function.update_of_ne]
    rintro rfl
    exact h rfl

theorem Net.finish_goes {c : Client x} {queue : List Msg} {r : Ctx x} (hc : s.client x = some c)
    (h : s.finish { c with queue := queue } r = .ok s') :
    s.Goes s' c { c with dev := r.dev, queue := queue } ∧ s'.shm = r.shm ∧
      r.out.foldlM (deliver r.dev) s.pending = .ok s'.pending := by
  obtain ⟨pending, hp, rfl⟩ := Net.finish_ok h
  exact ⟨⟨hc, rfl, rfl, rfl⟩, rfl, hp⟩

/-- Realize leaves the queue, and nothing is known yet. -/
theorem goes_realize (hok : s.Ok n) (h : NetStep n s (.realize x env) s') :
    ∃ (c c' : Client x), s.Goes s' c c' ∧ c.dev.realized = false ∧ c'.dev.realized = true ∧
      c'.backlog = c.backlog ∧ c'.dev.vmId = c.id ∧ c'.dev.vectors = n ∧
      (∀ i, c'.dev.peer i = .empty n ∧ c.dev.peer i = .empty n) ∧
      (∀ y, (s'.shm.vm y).id = (s.shm.vm y).id) ∧ s'.pending = s.pending := by
  obtain ⟨c, r, rest, hc, hr, hrz, hf⟩ := net_realize h
  obtain ⟨hgoes, hshm, hpend⟩ := Net.finish_goes hc hf
  obtain ⟨hdev, queue, hq⟩ := (hok.client hc).waits hr
  have hctx : c.ctx s.shm = ⟨s.shm, .init x n (fun _ => default) 0, []⟩ := by
    rw [Client.ctx, hdev]
  rw [hctx, hq] at hrz
  have hreal := realized_of_realize hrz
  obtain ⟨rfl, hid, hvec, hpeer, hids⟩ := ivshmemCommonRealize_hello hrz
  refine ⟨c, _, hgoes, hr, hreal.realized, ?_, hid, hvec, fun i => ⟨hpeer i, ?_⟩, ?_, ?_⟩
  · unfold Client.backlog
    rw [if_pos (show r.dev.realized = true from hreal.realized), if_neg (by simp [hr]), hq]
    rfl
  · rw [hdev]
    exact Client.peer_init i
  · intro y
    rw [hshm]
    exact hids y
  · have hsig : r.out.filterMap Effect.signal? = [] := hreal.signals
    rw [foldlM_deliver, hsig] at hpend
    exact (Except.ok.inj hpend).symm

theorem ok_realize (hok : s.Ok n) (h : NetStep n s (.realize x env) s') : s'.Ok n := by
  obtain ⟨c, c', hgoes, hr, hr', hback, hid, hvec, hpeer, -⟩ := goes_realize hok h
  have hcok := hok.client hgoes.client
  refine hok.go hgoes ?_ ?_
  · refine ⟨?_, ?_, ?_, ?_, hvec, ?_, ?_, ?_⟩
    · rw [hgoes.id]
      exact hcok.given
    · rw [hgoes.id]
      exact hcok.max
    · rw [hr']
      nofun
    · intro _
      rw [hid, hgoes.id]
    · intro i
      rw [(hpeer i).1, hvec]
      exact Peer.ok_empty
    · rw [hback]
      exact hcok.queued
    · exact fun i _ => (hpeer i).1
  · intro p _ hf
    constructor
    · rw [hback, (hpeer p).1, ← (hpeer p).2]
      exact hf.todo
    · intro k fd hk
      rw [(hpeer p).1, ← (hpeer p).2] at hk
      exact hf.slots k fd hk

theorem announced_realize (hok : s.Ok n) (han : s.Announced)
    (h : NetStep n s (.realize x env) s') : s'.Announced := by
  obtain ⟨c, c', hgoes, -, -, -, -, -, hpeer, hids, -⟩ := goes_realize hok h
  refine han.go hgoes (fun hi => ?_) (hids _)
  unfold Client.Inited Connected at hi
  rw [IVShmemState.nbEventfds_natCast, (hpeer _).1] at hi
  exact absurd hi (Nat.not_lt_zero _)

/-- A message is taken from the queue, and perhaps the id is announced. -/
theorem goes_recv (h : NetStep n s (.recv x env) s') :
    ∃ (c c' : Client x) (m : Msg) (queue : List Msg) (r : Ctx x) (err : Option MsgError),
      s.Goes s' c c' ∧ c.dev.realized = true ∧ c.queue = m :: queue ∧
      processMsg (c.ctx s.shm) m.value m.fd env = .ok (r, err) ∧
      c' = { c with dev := r.dev, queue := queue } ∧ s'.shm = r.shm ∧
      r.out.foldlM (deliver r.dev) s.pending = .ok s'.pending := by
  obtain ⟨c, m, queue, r, err, hc, hr, hq, hm, hf⟩ := net_recv h
  obtain ⟨hgoes, hshm, hpend⟩ := Net.finish_goes hc hf
  exact ⟨c, _, m, queue, r, err, hgoes, hr, hq, hm, rfl, hshm, hpend⟩

theorem ok_recv (hok : s.Ok n) (h : NetStep n s (.recv x env) s') : s'.Ok n := by
  obtain ⟨c, c', m, queue, r, err, hgoes, hr, hq, hm, rfl, -, -⟩ := goes_recv h
  have hcok := hok.client hgoes.client
  exact hok.go hgoes (Client.ok_recv hcok hr hq hm)
    fun p hp hf => Client.feed_recv hcok hr hq hm hp hf

theorem announced_recv (hok : s.Ok n) (han : s.Announced) (he : env.msiViaIrqfd = false)
    (h : NetStep n s (.recv x env) s') : s'.Announced := by
  obtain ⟨c, c', m, queue, r, err, hgoes, hr, hq, hm, rfl, hshm, -⟩ := goes_recv h
  have hid : c.dev.vmId = c.id := (hok.client hgoes.client).vmId hr
  obtain ⟨-, -, hlearns, -⟩ := processMsg_spec hm
  refine han.go hgoes ?_ ?_
  · intro hi
    have hi' : Connected r.dev c.dev.vmId := by
      rw [hid]
      exact hi
    rw [hshm]
    rcases hlearns with ⟨-, hann⟩ | ⟨hn, hsil⟩
    · rw [hann.shm, IdtIvshmemShmStorage.modVm_self]
      show BitVec.ofInt 32 c.dev.vmId = _
      rw [hid]
    · rcases (connected_own_iff he hm).1 hi' with hin | hold
      · exact absurd hin hn
      · rw [hsil.shm]
        refine han.blockId hgoes.client ?_
        unfold Client.Inited
        rw [← hid]
        exact hold
  · rw [hshm]
    rcases hlearns with ⟨-, hann⟩ | ⟨-, hsil⟩
    · rw [hann.shm, IdtIvshmemShmStorage.modVm_other]
      rfl
    · rw [hsil.shm]
      rfl

/-- A device looks at one of its own notifiers. -/
theorem goes_notify {vector : ℕ} (hok : s.Ok n) (h : NetStep n s (.notify x vector) s') :
    ∃ (c c' : Client x) (fd : Option Fd), s.Goes s' c c' ∧ c.dev.realized = true ∧
      (∀ f ∈ fd, f = ⟨c.id, vector⟩) ∧ s'.shm = s.shm ∧
      s'.pending = (s.testAndClear fd).pending ∧
      c' = { c with dev := { c.dev with
        otherVmId := if fd.any s.pending = true ∧ vector = eventfdVmId
          then (s.shm.vm x.other).id.toInt else c.dev.otherVmId } } := by
  obtain ⟨c, fd, r, hc, hfd, hv, hf⟩ := net_notify h
  obtain ⟨hshm, hsig, hdev⟩ := ivshmemVectorNotify_spec hv
  obtain ⟨e, he, hfd⟩ := bind_ok.1 hfd
  have hr : c.dev.realized = true := by
    by_contra hr
    obtain ⟨hinit, -⟩ := (hok.client hc).waits (by simpa using hr)
    unfold msiVector Client.ctx at he
    rw [hinit] at he
    cases he
  have hfd' : c.dev.notifier c.dev.vmId vector = .ok fd := by
    split_ifs at hfd
    exact hfd
  have hc' : (s.testAndClear fd).client x = some c := by
    cases fd <;> exact hc
  obtain ⟨hgoes, hshm', hpend⟩ := Net.finish_goes hc'
    (show (s.testAndClear fd).finish { c with queue := c.queue } r = .ok s' from hf)
  have hsig' : r.out.filterMap Effect.signal? = [] := hsig
  rw [foldlM_deliver, hsig'] at hpend
  have hslot : ∀ f ∈ fd, f = ⟨c.id, vector⟩ := by
    rintro f rfl
    have hown := IVShmemState.notifier_ok hfd'
    rw [(hok.client hc).vmId hr, Int.toNat_natCast] at hown
    exact (hok.feed hc hc).slots _ _ hown
  refine ⟨c, { c with dev := r.dev }, fd, ⟨hc, ?_, ?_, rfl⟩, hr, hslot, hshm'.trans hshm, ?_, ?_⟩
  · rw [hgoes.client']
    cases fd <;> rfl
  · rw [hgoes.used]
    cases fd <;> rfl
  · exact (Except.ok.inj hpend).symm
  · rw [hdev]
    rfl

theorem ok_notify {vector : ℕ} (hok : s.Ok n) (h : NetStep n s (.notify x vector) s') :
    s'.Ok n := by
  obtain ⟨c, c', fd, hgoes, hr, -, -, -, rfl⟩ := goes_notify hok h
  have hcok := hok.client hgoes.client
  refine hok.go hgoes ?_ ?_
  · refine ⟨hcok.given, hcok.max, fun hf => ?_, hcok.vmId, hcok.vectors, hcok.table, hcok.queued,
      hcok.unknown⟩
    exact absurd (hr.symm.trans hf) (by decide)
  · intro p _ hf
    exact ⟨hf.todo, hf.slots⟩

theorem announced_notify {vector : ℕ} (hok : s.Ok n) (han : s.Announced)
    (h : NetStep n s (.notify x vector) s') : s'.Announced := by
  obtain ⟨c, c', fd, hgoes, -, -, hshm, -, rfl⟩ := goes_notify hok h
  refine han.go hgoes (fun hi => ?_) (by rw [hshm])
  rw [hshm]
  exact han.blockId hgoes.client hi

/-- **One step.** -/
theorem ok_step (hok : s.Ok n) (h : NetStep n s a s') : s'.Ok n := by
  cases a with
  | join x id => exact ok_join hok h
  | leave x => exact ok_leave hok h
  | realize x env => exact ok_realize hok h
  | recv x env => exact ok_recv hok h
  | notify x vector => exact ok_notify hok h

/-- **In eventfd mode** an id that is complete is in the shared memory. -/
theorem announced_step (hok : s.Ok n) (han : s.Announced) (he : a.Eventfd) (h : NetStep n s a s') :
    s'.Announced := by
  cases a with
  | join x id => exact announced_join han h
  | leave x => exact announced_leave han h
  | realize x env => exact announced_realize hok han h
  | recv x env => exact announced_recv hok han he h
  | notify x vector => exact announced_notify hok han h

/-- **Every run** keeps the queues and the tables together. -/
theorem ok_run {shm : IdtIvshmemShmStorage} {t : List (Net × NetAct)}
    (h : Run (NetStep n) (Net.start shm) t s) : s.Ok n :=
  h.inv (Net.Ok n) (ok_start n shm) fun _ _ _ hok hst => ok_step hok hst

theorem announced_run {shm : IdtIvshmemShmStorage} {t : List (Net × NetAct)}
    (h : Run (NetStep n) (Net.start shm) t s) (he : ∀ e ∈ t, e.2.Eventfd) : s.Announced := by
  refine (h.inv_of (fun s => s.Ok n ∧ s.Announced) (fun e => e.2.Eventfd)
    ⟨ok_start n shm, announced_start shm⟩ ?_ he).2
  rintro s a s' ⟨hok, han⟩ he hst
  exact ⟨ok_step hok hst, announced_step hok han he hst⟩

end

end IdtNtb
