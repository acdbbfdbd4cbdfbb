/-
  The peer table and the devices that are there.

  The server tells a device of the others one message at a time, and the device
  works its messages off in its own time.  Meanwhile others join and leave, so
  its table can be behind, but no update is lost or comes twice:

  * `Client.Feed` says it of the clients that are there: the rest of their
    connects waits;
  * `Client.Forgets` says it of all others: the rest of their connects and then
    the disconnect waits, or there is nothing left of them; `forgets_step` proves
    it for every step;
  * `table_current`: so what waits is always what the table lacks, and a device
    that has no message left holds exactly the notifiers of the devices that are
    there, each in its slot;
  * `bridge_numbered`: at any time a slot that is filled holds the notifier of its
    own vector, as `Isolation` asks of the tables.
-/
import IdtNtb.Heard
import IdtNtb.Isolation

namespace IdtNtb

open Runs

/-! ## Devices that are not there -/

/-- A device with this id is there. -/
def Net.Member (s : Net) (i : ℕ) : Prop := ∃ y, ∃ d : Client y, s.client y = some d ∧ d.id = i

/-- Each notifier of the entry is in its slot. -/
def Peer.Holds (p : Peer) (i : ℕ) : Prop :=
  ∀ (k : ℕ) (fd : Fd), p.eventfds[k]? = some (some fd) → fd = ⟨i, k⟩

/-- Nothing is left of client `i`, or the rest of its connects waits, and then its disconnect. -/
structure Client.Forgets (n : ℕ) {x : Vm} (c : Client x) (i : ℕ) : Prop where
  todo : (c.backlog.filter (Msg.about i) = [] ∧ (c.dev.peer i).nbEventfds = 0) ∨
    ((i : ℤ) ≤ ivshmemMaxPeers ∧ c.backlog.filter (Msg.about i) =
      (connects n i).drop (c.dev.peer i).nbEventfds ++ [⟨i, none⟩])
  slots : (c.dev.peer i).Holds i

/-- The devices forget who is not there. -/
def Net.Forgets (n : ℕ) (s : Net) : Prop :=
  ∀ x, ∀ c ∈ s.client x, ∀ i, ¬ s.Member i → c.Forgets n i

/-! ### One entry -/

section
variable {n i : ℕ} {p : Peer}

theorem Peer.holds_empty : (Peer.empty n).Holds i := by
  intro k fd h
  simp [Peer.empty, List.getElem?_replicate] at h

theorem Peer.Holds.connect (h : p.Holds i) : (p.connect ⟨i, p.nbEventfds⟩).Holds i := by
  intro k fd hk
  rw [Peer.connect, List.getElem?_set] at hk
  by_cases hkn : p.nbEventfds = k
  · subst hkn
    simp only [if_true] at hk
    split_ifs at hk
    cases hk
    rfl
  · rw [if_neg hkn] at hk
    exact h k fd hk

theorem Peer.Holds.close (h : p.Holds i) : p.close.Holds i := by
  intro k fd hk
  simp only [Peer.close, List.getElem?_mapIdx, Option.map_eq_some_iff] at hk
  obtain ⟨o, ho, hk⟩ := hk
  split_ifs at hk
  subst hk
  exact h k fd ho

end

section
variable {n i : ℕ} {s s' : Net} {x y : Vm} {a : NetAct} {used : List ℕ}

theorem forgets_start (shm : IdtIvshmemShmStorage) : (Net.start shm).Forgets n := nofun

/-- Messages about others change nothing. -/
theorem Client.Forgets.push {c : Client x} (h : c.Forgets n i) (hok : c.Ok n used) {l : List Msg}
    (hl : ∀ m ∈ l, m.value ≠ i) : (c.push l).Forgets n i where
  todo := by
    have hnil : l.filter (Msg.about i) = [] := by
      rw [List.filter_eq_nil_iff]
      intro m hm
      simpa using hl m hm
    rw [Client.push_backlog hok, List.filter_append, hnil, List.append_nil]
    exact h.todo
  slots := h.slots

/-- The client leaves. -/
theorem Client.Feed.leave {c : Client x} (h : c.Feed n i) (hok : c.Ok n used)
    (hmax : (i : ℤ) ≤ ivshmemMaxPeers) : (c.push [⟨i, none⟩]).Forgets n i where
  todo := by
    refine Or.inr ⟨hmax, ?_⟩
    rw [Client.push_backlog hok, List.filter_append, h.todo,
      List.filter_cons_of_pos (by simp), List.filter_nil]
    rfl
  slots := h.slots

theorem member_join {id : ℕ} (h : NetStep n s (.join x id) s') :
    s'.Member i ↔ i = id ∨ s.Member i := by
  have hs' := net_join h
  obtain ⟨hnone, -, -, rfl⟩ := hs'
  constructor
  · rintro ⟨y, d, hd, rfl⟩
    rcases client_join h hd with ⟨rfl, rfl⟩ | ⟨-, d₀, hd₀, rfl⟩
    · exact Or.inl rfl
    · exact Or.inr ⟨y, d₀, hd₀, rfl⟩
  · rintro (rfl | ⟨y, d, hd, rfl⟩)
    · refine ⟨x, .fresh x n i (s.present n x.other ++ connects n i), ?_, rfl⟩
      dsimp only
      rw [Function.update_self]
    · have hy : y ≠ x := by
        rintro rfl
        rw [hnone] at hd
        cases hd
      refine ⟨y, d.push (connects n id), ?_, rfl⟩
      dsimp only
      rw [Function.update_of_ne hy, hd]
      rfl

theorem member_leave (h : NetStep n s (.leave x) s') {c : Client x} (hc : s.client x = some c)
    (hi : i ≠ c.id) : s'.Member i ↔ s.Member i := by
  have hs' := net_leave h
  obtain ⟨c', hc', rfl⟩ := hs'
  constructor
  · rintro ⟨y, d, hd, rfl⟩
    obtain ⟨-, -, d₀, -, hd₀, rfl⟩ := client_leave h hd
    exact ⟨y, d₀, hd₀, rfl⟩
  · rintro ⟨y, d, hd, rfl⟩
    have hy : y ≠ x := by
      rintro rfl
      rw [hc, Option.some_inj] at hd
      exact hi (congrArg Client.id hd.symm)
    refine ⟨y, d.push [⟨c'.id, none⟩], ?_, rfl⟩
    dsimp only
    rw [Function.update_of_ne hy, hd]
    rfl

theorem Net.Goes.member {c c' : Client x} (h : s.Goes s' c c') : s'.Member i ↔ s.Member i := by
  constructor
  · rintro ⟨y, d, hd, rfl⟩
    obtain ⟨d₀, hd₀, hid⟩ := h.back hd
    exact ⟨y, d₀, hd₀, hid⟩
  · rintro ⟨y, d, hd, rfl⟩
    rcases eq_or_ne y x with rfl | hy
    · rw [h.client, Option.some_inj] at hd
      exact ⟨y, c', h.self, h.id.trans (congrArg Client.id hd)⟩
    · exact ⟨y, d, (h.of_ne hy).trans hd, rfl⟩

/-! ## Every step -/

theorem forgets_join {id : ℕ} (hok : s.Ok n) (hf : s.Forgets n) (h : NetStep n s (.join x id) s') :
    s'.Forgets n := by
  intro y d hd i hi
  rw [member_join h, not_or] at hi
  obtain ⟨hid, hi⟩ := hi
  have hnew : ∀ m ∈ connects n id, m.value ≠ i := by
    intro m hm hv
    rw [Client.mem_connects hm] at hv
    exact hid (Int.natCast_inj.1 hv).symm
  rcases client_join h hd with ⟨rfl, rfl⟩ | ⟨-, d₀, hd₀, rfl⟩
  · -- a newcomer is told of those that are there, and of itself
    refine ⟨Or.inl ⟨?_, rfl⟩, Peer.holds_empty⟩
    rw [List.filter_eq_nil_iff]
    intro m hm
    have hm : m ∈ s.present n y.other ++ connects n id := hm
    rw [Msg.about_iff]
    rcases List.mem_append.1 hm with hm | hm
    · obtain ⟨c, hc, hm⟩ := mem_present hm
      intro hv
      rw [Client.mem_connects hm] at hv
      exact hi ⟨y.other, c, hc, Int.natCast_inj.1 hv⟩
    · exact hnew m hm
  · exact (hf _ d₀ hd₀ i hi).push (hok.client hd₀) hnew

theorem forgets_leave (hok : s.Ok n) (hf : s.Forgets n) (h : NetStep n s (.leave x) s') :
    s'.Forgets n := by
  intro y d hd i hi
  obtain ⟨-, c, d₀, hc, hd₀, rfl⟩ := client_leave h hd
  by_cases hic : i = c.id
  · subst hic
    exact (hok.feed hd₀ hc).leave (hok.client hd₀) (hok.client hc).max
  · rw [member_leave h hc hic] at hi
    refine (hf _ d₀ hd₀ i hi).push (hok.client hd₀) fun m hm hv => ?_
    rw [List.mem_singleton] at hm
    subst hm
    exact hic (Int.natCast_inj.1 hv).symm

/-- One device goes on. -/
theorem Net.Forgets.go {c c' : Client x} (hf : s.Forgets n) (h : s.Goes s' c c')
    (hkeep : ∀ i, ¬ s.Member i → c.Forgets n i → c'.Forgets n i) : s'.Forgets n := by
  intro y d hd i hi
  rw [h.member] at hi
  rcases eq_or_ne y x with rfl | hy
  · obtain rfl : c' = d := Option.some_inj.1 (h.self.symm.trans hd)
    exact hkeep i hi (hf y c h.client i hi)
  · rw [h.of_ne hy] at hd
    exact hf y d hd i hi

/-- A device whose messages and entries are the same forgets the same. -/
theorem Client.Forgets.congr {c c' : Client x} (h : c.Forgets n i) (hback : c'.backlog = c.backlog)
    (hpeer : c'.dev.peer i = c.dev.peer i) : c'.Forgets n i := by
  constructor
  · rw [hback, hpeer]
    exact h.todo
  · rw [hpeer]
    exact h.slots

/-- **A message about a client that is gone**: the next of its connects fills the next slot, and the
    disconnect empties the entry and is the last of them. -/
theorem Client.Forgets.recv {c : Client x} {shm : IdtIvshmemShmStorage} {m : Msg} {queue : List Msg}
    {r : Ctx x} {env : Env} {err : Option MsgError} (hok : c.Ok n used) (hr : c.dev.realized = true)
    (hq : c.queue = m :: queue) (h : processMsg (c.ctx shm) m.value m.fd env = .ok (r, err))
    (hid : i ≠ c.id) (hf : c.Forgets n i) :
    ({ c with dev := r.dev, queue := queue } : Client x).Forgets n i := by
  obtain ⟨hpeer, hframe, -, -⟩ := processMsg_spec h
  have hback : c.backlog = m :: queue := (Client.backlog_realized hr).trans hq
  have hback' : ({ c with dev := r.dev, queue := queue } : Client x).backlog = queue := by
    exact Client.backlog_realized (hframe.realized.trans hr)
  have htodo := hf.todo
  rw [hback] at htodo
  by_cases hm : m.value = i
  · rw [List.filter_cons_of_pos (by simpa using hm)] at htodo
    rcases htodo with ⟨hnil, -⟩ | ⟨hmax, htodo⟩
    · cases hnil
    cases hdrop : (connects n i).drop (c.dev.peer i).nbEventfds with
    | nil =>
      -- the disconnect
      rw [hdrop] at htodo
      obtain ⟨rfl, hrest⟩ := List.cons.inj htodo
      have hown : ¬ (i : ℤ) = (c.ctx shm).dev.vmId := by
        show ¬ (i : ℤ) = c.dev.vmId
        rw [hok.vmId hr]
        exact fun hv => hid (Int.natCast_inj.1 hv)
      have hent : r.dev.peer i = (c.dev.peer i).close := by
        rw [hpeer, entryAfter_disconnect hmax]
        exact if_neg hown
      constructor
      · rw [hback']
        show (_ ∧ (r.dev.peer i).nbEventfds = 0) ∨ _
        rw [hent]
        exact Or.inl ⟨hrest, rfl⟩
      · show (r.dev.peer i).Holds i
        rw [hent]
        exact hf.slots.close
    | cons m' l =>
      rw [hdrop] at htodo
      obtain ⟨rfl, hrest⟩ := List.cons.inj htodo
      obtain ⟨hlt, rfl, rfl⟩ := Client.connects_drop hdrop
      have hfull : ¬ c.dev.vectors ≤ (c.dev.peer i).nbEventfds := by
        rw [hok.vectors]
        omega
      have hent : r.dev.peer i = (c.dev.peer i).connect ⟨i, (c.dev.peer i).nbEventfds⟩ := by
        rw [hpeer, entryAfter_connect hmax]
        exact if_neg hfull
      constructor
      · rw [hback', hrest]
        show _ ∨ (_ ∧ _ = (connects n i).drop (r.dev.peer i).nbEventfds ++ _)
        rw [hent]
        exact Or.inr ⟨hmax, rfl⟩
      · show (r.dev.peer i).Holds i
        rw [hent]
        exact hf.slots.connect
  · rw [List.filter_cons_of_neg (by simpa using hm)] at htodo
    have hent : r.dev.peer i = c.dev.peer i := by
      rw [hpeer, entryAfter_of_ne hm]
      rfl
    constructor
    · rw [hback']
      show (_ ∧ (r.dev.peer i).nbEventfds = 0) ∨
        (_ ∧ _ = (connects n i).drop (r.dev.peer i).nbEventfds ++ _)
      rw [hent]
      exact htodo
    · show (r.dev.peer i).Holds i
      rw [hent]
      exact hf.slots

theorem forgets_step (hok : s.Ok n) (hf : s.Forgets n) (h : NetStep n s a s') : s'.Forgets n := by
  cases a with
  | join x id => exact forgets_join hok hf h
  | leave x => exact forgets_leave hok hf h
  | realize x env =>
    obtain ⟨c, c', hgoes, -, -, hback, -, -, hpeer, -⟩ := goes_realize hok h
    refine hf.go hgoes fun i _ hfi => hfi.congr hback ?_
    rw [(hpeer i).1, (hpeer i).2]
  | recv x env =>
    obtain ⟨c, c', m, queue, r, err, hgoes, hr, hq, hm, rfl, -, -⟩ := goes_recv h
    refine hf.go hgoes fun i hi hfi => hfi.recv (hok.client hgoes.client) hr hq hm ?_
    rintro rfl
    exact hi ⟨x, c, hgoes.client, rfl⟩
  | notify x vector =>
    obtain ⟨c, c', fd, hgoes, -, -, -, -, rfl⟩ := goes_notify hok h
    exact hf.go hgoes fun i _ hfi => hfi.congr rfl rfl

theorem Tuning.forgets {c c' : Client x} (h : Tuning s s' c c') (hf : s.Forgets n) : s'.Forgets n :=
  hf.go h.goes fun i _ hfi => hfi.congr h.backlog (h.peer i)

/-- **Every notifier is in its slot**, whether or not its client is still there. -/
theorem Net.Forgets.holds (hf : s.Forgets n) (hok : s.Ok n) {c : Client x}
    (hc : s.client x = some c) (i : ℕ) : (c.dev.peer i).Holds i := by
  by_cases hi : s.Member i
  · obtain ⟨y, d, hd, rfl⟩ := hi
    exact (hok.feed hc hd).slots
  · exact (hf x c hc i hi).slots

end

/-! ## Whole runs -/

section
variable {n : ℕ} {s s' : Bridge} {a : BridgeAct} {t : List (Bridge × BridgeAct)}
  {shm : IdtIvshmemShmStorage} {ram : Vm → Ram} {x : Vm} {c : Client x}

theorem bridge_forgets_step (hin : Inbounds n (s, a)) (hok : s.net.Ok n) (hf : s.net.Forgets n)
    (h : BridgeStep n s a s') : s'.net.Forgets n := by
  rcases bridge_cases hin h with ⟨b, -, hb⟩ | ⟨-, x, c, c', ht⟩
  · exact forgets_step hok hf hb
  · exact ht.forgets hf

theorem bridge_forgets (h : Run (BridgeStep n) (.start shm ram) t s)
    (hin : ∀ e ∈ t, Inbounds n e) : s.net.Forgets n := by
  refine (h.inv_of (fun s => s.net.Ok n ∧ s.net.Forgets n) (Inbounds n)
    ⟨ok_start n shm, forgets_start shm⟩ ?_ hin).2
  rintro s a s' ⟨hok, hf⟩ hin hst
  exact ⟨bridge_ok_step hin hok hst, bridge_forgets_step hin hok hf hst⟩

/-- What is in a slot. -/
theorem notifier_iff (h : Run (BridgeStep n) (.start shm ram) t s) (hin : ∀ e ∈ t, Inbounds n e)
    (hc : s.net.client x = some c) {i k : ℕ} {fd : Fd} :
    c.dev.notifier i k = .ok (some fd) ↔ fd = ⟨i, k⟩ ∧ k < (c.dev.peer i).nbEventfds := by
  have hholds := (bridge_forgets h hin).holds (bridge_ok h hin) hc i
  have hslot : ∀ {f : Fd}, c.dev.notifier i k = .ok (some f) →
      (c.dev.peer i).eventfds[k]? = some (some f) := by
    intro f hf
    have hf' := IVShmemState.notifier_ok hf
    rwa [Int.toNat_natCast] at hf'
  constructor
  · intro hfd
    exact ⟨hholds k fd (hslot hfd), ((bridge_named h hin).slots hc i k fd (hslot hfd)).2⟩
  · rintro ⟨rfl, hk⟩
    obtain ⟨-, -, fd, hfd⟩ := ((bridge_ok h hin).client hc).table.notifier (i := i) (k := k) (by
      rw [IVShmemState.nbEventfds_natCast]
      exact hk)
    rw [hfd, hholds k fd (hslot hfd)]

/-- **The view of the two devices is numbered**: what the server sends fills slot `k` with vector
    `k`. -/
theorem bridge_numbered (h : Run (BridgeStep n) (.start shm ram) t s)
    (hin : ∀ e ∈ t, Inbounds n e) : (s.sys n).Numbered := by
  intro x posn k fd hfd
  cases hc : s.net.client x with
  | none =>
    have hdev : (s.sys n).dev x = .init x n (fun _ => default) 0 := by simp [Bridge.sys, hc]
    rw [hdev] at hfd
    unfold IVShmemState.notifier at hfd
    split_ifs at hfd
    cases hfd
  | some c =>
    rw [Bridge.sys_dev hc] at hfd
    obtain ⟨i, rfl⟩ := Int.eq_ofNat_of_zero_le (notifier_nonneg hfd)
    rw [((notifier_iff h hin hc).1 hfd).1]

/-- **The table and the messages that wait are the server's view**, in every state: of a client that
    is there the rest of its connects waits, in order; of any other one nothing is left, or the rest of
    its connects waits and then its disconnect.  So a device that has worked off its messages holds
    exactly the notifiers of the devices that are there, each in its own slot, whatever joined and
    left meanwhile. -/
theorem table_current (h : Run (BridgeStep n) (.start shm ram) t s) (hin : ∀ e ∈ t, Inbounds n e)
    (hc : s.net.client x = some c) (hr : c.dev.realized = true) :
    (∀ i k : ℕ, ∀ fd : Fd, c.dev.notifier i k = .ok (some fd) ↔
      fd = ⟨i, k⟩ ∧ k < (c.dev.peer i).nbEventfds) ∧
    (∀ i, s.net.Member i → c.queue.filter (Msg.about i) =
      (connects n i).drop (c.dev.peer i).nbEventfds) ∧
    (∀ i, ¬ s.net.Member i →
      (c.queue.filter (Msg.about i) = [] ∧ (c.dev.peer i).nbEventfds = 0) ∨
        c.queue.filter (Msg.about i) =
          (connects n i).drop (c.dev.peer i).nbEventfds ++ [⟨i, none⟩]) ∧
    (c.queue = [] → ∀ i k : ℕ, ∀ fd : Fd, c.dev.notifier i k = .ok (some fd) ↔
      fd = ⟨i, k⟩ ∧ k < n ∧ s.net.Member i) := by
  have hok := bridge_ok h hin
  have hback : c.backlog = c.queue := Client.backlog_realized hr
  have hthere : ∀ i, s.net.Member i → c.queue.filter (Msg.about i) =
      (connects n i).drop (c.dev.peer i).nbEventfds := by
    rintro _ ⟨y, d, hd, rfl⟩
    rw [← hback]
    exact (hok.feed hc hd).todo
  have hgone : ∀ i, ¬ s.net.Member i →
      (c.queue.filter (Msg.about i) = [] ∧ (c.dev.peer i).nbEventfds = 0) ∨
        c.queue.filter (Msg.about i) =
          (connects n i).drop (c.dev.peer i).nbEventfds ++ [⟨i, none⟩] := by
    intro i hi
    rw [← hback]
    exact (bridge_forgets h hin x c hc i hi).todo.imp_right And.right
  refine ⟨fun i k fd => notifier_iff h hin hc, hthere, hgone, fun hq i k fd => ?_⟩
  rw [hq] at hthere hgone
  rw [notifier_iff h hin hc]
  refine and_congr_right fun _ => ?_
  by_cases hi : s.net.Member i
  · have hlen := congrArg List.length (hthere i hi)
    simp only [List.filter_nil, List.length_nil, connects, List.length_drop, List.length_map,
      List.length_range] at hlen
    have hbound := ((hok.client hc).table i).bound
    rw [(hok.client hc).vectors] at hbound
    have heq : (c.dev.peer i).nbEventfds = n := by omega
    rw [heq]
    exact (and_iff_left hi).symm
  · rcases hgone i hi with ⟨-, hnb⟩ | hdisc
    · rw [hnb]
      exact iff_of_false (Nat.not_lt_zero k) fun hn => hi hn.2
    · simp at hdisc

end

/-- The first machine goes, and the second one is told of it. -/
def toldOfLeave : List NetAct := pairAndLeave ++ [.recv .vm2 eventfdEnv]

/-- It has only its own notifiers left. -/
theorem table_current_leave : ∃ (s : Bridge) (c : Client .vm2),
    exec (Bridge.next 2) (.start default blankRam) (toldOfLeave.map .net) = .ok s ∧
      s.net.client .vm2 = some c ∧ c.id = 1 ∧ ∀ i k : ℕ, ∀ fd : Fd,
        c.dev.notifier i k = .ok (some fd) ↔ fd = ⟨i, k⟩ ∧ k < 2 ∧ s.net.Member i := by
  obtain ⟨s, c, hs, hc, hid, hr, hq⟩ : ∃ (s : Bridge) (c : Client .vm2),
      exec (Bridge.next 2) (.start default blankRam) (toldOfLeave.map .net) = .ok s ∧
      s.net.client .vm2 = some c ∧ c.id = 1 ∧ c.dev.realized = true ∧ c.queue = [] :=
    ⟨_, _, rfl, rfl, rfl, rfl, rfl⟩
  exact ⟨s, c, hs, hc, hid, (table_current (Run.of_exec hs) inbounds_net hc hr).2.2.2 hq⟩

end IdtNtb
