/-
  The messages of the server are all handled.

  A device that is told of an id after the id was disconnected stores into an
  array that was freed.  The server never does this: an id is given out once, so
  that a disconnect is the last that is heard of it.

  * `Net.Receptive` says this of the tables and the queues, for the ids of devices
    that are there, that have left, and that have never joined;
    `receptive_step` proves it for every step;
  * `messages_handled`: whatever the devices and their guests have done, and
    whatever the calls out of the device answer, a message that waits is handled
    without a fault;
  * `Net.Served` adds what holds in eventfd mode: each own notifier that is
    connected has its handler.
-/
import IdtNtb.Bridge
import IdtNtb.Vectors

namespace IdtNtb

open Function (update)
open Runs

/-! ## Devices that can take a message -/

section
variable {n : ℕ} {x : Vm} {c c' : Ctx x}

/-- Whether a device can take messages is a matter of its vectors and its table. -/
theorem Ready.congr (h : Ready c) (hr : c'.dev.realized = c.dev.realized)
    (hv : c'.dev.vectors = c.dev.vectors) (hm : c'.dev.msiVectors = c.dev.msiVectors)
    (hp : c'.dev.peers = c.dev.peers) (hid : c'.dev.vmId = c.dev.vmId) : Ready c' := by
  have hpeer : ∀ i, c'.dev.peer i = c.dev.peer i := by
    intro i
    unfold IVShmemState.peer
    rw [hp, hv]
  have hnb : c'.dev.nbEventfds c'.dev.vmId = c.dev.nbEventfds c.dev.vmId := by
    unfold IVShmemState.nbEventfds
    rw [hp, hid]
  refine ⟨⟨hr.trans h.wireable.realized, ?_⟩, ?_, ?_⟩
  · rw [hm, hv]
    exact h.wireable.vectors
  · intro i
    rw [hpeer, hv]
    exact h.table i
  · intro v hle e he
    rw [hnb] at hle
    rw [msiVector_congr hm v] at he
    exact h.unwired v hle e he

/-- Each own notifier that is connected has its handler. -/
def Watchful (c : Ctx x) : Prop :=
  ∀ v < c.dev.nbEventfds c.dev.vmId, ∃ e, msiVector c v = .ok e ∧ e.pdev = true

theorem Watchful.congr (h : Watchful c) (hm : c'.dev.msiVectors = c.dev.msiVectors)
    (hp : c'.dev.peers = c.dev.peers) (hid : c'.dev.vmId = c.dev.vmId) : Watchful c' := by
  have hnb : c'.dev.nbEventfds c'.dev.vmId = c.dev.nbEventfds c.dev.vmId := by
    unfold IVShmemState.nbEventfds
    rw [hp, hid]
  intro v hlt
  rw [hnb] at hlt
  rw [msiVector_congr hm v]
  exact h v hlt

/-- **In eventfd mode** a message that connects an own notifier gives it a handler. -/
theorem Watchful.message {m : Msg} {env : Env} {err : Option MsgError} (h : Watchful c)
    (hok : c.dev.TableOk) (he : env.msiViaIrqfd = false)
    (hm : processMsg c m.value m.fd env = .ok (c', err)) : Watchful c' := by
  obtain ⟨-, hframe, -⟩ := processMsg_spec hm
  obtain ⟨hmore, hsame⟩ := nbEventfds_own hm
  intro v hv
  rw [hframe.vmId] at hv
  rcases processMsg_wiring hok hm with ⟨ho, ha⟩ | ⟨ho, hs⟩
  · rw [hmore ho] at hv
    obtain ⟨e, hmsi, hset, -⟩ := attaches_eventfd he ha
    rw [ho.own] at hmsi hset
    rcases eq_or_ne v (c.dev.nbEventfds c.dev.vmId) with rfl | hne
    · refine ⟨{ e with pdev := true }, ?_, rfl⟩
      unfold msiVector at hmsi ⊢
      rw [hset]
      cases hvs : c.dev.msiVectors with
      | none =>
        rw [hvs] at hmsi
        cases hmsi
      | some vs =>
        rw [hvs] at hmsi
        dsimp only [Option.map_some] at hmsi ⊢
        rw [List.getElem?_set_self]
        by_contra hlen
        rw [List.getElem?_eq_none (Nat.not_lt.1 hlen)] at hmsi
        cases hmsi
    · rw [msiVector_of_set hne hset]
      exact h v (by omega)
  · rw [hsame ho] at hv
    rw [hs.msiVector]
    exact h v hv

/-- The device can take messages, and has a handler for each of its own notifiers. -/
structure Attends (c : Ctx x) : Prop extends Ready c where
  wired : Watchful c

theorem Attends.watches (h : Attends c) {v : ℕ} (hv : v < c.dev.nbEventfds c.dev.vmId) :
    ∃ fd, vectorNotifier c v = .ok (some fd) := by
  obtain ⟨e, he, hp⟩ := h.wired v hv
  obtain ⟨-, -, fd, hfd⟩ := h.table.notifier hv
  exact ⟨fd, bind_ok.2 ⟨e, he, by rw [if_pos hp]; exact hfd⟩⟩

/-- **A message about an array that is there** is handled, and the device attends to the next. -/
theorem Attends.message (h : Attends c) {m : Msg} {env : Env} (he : env.msiViaIrqfd = false)
    (hf : ∀ i : ℕ, m.value = i → ¬ Freed c.dev i) :
    ∃ r err, processMsg c m.value m.fd env = .ok (r, err) ∧ Attends r := by
  obtain ⟨r, err, hm, hr⟩ : ∃ r err, processMsg c m.value m.fd env = .ok (r, err) ∧ Ready r :=
    processMsg_ready h.toReady hf
  exact ⟨r, err, hm, hr, h.wired.message h.table he hm⟩

end

/-! ## The invariant -/

/-- The messages that wait can be handled. -/
structure Net.Receptive (s : Net) : Prop where
  ready : ∀ {x} {c : Client x}, s.client x = some c → c.dev.realized = true → Ready (c.ctx s.shm)
  /-- The arrays that the messages are about are there. -/
  allocated : ∀ {x} {c : Client x}, s.client x = some c → ∀ m ∈ c.backlog, ∀ i : ℕ, m.value = i →
    (c.dev.peer i).allocated = true
  /-- A disconnect is the last message about a client. -/
  last : ∀ {x} {c : Client x}, s.client x = some c →
    c.backlog.Pairwise fun m m' => m.fd = none → m'.value ≠ m.value
  present : ∀ {x y} {c : Client x} {d : Client y}, s.client x = some c → s.client y = some d →
    (c.dev.peer d.id).allocated = true

/-- They can be handled, and each own notifier that is connected has its handler. -/
structure Net.Served (s : Net) : Prop extends Net.Receptive s where
  wired : ∀ {x} {c : Client x}, s.client x = some c → c.dev.realized = true → Watchful (c.ctx s.shm)

theorem Net.Served.attends {s : Net} (hs : s.Served) {x : Vm} {c : Client x}
    (hc : s.client x = some c) (hr : c.dev.realized = true) : Attends (c.ctx s.shm) :=
  ⟨hs.ready hc hr, hs.wired hc hr⟩

section
variable {n : ℕ} {s s' : Net} {x y : Vm} {a : NetAct} {env : Env}

/-- Of a device that is there only connects are told. -/
theorem Client.Feed.connect {c : Client x} {p : ℕ} (hf : c.Feed n p) {m : Msg}
    (hm : m ∈ c.backlog) (hv : m.value = p) : m.fd ≠ none := by
  have hmem : m ∈ c.backlog.filter (Msg.about p) := by
    rw [List.mem_filter, Msg.about_iff]
    exact ⟨hm, hv⟩
  rw [hf.todo] at hmem
  obtain ⟨k, -, rfl⟩ := List.mem_map.1 (List.mem_of_mem_drop hmem)
  exact nofun

/-- Nothing of an id that was not given out is freed. -/
theorem Client.Ok.allocated {used : List ℕ} {c : Client x} (hok : c.Ok n used) {i : ℕ}
    (hi : i ∉ used) : (c.dev.peer i).allocated = true := by
  rw [hok.unknown i hi]
  rfl

theorem mem_connects_fd {m : Msg} {id : ℕ} (h : m ∈ connects n id) : m.fd ≠ none := by
  obtain ⟨k, -, rfl⟩ := List.mem_map.1 h
  exact nofun

/-- Connects alone are in order. -/
theorem pairwise_of_connects {l : List Msg} (h : ∀ m ∈ l, m.fd ≠ none) :
    l.Pairwise fun m m' => m.fd = none → m'.value ≠ m.value :=
  List.pairwise_of_forall_mem_list fun m hm _ _ hn => absurd hn (h m hm)

theorem receptive_start (shm : IdtIvshmemShmStorage) : (Net.start shm).Receptive where
  ready := nofun
  allocated := nofun
  last := nofun
  present := nofun

/-- The messages that wait are about arrays that are there. -/
theorem Net.Receptive.not_freed (hs : s.Receptive) {c : Client x} (hc : s.client x = some c)
    (hr : c.dev.realized = true) {m : Msg} {queue : List Msg} (hq : c.queue = m :: queue) :
    ∀ i : ℕ, m.value = i → ¬ Freed c.dev i := by
  intro i hi hfree
  have hback : m ∈ c.backlog := by
    rw [Client.backlog_realized hr, hq]
    exact List.mem_cons_self
  have hall := hs.allocated hc m hback i hi
  rw [hfree.2] at hall
  cases hall

/-- One device goes on. -/
theorem Net.Receptive.go {c c' : Client x} (hs : s.Receptive) (h : s.Goes s' c c')
    (hr : c'.dev.realized = true → Ready (c'.ctx s'.shm))
    (hsub : c'.backlog.Sublist c.backlog)
    (hkeep : ∀ i : ℕ, ((∃ m ∈ c'.backlog, m.value = i) ∨ ∃ y, ∃ d ∈ s.client y, d.id = i) →
      (c.dev.peer i).allocated = true → (c'.dev.peer i).allocated = true) : s'.Receptive where
  ready := by
    intro y d hd hrd
    rcases eq_or_ne y x with rfl | hy
    · rw [h.self, Option.some_inj] at hd
      subst hd
      exact hr hrd
    · rw [h.of_ne hy] at hd
      exact (hs.ready hd hrd).congr rfl rfl rfl rfl rfl
  allocated := by
    intro y d hd m hm i hi
    rcases eq_or_ne y x with rfl | hy
    · rw [h.self, Option.some_inj] at hd
      subst hd
      exact hkeep i (Or.inl ⟨m, hm, hi⟩) (hs.allocated h.client m (hsub.subset hm) i hi)
    · rw [h.of_ne hy] at hd
      exact hs.allocated hd m hm i hi
  last := by
    intro y d hd
    rcases eq_or_ne y x with rfl | hy
    · rw [h.self, Option.some_inj] at hd
      subst hd
      exact (hs.last h.client).sublist hsub
    · rw [h.of_ne hy] at hd
      exact hs.last hd
  present := by
    intro y z d e hd he
    obtain ⟨e₀, he₀, hei⟩ := h.back he
    rw [← hei]
    rcases eq_or_ne y x with rfl | hy
    · rw [h.self, Option.some_inj] at hd
      subst hd
      exact hkeep _ (Or.inr ⟨z, e₀, he₀, rfl⟩) (hs.present h.client he₀)
    · rw [h.of_ne hy] at hd
      exact hs.present hd he₀

/-! ## Every step -/

/-- More messages for a device that is there. -/
theorem push_last (hok : s.Ok n) (hs : s.Receptive) {d : Client y} (hd : s.client y = some d)
    {l : List Msg} (hl : l.Pairwise fun m m' => m.fd = none → m'.value ≠ m.value)
    (hnew : ∀ m ∈ d.backlog, m.fd = none → ∀ m' ∈ l, m'.value ≠ m.value) :
    (d.push l).backlog.Pairwise fun m m' => m.fd = none → m'.value ≠ m.value := by
  rw [Client.push_backlog (hok.client hd), List.pairwise_append]
  exact ⟨hs.last hd, hl, fun m hm m' hm' hn => hnew m hm hn m' hm'⟩

theorem receptive_join {id : ℕ} (hok : s.Ok n) (hs : s.Receptive) (h : NetStep n s (.join x id) s') :
    s'.Receptive := by
  have hs' := net_join h
  obtain ⟨-, hnew, -, rfl⟩ := hs'
  -- the newcomer has an empty table, and is told of connects only
  have hfresh : ∀ m ∈ (Client.fresh x n id (s.present n x.other ++ connects n id)).backlog,
      m.fd ≠ none := by
    intro m hm
    have hm : m ∈ s.present n x.other ++ connects n id := hm
    rcases List.mem_append.1 hm with hm | hm
    · obtain ⟨c, -, hm⟩ := mem_present hm
      exact mem_connects_fd hm
    · exact mem_connects_fd hm
  refine ⟨?_, ?_, ?_, ?_⟩
  · intro y d hd hr
    rcases client_join h hd with ⟨rfl, rfl⟩ | ⟨-, d₀, hd₀, rfl⟩
    · cases hr
    · exact (hs.ready hd₀ hr).congr rfl rfl rfl rfl rfl
  · intro y d hd m hm i hi
    rcases client_join h hd with ⟨rfl, rfl⟩ | ⟨-, d₀, hd₀, rfl⟩
    · rfl
    · rw [Client.push_backlog (hok.client hd₀)] at hm
      rcases List.mem_append.1 hm with hm | hm
      · exact hs.allocated hd₀ m hm i hi
      · obtain rfl : id = i := by
          rw [Client.mem_connects hm] at hi
          exact Int.natCast_inj.1 hi
        exact (hok.client hd₀).allocated hnew
  · intro y d hd
    rcases client_join h hd with ⟨rfl, rfl⟩ | ⟨-, d₀, hd₀, rfl⟩
    · exact pairwise_of_connects hfresh
    · refine push_last hok hs hd₀ (pairwise_of_connects fun m hm => mem_connects_fd hm) ?_
      intro m hm _ m' hm' hv
      obtain ⟨i, hi, hmi⟩ := (hok.client hd₀).queued m hm
      rw [Client.mem_connects hm', hmi] at hv
      exact hnew (Int.natCast_inj.1 hv ▸ hi)
  · intro y z d e hd he
    rcases client_join h hd with ⟨rfl, rfl⟩ | ⟨-, d₀, hd₀, rfl⟩
    · rfl
    · rcases client_join h he with ⟨rfl, rfl⟩ | ⟨-, e₀, he₀, rfl⟩
      · exact (hok.client hd₀).allocated hnew
      · have hpres := hs.present hd₀ he₀
        exact hpres

theorem receptive_leave (hok : s.Ok n) (hs : s.Receptive) (h : NetStep n s (.leave x) s') :
    s'.Receptive := by
  have hs' := net_leave h
  obtain ⟨c, hc, rfl⟩ := hs'
  refine ⟨?_, ?_, ?_, ?_⟩
  · intro y d hd hr
    obtain ⟨-, c', d₀, -, hd₀, rfl⟩ := client_leave h hd
    exact (hs.ready hd₀ hr).congr rfl rfl rfl rfl rfl
  · intro y d hd m hm i hi
    obtain ⟨-, c', d₀, hc', hd₀, rfl⟩ := client_leave h hd
    rw [Client.push_backlog (hok.client hd₀)] at hm
    rcases List.mem_append.1 hm with hm | hm
    · exact hs.allocated hd₀ m hm i hi
    · rw [List.mem_singleton] at hm
      subst hm
      obtain rfl := Int.natCast_inj.1 hi
      have hpres := hs.present hd₀ hc'
      exact hpres
  · intro y d hd
    obtain ⟨-, c', d₀, hc', hd₀, rfl⟩ := client_leave h hd
    refine push_last hok hs hd₀ (List.pairwise_singleton _ _) ?_
    intro m hm hn m' hm' hv
    rw [List.mem_singleton] at hm'
    subst hm'
    exact (hok.feed hd₀ hc').connect hm hv.symm hn
  · intro y z d e hd he
    obtain ⟨-, c₁, d₀, -, hd₀, rfl⟩ := client_leave h hd
    obtain ⟨-, c₂, e₀, -, he₀, rfl⟩ := client_leave h he
    have hpres := hs.present hd₀ he₀
    exact hpres

theorem receptive_realize (hok : s.Ok n) (hs : s.Receptive) (h : NetStep n s (.realize x env) s') :
    s'.Receptive := by
  obtain ⟨c, r, rest, hc, hr, hrz, hf⟩ := net_realize h
  obtain ⟨hgoes, -, -⟩ := Net.finish_goes hc hf
  obtain ⟨c₁, c', hgoes', -, -, hback, -, -, hpeer, -⟩ := goes_realize hok h
  obtain rfl : c₁ = c := Option.some_inj.1 (hgoes'.client.symm.trans hc)
  obtain rfl : c' = _ := Option.some_inj.1 (hgoes'.self.symm.trans hgoes.self)
  obtain ⟨hdev, -⟩ := (hok.client hc).waits hr
  have hready : Ready r := by
    have hctx : c₁.ctx s.shm = ⟨s.shm, .init x n (fun _ => default) 0, []⟩ := by
      rw [Client.ctx, hdev]
    rw [hctx] at hrz
    exact (connects_of_realize hrz).1
  refine hs.go hgoes (fun _ => hready.congr rfl rfl rfl rfl rfl) ?_ ?_
  · rw [hback]
  · intro i _ _
    rw [(hpeer i).1]
    rfl

theorem receptive_recv (hok : s.Ok n) (hs : s.Receptive) (h : NetStep n s (.recv x env) s') :
    s'.Receptive := by
  obtain ⟨c, c', m, queue, r, err, hgoes, hr, hq, hm, rfl, -, -⟩ := goes_recv h
  have hcok := hok.client hgoes.client
  obtain ⟨hpeer, hframe, -, -⟩ := processMsg_spec hm
  have hback : c.backlog = m :: queue := (Client.backlog_realized hr).trans hq
  have hr' : r.dev.realized = true := hframe.realized.trans hr
  have hback' : ({ c with dev := r.dev, queue := queue } : Client x).backlog = queue :=
    Client.backlog_realized hr'
  have hready : Ready r := by
    obtain ⟨r', err', hm', hready⟩ : ∃ r' err',
        processMsg (c.ctx s.shm) m.value m.fd env = .ok (r', err') ∧ Ready r' :=
      processMsg_ready (hs.ready hgoes.client hr) (hs.not_freed hgoes.client hr hq)
    rw [hm, Except.ok.injEq, Prod.mk.injEq] at hm'
    exact hm'.1 ▸ hready
  refine hs.go hgoes (fun _ => hready.congr rfl rfl rfl rfl rfl) ?_ ?_
  · rw [hback', hback]
    exact List.sublist_cons_self _ _
  · -- what the message frees is heard of no more
    intro i hi hall
    have hno : ¬ Disconnects c.dev m i := by
      rintro ⟨hfd, hv, -⟩
      rcases hi with ⟨m', hm', hv'⟩ | ⟨y, d, hd, rfl⟩
      · rw [hback'] at hm'
        have hlast := hs.last hgoes.client
        rw [hback, List.pairwise_cons] at hlast
        exact hlast.1 m' hm' hfd (hv'.trans hv.symm)
      · have hmem : m ∈ c.backlog := by
          rw [hback]
          exact List.mem_cons_self
        exact (hok.feed hgoes.client hd).connect hmem hv hfd
    have hfree : ¬ (r.dev.peer i).allocated = false := by
      rw [hpeer, entryAfter_allocated]
      rintro (hf | hd)
      · have hall' : (c.dev.peer i).allocated = true := hall
        exact Bool.noConfusion (hall'.symm.trans hf)
      · exact hno hd
    simpa using hfree

theorem receptive_notify {vector : ℕ} (hok : s.Ok n) (hs : s.Receptive)
    (h : NetStep n s (.notify x vector) s') : s'.Receptive := by
  obtain ⟨c, c', fd, hgoes, hr, -, -, -, rfl⟩ := goes_notify hok h
  exact hs.go hgoes (fun _ => (hs.ready hgoes.client hr).congr rfl rfl rfl rfl rfl)
    (List.Sublist.refl _) fun _ _ hall => hall

theorem receptive_step (hok : s.Ok n) (hs : s.Receptive) (h : NetStep n s a s') : s'.Receptive := by
  cases a with
  | join x id => exact receptive_join hok hs h
  | leave x => exact receptive_leave hok hs h
  | realize x env => exact receptive_realize hok hs h
  | recv x env => exact receptive_recv hok hs h
  | notify x vector => exact receptive_notify hok hs h

theorem Tuning.receptive {c c' : Client x} (h : Tuning s s' c c') (hs : s.Receptive) :
    s'.Receptive := by
  obtain ⟨hp, hv, hr, hid, -, hm, -⟩ := h.dev
  refine hs.go h.goes (fun _ => ?_) ?_ ?_
  · have hpeers : (c'.ctx s'.shm).dev.peers = (c.ctx s.shm).dev.peers := hp
    exact (hs.ready h.goes.client h.realized).congr hr hv hm hpeers hid
  · rw [h.backlog]
  · intro i _ hall
    rw [h.peer]
    exact hall

/-! ## In eventfd mode -/

theorem served_start (shm : IdtIvshmemShmStorage) : (Net.start shm).Served :=
  ⟨receptive_start shm, nofun⟩

/-- The notifier that a device looks at is its own. -/
theorem Net.Served.watched (hok : s.Ok n) (hs : s.Served) {c : Client x} (hc : s.client x = some c)
    (hr : c.dev.realized = true) {v : ℕ} (hv : v < c.dev.nbEventfds c.id) :
    vectorNotifier (c.ctx s.shm) v = .ok (some ⟨c.id, v⟩) := by
  have hvm := (hok.client hc).vmId hr
  have hown : v < c.dev.nbEventfds c.dev.vmId := by
    rw [hvm]
    exact hv
  obtain ⟨fd, hfd⟩ := (hs.attends hc hr).watches hown
  have hslot : c.dev.notifier c.dev.vmId v = .ok (some fd) := by
    obtain ⟨e, -, h⟩ := bind_ok.1 hfd
    split_ifs at h
    exact h
  have hslot' := IVShmemState.notifier_ok hslot
  rw [hvm, Int.toNat_natCast] at hslot'
  obtain rfl := (hok.feed hc hc).slots _ _ hslot'
  exact hfd

/-- One device goes on, and the other one has its handlers as before. -/
theorem Net.Served.go {c c' : Client x} (hs : s.Served) (hr : s'.Receptive) (h : s.Goes s' c c')
    (hw : c'.dev.realized = true → Watchful (c'.ctx s'.shm)) : s'.Served where
  toReceptive := hr
  wired := by
    intro y d hd hrd
    rcases eq_or_ne y x with rfl | hy
    · rw [h.self, Option.some_inj] at hd
      subst hd
      exact hw hrd
    · rw [h.of_ne hy] at hd
      exact (hs.wired hd hrd).congr rfl rfl rfl

theorem served_step (hok : s.Ok n) (hs : s.Served) (he : a.Eventfd) (h : NetStep n s a s') :
    s'.Served := by
  have hr := receptive_step hok hs.toReceptive h
  cases a with
  | join x id =>
    refine ⟨hr, fun {y} d hd hrd => ?_⟩
    rcases client_join h hd with ⟨rfl, rfl⟩ | ⟨-, d₀, hd₀, rfl⟩
    · cases hrd
    · exact (hs.wired hd₀ hrd).congr rfl rfl rfl
  | leave x =>
    refine ⟨hr, fun {y} d hd hrd => ?_⟩
    obtain ⟨-, c', d₀, -, hd₀, rfl⟩ := client_leave h hd
    exact (hs.wired hd₀ hrd).congr rfl rfl rfl
  | realize x env =>
    obtain ⟨c, c', hgoes, -, -, -, -, -, hpeer, -⟩ := goes_realize hok h
    refine hs.go hr hgoes fun _ v hv => ?_
    have hzero : c'.dev.nbEventfds c'.dev.vmId = 0 := nbEventfds_of_empty (fun i => (hpeer i).1) _
    have hv' : v < c'.dev.nbEventfds c'.dev.vmId := hv
    rw [hzero] at hv'
    exact absurd hv' (Nat.not_lt_zero v)
  | recv x env =>
    obtain ⟨c, c', m, queue, r, err, hgoes, hreal, -, hm, rfl, -, -⟩ := goes_recv h
    have hwired : Watchful r := (hs.wired hgoes.client hreal).message
      (hs.ready hgoes.client hreal).table he hm
    exact hs.go hr hgoes fun _ => hwired.congr rfl rfl rfl
  | notify x vector =>
    obtain ⟨c, c', fd, hgoes, hreal, -, -, -, rfl⟩ := goes_notify hok h
    exact hs.go hr hgoes fun _ => (hs.wired hgoes.client hreal).congr rfl rfl rfl

/-- What holds of the server and the devices in eventfd mode. -/
structure Net.Sound (n : ℕ) (s : Net) : Prop where
  ok : s.Ok n
  announced : s.Announced
  served : s.Served

theorem sound_start (n : ℕ) (shm : IdtIvshmemShmStorage) : (Net.start shm).Sound n :=
  ⟨ok_start n shm, announced_start shm, served_start shm⟩

theorem sound_step (hs : s.Sound n) (h : NetStep n s a s') (he : a.Eventfd) : s'.Sound n :=
  ⟨ok_step hs.ok h, announced_step hs.ok hs.announced he h, served_step hs.ok hs.served he h⟩

theorem Tuning.served {c c' : Client x} (h : Tuning s s' c c') (hs : s.Served) : s'.Served := by
  obtain ⟨hp, hv, hr, hid, -, hm, -⟩ := h.dev
  refine hs.go (h.receptive hs.toReceptive) h.goes fun _ => ?_
  exact (hs.wired h.goes.client h.realized).congr hm hp hid

end

section
variable {n : ℕ} {s s' : Bridge} {a : BridgeAct} {t : List (Bridge × BridgeAct)}
  {shm : IdtIvshmemShmStorage} {ram : Vm → Ram}

theorem bridge_receptive (h : Run (BridgeStep n) (.start shm ram) t s)
    (hin : ∀ e ∈ t, Inbounds n e) : s.net.Receptive := by
  refine (h.inv_of (fun s => s.net.Ok n ∧ s.net.Receptive) (Inbounds n)
    ⟨ok_start n shm, receptive_start shm⟩ ?_ hin).2
  rintro s a s' ⟨hok, hs⟩ hin hst
  refine ⟨bridge_ok_step hin hok hst, ?_⟩
  rcases bridge_cases hin hst with ⟨b, -, hb⟩ | ⟨-, x, c, c', htune⟩
  · exact receptive_step hok hs hb
  · exact htune.receptive hs

/-- **One step in eventfd mode.** -/
theorem bridge_sound_step (ht : Tame n (s, a)) (hs : s.net.Sound n) (h : BridgeStep n s a s') :
    s'.net.Sound n := by
  rcases bridge_cases ht.toInbounds h with ⟨b, hb, hst⟩ | ⟨-, x, c, c', htune⟩
  · exact sound_step hs hst (ht.eventfd b hb)
  · exact ⟨htune.ok hs.ok, htune.announced hs.announced, htune.served hs.served⟩

theorem bridge_sound (h : Run (BridgeStep n) (.start shm ram) t s) (ht : ∀ e ∈ t, Tame n e) :
    s.net.Sound n :=
  h.inv_of (fun s => s.net.Sound n) (Tame n) (sound_start n shm)
    (fun _ _ _ hs ht hst => bridge_sound_step ht hs hst) ht

/-- **Every message that the server sends is handled**, in every state that the bridge reaches and
    whatever the calls out of the devices answer, now and before: no assertion fails, and no array is
    used after it was freed.  The event that the second machine's device sends when it announces its
    id is set in `Net.finish`, where its slot can be missing. -/
theorem messages_handled (h : Run (BridgeStep n) (.start shm ram) t s)
    (hin : ∀ e ∈ t, Inbounds n e) {x : Vm} {c : Client x} {m : Msg} {queue : List Msg}
    (hc : s.net.client x = some c) (hr : c.dev.realized = true) (hq : c.queue = m :: queue)
    (env : Env) : ∃ r err, processMsg (c.ctx s.net.shm) m.value m.fd env = .ok (r, err) := by
  have hs := bridge_receptive h hin
  obtain ⟨r, err, hm, -⟩ : ∃ r err, processMsg (c.ctx s.net.shm) m.value m.fd env = .ok (r, err) ∧
      Ready r := processMsg_ready (hs.ready hc hr) (hs.not_freed hc hr hq)
  exact ⟨r, err, hm⟩

end

/-- The memory files before anything was stored. -/
def blankRam (_ : Vm) : Ram := ⟨0x40000000, by decide, fun _ => 0⟩

/-- Steps of the server and the devices alone. -/
theorem inbounds_net {n : ℕ} {s : Bridge} {l : List NetAct} :
    ∀ e ∈ trace (Bridge.next n) s (l.map .net), Inbounds n e := by
  intro e he
  refine inbounds_of_not_access fun a ha => ?_
  obtain ⟨b, -, hb⟩ := List.mem_map.1 (mem_of_mem_trace he)
  exact BridgeAct.noConfusion (hb.trans ha)

theorem tame_net {n : ℕ} {s : Bridge} {l : List NetAct} (hl : ∀ b ∈ l, b.Eventfd) :
    ∀ e ∈ trace (Bridge.next n) s (l.map .net), Tame n e := by
  intro e he
  refine ⟨inbounds_net e he, fun b hb => ?_⟩
  obtain ⟨b', hmem, hb'⟩ := List.mem_map.1 (mem_of_mem_trace he)
  rw [hb] at hb'
  cases hb'
  exact hl b hmem

/-- A register write that does not use the out-of-spec selector. -/
theorem tame_write {n : ℕ} {s : Bridge} {x : Vm} {r : ConfigReg} {v : BitVec 32}
    (hr : ¬ OofData r) : Tame n (s, .access (.write x r.addr v)) := by
  refine ⟨⟨fun a ha => ?_, fun a ha => ?_⟩, fun b hb => BridgeAct.noConfusion hb⟩
  · obtain rfl := BridgeAct.access.inj ha
    exact selFor_write hr
  · obtain rfl := BridgeAct.access.inj ha
    trivial

/-- A device in irqfd mode, where KVM has refused to add the route of its first vector. -/
theorem messages_handled_refused : ∃ (s : Bridge) (c : Client .vm1) (m : Msg) (queue : List Msg),
    s.net.client .vm1 = some c ∧ c.queue = m :: queue ∧
      ∃ r err, processMsg (c.ctx s.net.shm) m.value m.fd eventfdEnv = .ok (r, err) := by
  let irqfdEnv : Env := { eventfdEnv with msiViaIrqfd := true }
  obtain ⟨s, c, m, queue, hs, hc, hr, hq⟩ : ∃ (s : Bridge) (c : Client .vm1) (m : Msg)
      (queue : List Msg), exec (Bridge.next 2) (.start default blankRam)
        ([.join .vm1 5, .realize .vm1 irqfdEnv,
          .recv .vm1 { irqfdEnv with msixEnabled := true, addMsiRoute := -1 }].map .net) = .ok s ∧
      s.net.client .vm1 = some c ∧ c.dev.realized = true ∧ c.queue = m :: queue :=
    ⟨_, _, _, _, rfl, rfl, rfl, rfl⟩
  exact ⟨s, c, m, queue, hc, hq,
    messages_handled (Run.of_exec hs) inbounds_net hc hr hq eventfdEnv⟩

end IdtNtb
