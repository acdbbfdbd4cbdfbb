/-
  When the first machine hears of the second.

  The first machine's device learns of its peer by one event only, which the second
  machine's device signals when it announces its id.  It reaches the device whose
  id is in the first machine's block, if that device's notifier is already in the
  table of the second one (`Calls`).

  * `Net.Named`: every notifier in a table, in a queue or with an event pending is
    one of the client it is filed under, also for devices that have gone;
  * `heard_step`: a call makes the first device hear, its leaving ends that, and
    nothing else does either;
  * `heard_iff`: so the first device holds an id of its peer, or is about to, exactly
    if it was called since it joined, whatever else has happened on the bridge;
  * `not_paired_alone`: a first machine that comes back alone is never paired.
-/
import IdtNtb.Alerts

namespace IdtNtb

open Function (update)
open Runs

/-! ## Whose notifiers there are -/

/-- The notifiers are filed under their clients, and those of the first machine's device are only
    signalled by a peer that has announced its id. -/
structure Net.Named (s : Net) : Prop where
  slots : ∀ {x} {c : Client x}, s.client x = some c → ∀ i k (fd : Fd),
    (c.dev.peer i).eventfds[k]? = some (some fd) → fd.client = i ∧ k < (c.dev.peer i).nbEventfds
  queued : ∀ {x} {c : Client x}, s.client x = some c → ∀ m ∈ c.backlog, ∀ fd ∈ m.fd,
    m.value = (fd.client : ℤ)
  given : ∀ fd, s.pending fd = true → fd.client ∈ s.used
  answer : ∀ c ∈ s.client .vm1, s.pending ⟨c.id, eventfdVmId⟩ = true →
    (s.shm.vm .vm2).id.toInt ≠ -1

section
variable {n : ℕ} {s s' : Net} {x y : Vm} {a : NetAct} {env : Env}

theorem named_start (shm : IdtIvshmemShmStorage) : (Net.start shm).Named where
  slots := nofun
  queued := nofun
  given := nofun
  answer := nofun

/-- The slots of an entry are its client's, and only those counted are filled. -/
def Peer.Filed (p : Peer) (i : ℕ) : Prop :=
  ∀ k (fd : Fd), p.eventfds[k]? = some (some fd) → fd.client = i ∧ k < p.nbEventfds

theorem Peer.filed_empty (i : ℕ) : (Peer.empty n).Filed i := by
  intro k fd h
  simp [Peer.empty, List.getElem?_replicate] at h

theorem Peer.Filed.connect {p : Peer} {i : ℕ} (h : p.Filed i) {fd : Fd} (hfd : fd.client = i) :
    (p.connect fd).Filed i := by
  intro k fd' hk
  rw [Peer.connect, List.getElem?_set] at hk
  by_cases hkn : p.nbEventfds = k
  · subst hkn
    simp only [if_true] at hk
    split_ifs at hk
    cases hk
    exact ⟨hfd, Nat.lt_succ_self _⟩
  · rw [if_neg hkn] at hk
    obtain ⟨hc, hlt⟩ := h k fd' hk
    exact ⟨hc, Nat.lt_succ_of_lt hlt⟩

/-- An entry that is closed has no slot filled. -/
theorem Peer.Filed.close {p : Peer} {i : ℕ} (h : p.Filed i) : p.close.Filed i := by
  intro k fd hk
  simp only [Peer.close, List.getElem?_mapIdx, Option.map_eq_some_iff] at hk
  obtain ⟨o, ho, hk⟩ := hk
  split_ifs at hk with hlt
  subst hk
  exact absurd (h k fd ho).2 hlt

/-- A message about a client files the notifier that it brings. -/
theorem Peer.Filed.entryAfter {d : IVShmemState x} {msg : ℤ} {o : Option Fd} {i : ℕ}
    (h : (d.peer i).Filed i) (hm : ∀ fd ∈ o, msg = (fd.client : ℤ)) :
    (entryAfter d msg o i).Filed i := by
  by_cases hi : (i : ℤ) = msg ∧ msg ≤ ivshmemMaxPeers
  · obtain ⟨rfl, hmax⟩ := hi
    cases o with
    | none =>
      rw [entryAfter_disconnect hmax]
      split_ifs
      · exact h
      · exact h.close
    | some fd =>
      rw [entryAfter_connect hmax]
      split_ifs
      · exact h
      · exact h.connect (Int.natCast_inj.1 (hm fd rfl)).symm
  · rw [entryAfter_of_not hi]
    exact h

/-! ## What is signalled -/

/-- **The events of a message**: only the second machine's device signals, when it announces its
    id, and then the client whose id is in the first machine's block. -/
theorem recv_events (h : NetStep n s (.recv x env) s') :
    (¬ RunsInit .vm2 (s, .recv x env) ∧ s'.pending = s.pending ∧
      (s'.shm.vm .vm2).id = (s.shm.vm .vm2).id) ∨
    (RunsInit .vm2 (s, .recv x env) ∧ ∃ c' ∈ s'.client .vm2,
      (s'.shm.vm .vm2).id = BitVec.ofInt 32 c'.dev.vmId ∧ ∃ o : Option Fd,
      c'.dev.notifier (s.shm.vm .vm1).id.toInt eventfdVmId = .ok o ∧
      ((o = none ∧ s'.pending = s.pending) ∨
        ∃ fd, o = some fd ∧ s'.pending = update s.pending fd true)) := by
  obtain ⟨c, c', m, queue, r, err, hgoes, hr, hq, hm, rfl, hshm, hpend⟩ := goes_recv h
  obtain ⟨-, hframe, hlearns, -⟩ := processMsg_spec hm
  have hnone : r.out.filterMap Effect.signal? = [] → s'.pending = s.pending := by
    intro hsig
    rw [foldlM_deliver, hsig] at hpend
    exact (Except.ok.inj hpend).symm
  cases x with
  | vm1 =>
    refine Or.inl ⟨not_runsInit (by simp), ?_⟩
    rw [hshm]
    rcases hlearns with ⟨-, hann⟩ | ⟨-, hsil⟩
    · refine ⟨hnone hann.signals, ?_⟩
      rw [hann.shm, IdtIvshmemShmStorage.modVm_of_ne _ (by decide)]
      rfl
    · exact ⟨hnone hsil.signals, by rw [hsil.shm]; rfl⟩
  | vm2 =>
    rw [runsInit_iff hgoes.client hq]
    rcases hlearns with ⟨hi, hann⟩ | ⟨hi, hsil⟩
    · have hsig : r.out.filterMap Effect.signal? = [((s.shm.vm .vm1).id.toInt, eventfdVmId)] :=
        hann.signals
      refine Or.inr ⟨hi, _, hgoes.self, ?_, deliver_slot hsig hpend⟩
      rw [hshm, hann.shm, hframe.vmId]
      rfl
    · refine Or.inl ⟨hi, hnone hsil.signals, ?_⟩
      rw [hshm, hsil.shm]
      rfl

/-! ## Every step keeps the names -/

theorem mem_connects_client {m : Msg} {id : ℕ} (h : m ∈ connects n id) :
    ∀ fd ∈ m.fd, m.value = (fd.client : ℤ) := by
  obtain ⟨k, -, rfl⟩ := List.mem_map.1 h
  rintro fd ⟨⟩
  rfl

theorem named_join {id : ℕ} (hok : s.Ok n) (hn : s.Named) (h : NetStep n s (.join x id) s') :
    s'.Named := by
  have hs' := net_join h
  obtain ⟨-, hnew, -, rfl⟩ := hs'
  refine ⟨?_, ?_, ?_, ?_⟩
  · intro y d hd i
    rcases client_join h hd with ⟨rfl, rfl⟩ | ⟨-, d₀, hd₀, rfl⟩
    · exact Peer.filed_empty i
    · exact hn.slots hd₀ i
  · intro y d hd m hm
    rcases client_join h hd with ⟨rfl, rfl⟩ | ⟨-, d₀, hd₀, rfl⟩
    · have hm : m ∈ s.present n y.other ++ connects n id := hm
      rcases List.mem_append.1 hm with hm | hm
      · obtain ⟨c, -, hm⟩ := mem_present hm
        exact mem_connects_client hm
      · exact mem_connects_client hm
    · rw [Client.push_backlog (hok.client hd₀)] at hm
      rcases List.mem_append.1 hm with hm | hm
      · exact hn.queued hd₀ m hm
      · exact mem_connects_client hm
  · intro fd hp
    exact List.mem_cons_of_mem id (hn.given fd hp)
  · intro c hc hp
    rcases client_join h hc with ⟨rfl, rfl⟩ | ⟨-, d₀, hd₀, rfl⟩
    · -- nothing is pending for an id that is new
      exact absurd (hn.given _ hp) hnew
    · exact hn.answer d₀ hd₀ hp

theorem named_leave (hok : s.Ok n) (hn : s.Named) (h : NetStep n s (.leave x) s') : s'.Named := by
  have hs' := net_leave h
  obtain ⟨c, hc, rfl⟩ := hs'
  refine ⟨?_, ?_, hn.given, ?_⟩
  · intro y d hd i
    obtain ⟨-, -, d₀, -, hd₀, rfl⟩ := client_leave h hd
    exact hn.slots hd₀ i
  · intro y d hd m hm
    obtain ⟨-, c', d₀, -, hd₀, rfl⟩ := client_leave h hd
    rw [Client.push_backlog (hok.client hd₀)] at hm
    rcases List.mem_append.1 hm with hm | hm
    · exact hn.queued hd₀ m hm
    · rw [List.mem_singleton] at hm
      subst hm
      nofun
  · intro d hd hp
    obtain ⟨-, c', d₀, -, hd₀, rfl⟩ := client_leave h hd
    exact hn.answer d₀ hd₀ hp

/-- One device goes on. -/
theorem Net.Named.go {c c' : Client x} (hn : s.Named) (h : s.Goes s' c c')
    (hslots : ∀ i, (c'.dev.peer i).Filed i) (hsub : c'.backlog ⊆ c.backlog)
    (hgiven : ∀ fd, s'.pending fd = true → fd.client ∈ s.used)
    (hanswer : ∀ d ∈ s.client .vm1, s'.pending ⟨d.id, eventfdVmId⟩ = true →
      (s'.shm.vm .vm2).id.toInt ≠ -1) : s'.Named where
  slots := by
    intro y d hd
    rcases eq_or_ne y x with rfl | hy
    · rw [h.self, Option.some_inj] at hd
      exact hd ▸ hslots
    · rw [h.of_ne hy] at hd
      exact hn.slots hd
  queued := by
    intro y d hd m hm
    rcases eq_or_ne y x with rfl | hy
    · rw [h.self, Option.some_inj] at hd
      subst hd
      exact hn.queued h.client m (hsub hm)
    · rw [h.of_ne hy] at hd
      exact hn.queued hd m hm
  given := by
    rw [h.used]
    exact hgiven
  answer := by
    intro d hd hp
    obtain ⟨d₀, hd₀, hid⟩ := h.back hd
    rw [← hid] at hp
    exact hanswer d₀ hd₀ hp

theorem named_realize (hok : s.Ok n) (hn : s.Named) (h : NetStep n s (.realize x env) s') :
    s'.Named := by
  obtain ⟨c, c', hgoes, -, -, hback, -, -, hpeer, hids, hpend⟩ := goes_realize hok h
  refine hn.go hgoes (fun i => ?_) (by rw [hback]; exact List.Subset.refl _) ?_ ?_
  · rw [(hpeer i).1]
    exact Peer.filed_empty i
  · rw [hpend]
    exact hn.given
  · rw [hpend, hids]
    exact hn.answer

/-- The client of a slot that is filled has an id that was given out. -/
theorem slot_given (hok : s.Ok n) {c : Client x} (hc : s.client x = some c) {i k : ℕ} {fd : Fd}
    (h : (c.dev.peer i).eventfds[k]? = some (some fd)) : i ∈ s.used := by
  by_contra hi
  rw [(hok.client hc).unknown i hi] at h
  simp [Peer.empty, List.getElem?_replicate] at h

theorem named_recv (hok : s.Ok n) (hn : s.Named) (h : NetStep n s (.recv x env) s') :
    s'.Named := by
  have hok' := ok_recv hok h
  obtain ⟨c, c', m, queue, r, err, hgoes, hr, hq, hm, rfl, -, -⟩ := goes_recv h
  obtain ⟨hpeer, hframe, -, -⟩ := processMsg_spec hm
  have hback : c.backlog = m :: queue := (Client.backlog_realized hr).trans hq
  have hr' : r.dev.realized = true := hframe.realized.trans hr
  have hback' : ({ c with dev := r.dev, queue := queue } : Client x).backlog = queue :=
    Client.backlog_realized hr'
  have hslots : ∀ i, (r.dev.peer i).Filed i := by
    intro i
    rw [hpeer]
    refine Peer.Filed.entryAfter (hn.slots hgoes.client i) ?_
    exact hn.queued hgoes.client m (by rw [hback]; exact List.mem_cons_self)
  have hsub : queue ⊆ m :: queue := List.subset_cons_self _ _
  rcases recv_events h with ⟨-, hpend, hid⟩ | ⟨hrun, c₂, hc₂, hid, o, ho, hpend⟩
  · refine hn.go hgoes hslots (by rw [hback', hback]; exact hsub) ?_ ?_
    · rw [hpend]
      exact hn.given
    · rw [hpend, hid]
      exact hn.answer
  · obtain rfl : x = .vm2 := hrun.1
    refine hn.go hgoes hslots (by rw [hback', hback]; exact hsub) ?_ ?_
    · intro fd hp
      rcases hpend with ⟨-, hpend⟩ | ⟨f, rfl, hpend⟩
      · rw [hpend] at hp
        exact hn.given fd hp
      · rw [hpend] at hp
        by_cases hfd : fd = f
        · subst hfd
          have hslot := IVShmemState.notifier_ok ho
          have hused := slot_given hok' hc₂ hslot
          rw [hgoes.used] at hused
          have hc₂' : s'.client .vm2 = some c₂ := hc₂
          rw [hgoes.self, Option.some_inj] at hc₂'
          subst hc₂'
          rw [(hslots _ _ _ hslot).1]
          exact hused
        · rw [Function.update_of_ne hfd] at hp
          exact hn.given fd hp
    · -- the second machine has just written its id
      intro d _ _
      have hc₂' := hok'.client hc₂
      have hc₂self : s'.client .vm2 = some c₂ := hc₂
      rw [hgoes.self, Option.some_inj] at hc₂self
      subst hc₂self
      rw [hid, hc₂'.vmId hr', toInt_ofInt hc₂'.max]
      omega

theorem named_notify {vector : ℕ} (hok : s.Ok n) (hn : s.Named)
    (h : NetStep n s (.notify x vector) s') : s'.Named := by
  obtain ⟨c, c', fd, hgoes, -, -, hshm, hpend, rfl⟩ := goes_notify hok h
  have hmono : ∀ f, s'.pending f = true → s.pending f = true := by
    intro f hp
    rw [hpend] at hp
    by_cases hf : f ∈ fd
    · obtain rfl : fd = some f := hf
      have hp' : update s.pending f false f = true := hp
      rw [Function.update_self] at hp'
      cases hp'
    · rwa [Net.testAndClear_of_notMem hf] at hp
  refine hn.go hgoes (fun i => hn.slots hgoes.client i) (List.Subset.refl _)
    (fun f hp => hn.given f (hmono f hp)) ?_
  rw [hshm]
  exact fun d hd hp => hn.answer d hd (hmono _ hp)

theorem named_step (hok : s.Ok n) (hn : s.Named) (h : NetStep n s a s') : s'.Named := by
  cases a with
  | join x id => exact named_join hok hn h
  | leave x => exact named_leave hok hn h
  | realize x env => exact named_realize hok hn h
  | recv x env => exact named_recv hok hn h
  | notify x vector => exact named_notify hok hn h

end

section
variable {n : ℕ} {s s' : Bridge} {a : BridgeAct} {b : Act} {t : List (Bridge × BridgeAct)}
  {shm : IdtIvshmemShmStorage} {ram : Vm → Ram}

/-- **The events of an access**: a guest makes its device signal the interrupt notifier of the client
    whose id the device holds, or nobody. -/
theorem access_signals (h : BridgeStep n s (.access b) s') : s'.net.pending = s.net.pending ∨
    ∃ x, ∃ c : Client x, s.net.client x = some c ∧ ∃ fd,
      c.dev.notifier c.dev.otherVmId eventfdInterruptHost = .ok (some fd) ∧
      s'.net.pending = update s.net.pending fd true := by
  obtain ⟨x, c, hx, hc, -, hst, -⟩ := bridge_access h
  rcases access_delivers hx hst with ⟨-, o, ho, ⟨-, hpend⟩ | ⟨fd, rfl, hpend⟩⟩ | ⟨-, hpend⟩
  · exact Or.inl hpend
  · rw [Bridge.sys_dev hc] at ho
    exact Or.inr ⟨x, c, hc, fd, ho, hpend⟩
  · exact Or.inl hpend

/-- It is never the EVENTFD_VM_ID notifier of a device that is there. -/
theorem signals_interrupt {s : Net} (hok : s.Ok n) (hn : s.Named) {x y : Vm} {c : Client x}
    (hc : s.client x = some c) {d : Client y} (hd : s.client y = some d) {i : ℤ} {fd : Fd}
    (h : c.dev.notifier i eventfdInterruptHost = .ok (some fd)) : fd ≠ ⟨d.id, eventfdVmId⟩ := by
  rintro rfl
  have hslot := IVShmemState.notifier_ok h
  have hid : d.id = i.toNat := (hn.slots hc _ _ _ hslot).1
  rw [← hid] at hslot
  have hvec := (hok.feed hc hd).slots _ _ hslot
  exact absurd (Fd.mk.inj hvec).2 (by decide)

theorem bridge_named_step (hin : Inbounds n (s, a)) (hok : s.net.Ok n) (hn : s.net.Named)
    (h : BridgeStep n s a s') : s'.net.Named := by
  have htuning : ∀ {x : Vm} {c c' : Client x}, Tuning s.net s'.net c c' →
      (∀ fd, s'.net.pending fd = true → fd.client ∈ s.net.used) →
      (∀ d ∈ s.net.client .vm1, s'.net.pending ⟨d.id, eventfdVmId⟩ = true →
        s.net.pending ⟨d.id, eventfdVmId⟩ = true) → s'.net.Named := by
    intro x c c' ht hgiven hback
    refine hn.go ht.goes (fun i => ?_) (by rw [ht.backlog]; exact List.Subset.refl _) hgiven ?_
    · rw [ht.peer]
      exact hn.slots ht.goes.client i
    · rw [ht.id]
      exact fun d hd hp => hn.answer d hd (hback d hd hp)
  cases a with
  | net b => exact named_step hok hn (bridge_net h).1
  | place x bars =>
    obtain ⟨c, c', ht⟩ := tuning_place h
    obtain ⟨-, -, -, -, -, hpend, -⟩ := bridge_place h
    refine htuning ht ?_ ?_
    · rw [hpend]
      exact hn.given
    · rw [hpend]
      exact fun _ _ hp => hp
  | access b =>
    obtain ⟨x, c, c', ht⟩ := tuning_access hin h
    rcases access_signals h with hpend | ⟨z, d, hd, fd, hfd, hpend⟩
    · refine htuning ht ?_ ?_
      · rw [hpend]
        exact hn.given
      · rw [hpend]
        exact fun _ _ hp => hp
    · rw [hpend] at htuning
      refine htuning ht ?_ ?_
      · intro f hp
        by_cases hf : f = fd
        · subst hf
          have hslot := IVShmemState.notifier_ok hfd
          rw [(hn.slots hd _ _ _ hslot).1]
          exact slot_given hok hd hslot
        · rw [Function.update_of_ne hf] at hp
          exact hn.given f hp
      · intro e he hp
        rwa [Function.update_of_ne (signals_interrupt hok hn hd he hfd).symm] at hp

theorem bridge_named (h : Run (BridgeStep n) (.start shm ram) t s) (hin : ∀ e ∈ t, Inbounds n e) :
    s.net.Named := by
  refine (h.inv_of (fun s => s.net.Ok n ∧ s.net.Named) (Inbounds n)
    ⟨ok_start n shm, named_start shm⟩ ?_ hin).2
  rintro s a s' ⟨hok, hn⟩ hin hst
  exact ⟨bridge_ok_step hin hok hst, bridge_named_step hin hok hn hst⟩

end

/-! ## Hearing of the peer -/

/-- The first machine's device holds an id of its peer, or has the event pending that makes it read
    one. -/
def Net.Hears (s : Net) : Prop := ∃ c ∈ s.client .vm1,
  c.dev.otherVmId ≠ -1 ∨ s.pending ⟨c.id, eventfdVmId⟩ = true

/-- The second machine's device announces its id while the first one's is there, is the one whose id is
    in the block, and has its notifier in the table. -/
def Calls (e : Net × NetAct) : Prop := RunsInit .vm2 e ∧
  ∃ c₁ ∈ e.1.client .vm1, ∃ c₂ ∈ e.1.client .vm2,
    (e.1.shm.vm .vm1).id.toInt = c₁.id ∧ 0 < (c₂.dev.peer c₁.id).nbEventfds

section
variable {n : ℕ} {s s' : Net} {a : NetAct} {x : Vm} {env : Env}

theorem hears_iff {c : Client .vm1} (hc : s.client .vm1 = some c) :
    s.Hears ↔ c.dev.otherVmId ≠ -1 ∨ s.pending ⟨c.id, eventfdVmId⟩ = true := by
  constructor
  · rintro ⟨d, hd, h⟩
    obtain rfl : c = d := Option.some_inj.1 (hc.symm.trans hd)
    exact h
  · exact fun h => ⟨c, hc, h⟩

theorem not_hears_of_none (hc : s.client .vm1 = none) : ¬ s.Hears := by
  rintro ⟨c, hc', -⟩
  exact absurd (hc.symm.trans hc') nofun

/-- The first machine's device and its event are as they were. -/
theorem hears_same (h0 : s.client .vm1 = none → s'.client .vm1 = none)
    (h : ∀ c, s.client .vm1 = some c → ∃ c', s'.client .vm1 = some c' ∧ c'.id = c.id ∧
      c'.dev.otherVmId = c.dev.otherVmId ∧
      s'.pending ⟨c.id, eventfdVmId⟩ = s.pending ⟨c.id, eventfdVmId⟩) : s'.Hears ↔ s.Hears := by
  cases hc : s.client .vm1 with
  | none => exact iff_of_false (not_hears_of_none (h0 hc)) (not_hears_of_none hc)
  | some c =>
    obtain ⟨c', hc', hid, hother, hpend⟩ := h c hc
    rw [hears_iff hc', hears_iff hc, hid, hother, hpend]

/-- Another device goes on, and leaves its event alone. -/
theorem hears_goes {c c' : Client x} (h : s.Goes s' c c') (hx : x = .vm2)
    (hp : ∀ d ∈ s.client .vm1, s'.pending ⟨d.id, eventfdVmId⟩ = s.pending ⟨d.id, eventfdVmId⟩) :
    s'.Hears ↔ s.Hears := by
  have hne : Vm.vm1 ≠ x := by rw [hx]; decide
  refine hears_same (fun hc => (h.of_ne hne).trans hc) fun d hd => ?_
  exact ⟨d, (h.of_ne hne).trans hd, rfl, rfl, hp d hd⟩

theorem not_calls (ha : ∀ env, a ≠ .recv .vm2 env) : ¬ Calls (s, a) :=
  fun h => not_runsInit ha h.1

theorem hears_join {id : ℕ} (hn : s.Named) (h : NetStep n s (.join x id) s') :
    s'.Hears ↔ s.Hears := by
  have hs' := net_join h
  obtain ⟨hnone, hnew, -, rfl⟩ := hs'
  cases x with
  | vm1 =>
    refine iff_of_false ?_ (not_hears_of_none hnone)
    rintro ⟨c, hc, hears⟩
    rcases client_join h hc with ⟨hx, rfl⟩ | ⟨hx, -⟩
    · rcases hears with hother | hpend
      · exact hother rfl
      · exact hnew (hn.given _ hpend)
    · exact absurd hx (by decide)
  | vm2 =>
    refine hears_same (fun hc => ?_) fun c hc => ⟨c.push (connects n id), ?_, rfl, rfl, rfl⟩
    · show Option.map _ (s.client .vm1) = none
      rw [hc]
      rfl
    · show Option.map _ (s.client .vm1) = some _
      rw [hc]
      rfl

theorem hears_leave (h : NetStep n s (.leave x) s') : s'.Hears ↔ s.Hears ∧ x ≠ .vm1 := by
  have hs' := net_leave h
  obtain ⟨c, hc, rfl⟩ := hs'
  cases x with
  | vm1 =>
    refine iff_of_false ?_ fun hn => hn.2 rfl
    rintro ⟨d, hd, -⟩
    obtain ⟨hx, -⟩ := client_leave h hd
    exact absurd hx (by decide)
  | vm2 =>
    rw [and_iff_left (by decide)]
    refine hears_same (fun hd => ?_) fun d hd => ⟨d.push [⟨c.id, none⟩], ?_, rfl, rfl, rfl⟩
    · show Option.map _ (s.client .vm1) = none
      rw [hd]
      rfl
    · show Option.map _ (s.client .vm1) = some _
      rw [hd]
      rfl

theorem hears_realize (hok : s.Ok n) (h : NetStep n s (.realize x env) s') :
    s'.Hears ↔ s.Hears := by
  obtain ⟨c, c', hgoes, -, -, -, -, -, -, -, hpend⟩ := goes_realize hok h
  cases x with
  | vm1 =>
    -- neither the fresh nor the realized device holds an id
    obtain ⟨c₀, r, rest, hc₀, hr, hrz, hf⟩ := net_realize h
    obtain ⟨hgoes₀, -, -⟩ := Net.finish_goes hc₀ hf
    obtain ⟨hdev, -⟩ := (hok.client hc₀).waits hr
    have hctx : c₀.ctx s.shm = ⟨s.shm, .init .vm1 n (fun _ => default) 0, []⟩ := by
      rw [Client.ctx, hdev]
    rw [hctx] at hrz
    have hother : r.dev.otherVmId = -1 := (realized_of_realize hrz).otherVmId
    rw [hears_iff hgoes₀.self, hears_iff hc₀, hpend, hother, hdev]
    exact Iff.rfl
  | vm2 => exact hears_goes hgoes rfl fun _ _ => by rw [hpend]

theorem hears_notify {vector : ℕ} (hok : s.Ok n) (hn : s.Named)
    (h : NetStep n s (.notify x vector) s') : s'.Hears ↔ s.Hears := by
  obtain ⟨c, c', fd, hgoes, -, hslot, -, hpend, rfl⟩ := goes_notify hok h
  cases x with
  | vm1 =>
    rw [hears_iff hgoes.self, hears_iff hgoes.client]
    by_cases hmem : (⟨c.id, eventfdVmId⟩ : Fd) ∈ fd
    · obtain rfl : fd = some _ := hmem
      obtain rfl : eventfdVmId = vector := (Fd.mk.inj (hslot _ rfl)).2
      dsimp only
      cases hp : s.pending ⟨c.id, eventfdVmId⟩ with
      | true =>
        -- the event is taken, and what is read is an id
        rw [if_pos ⟨hp, rfl⟩]
        exact iff_of_true (Or.inl (hn.answer c hgoes.client hp)) (Or.inr rfl)
      | false =>
        have hclear : s'.pending ⟨c.id, eventfdVmId⟩ = false := by
          rw [hpend]
          exact Function.update_self _ _ _
        have hany : ¬ ((some (⟨c.id, eventfdVmId⟩ : Fd)).any s.pending = true ∧
            eventfdVmId = eventfdVmId) := by
          rw [Option.any_some, hp]
          nofun
        rw [if_neg hany, hclear]
    · have hany : ¬ (fd.any s.pending = true ∧ vector = eventfdVmId) := by
        rintro ⟨hp, rfl⟩
        cases fd with
        | none => cases hp
        | some f => exact hmem (congrArg some (hslot f rfl))
      dsimp only
      rw [if_neg hany, hpend, Net.testAndClear_of_notMem hmem]
  | vm2 =>
    refine hears_goes hgoes rfl fun d hd => ?_
    rw [hpend, Net.testAndClear_of_notMem]
    intro hmem
    exact hok.distinct hd hgoes.client (by decide) (Fd.mk.inj (hslot _ hmem)).1

theorem notifier_nonneg {d : IVShmemState x} {i : ℤ} {k : ℕ} {o : Option Fd}
    (h : d.notifier i k = .ok o) : 0 ≤ i := by
  by_contra hneg
  unfold IVShmemState.notifier at h
  rw [if_neg hneg] at h
  cases h

/-- What the second machine's device signals when it announces its id is the event of the first one
    exactly if this is a call. -/
theorem calls_iff (hok : s.Ok n) (hn : s.Named) (h : NetStep n s (.recv .vm2 env) s')
    (hrun : RunsInit .vm2 (s, .recv .vm2 env)) {c₁ : Client .vm1} (hc₁ : s.client .vm1 = some c₁)
    {c₂ : Client .vm2} (hc₂ : s'.client .vm2 = some c₂) {o : Option Fd}
    (ho : c₂.dev.notifier (s.shm.vm .vm1).id.toInt eventfdVmId = .ok o) :
    Calls (s, .recv .vm2 env) ↔ o = some ⟨c₁.id, eventfdVmId⟩ := by
  have hok' := ok_recv hok h
  have hn' := named_recv hok hn h
  obtain ⟨c, c', m, queue, r, err, hgoes, hr, hq, hm, rfl, -, -⟩ := goes_recv h
  rw [hgoes.self, Option.some_inj] at hc₂
  subst hc₂
  have hc₁' : s'.client .vm1 = some c₁ := (hgoes.of_ne (by decide)).trans hc₁
  -- the message is about the device itself
  have hsame : r.dev.peer c₁.id = c.dev.peer c₁.id := by
    obtain ⟨-, hv, -⟩ := (runsInit_iff hgoes.client hq).1 hrun
    obtain ⟨hpeer, -⟩ := processMsg_spec hm
    rw [hpeer]
    refine entryAfter_of_ne ?_
    rw [hv, (hok.client hgoes.client).vmId hr]
    intro he
    exact hok.distinct hc₁ hgoes.client (by decide) (Int.natCast_inj.1 he).symm
  constructor
  · rintro ⟨-, d₁, hd₁, d₂, hd₂, hid, hnb⟩
    obtain rfl : c₁ = d₁ := Option.some_inj.1 (hc₁.symm.trans hd₁)
    obtain rfl : c = d₂ := Option.some_inj.1 (hgoes.client.symm.trans hd₂)
    have hid' : (s.shm.vm .vm1).id.toInt = c₁.id := hid
    obtain ⟨-, -, fd, hfd⟩ := (hok'.client hgoes.self).table.notifier (i := c₁.id)
      (k := eventfdVmId) (by
        rw [IVShmemState.nbEventfds_natCast]
        show 0 < (r.dev.peer c₁.id).nbEventfds
        rw [hsame]
        exact hnb)
    rw [hid'] at ho
    obtain rfl : o = some fd := Except.ok.inj (ho.symm.trans hfd)
    rw [(hok'.feed hgoes.self hc₁').slots _ _ (IVShmemState.notifier_ok hfd)]
  · rintro rfl
    have hslot := IVShmemState.notifier_ok ho
    obtain ⟨hid, hlt⟩ := hn'.slots hgoes.self _ _ _ hslot
    have hid' : c₁.id = (s.shm.vm .vm1).id.toInt.toNat := hid
    have hpos := notifier_nonneg ho
    refine ⟨hrun, c₁, hc₁, c, hgoes.client, ?_, ?_⟩
    · show (s.shm.vm .vm1).id.toInt = c₁.id
      omega
    · have hlt' : 0 < (r.dev.peer (s.shm.vm .vm1).id.toInt.toNat).nbEventfds := hlt
      rwa [← hid', hsame] at hlt'

theorem hears_recv (hok : s.Ok n) (hn : s.Named) (h : NetStep n s (.recv x env) s') :
    s'.Hears ↔ Calls (s, .recv x env) ∨ s.Hears := by
  obtain ⟨c, c', m, queue, r, err, hgoes, hr, hq, hm, rfl, -, -⟩ := goes_recv h
  rcases recv_events h with ⟨hrun, hpend, -⟩ | ⟨hrun, c₂, hc₂, -, o, ho, hpend⟩
  · have hno : ¬ Calls (s, .recv x env) := fun hcall => hrun hcall.1
    rw [or_iff_right hno]
    cases x with
    | vm1 =>
      -- the first machine's device reads no id when it announces its own
      obtain ⟨-, -, hlearns, -⟩ := processMsg_spec hm
      have hother : r.dev.otherVmId = c.dev.otherVmId := by
        rcases hlearns with ⟨-, hann⟩ | ⟨-, hsil⟩
        · exact hann.otherVmId
        · exact hsil.otherVmId
      rw [hears_iff hgoes.self, hears_iff hgoes.client, hpend]
      dsimp only
      rw [hother]
    | vm2 => exact hears_goes hgoes rfl fun _ _ => by rw [hpend]
  · obtain rfl : x = .vm2 := hrun.1
    cases hc₁ : s.client .vm1 with
    | none =>
      have hc₁' : s'.client .vm1 = none := (hgoes.of_ne (by decide)).trans hc₁
      refine iff_of_false (not_hears_of_none hc₁') ?_
      rintro (⟨-, d, hd, -⟩ | hears)
      · exact absurd (hc₁.symm.trans hd) nofun
      · exact not_hears_of_none hc₁ hears
    | some c₁ =>
      have hc₁' : s'.client .vm1 = some c₁ := (hgoes.of_ne (by decide)).trans hc₁
      rw [calls_iff hok hn h hrun hc₁ hc₂ ho, hears_iff hc₁', hears_iff hc₁]
      rcases hpend with ⟨rfl, hpend⟩ | ⟨fd, rfl, hpend⟩
      · rw [hpend]
        simp
      · rw [hpend]
        by_cases hfd : fd = ⟨c₁.id, eventfdVmId⟩
        · subst hfd
          simp
        · rw [Function.update_of_ne (Ne.symm hfd)]
          simp [hfd]

/-- **One step of the server and the devices**: a call makes the first machine's device hear, and it
    hears until it leaves. -/
theorem hears_net (hok : s.Ok n) (hn : s.Named) (h : NetStep n s a s') :
    s'.Hears ↔ Calls (s, a) ∨ (s.Hears ∧ a ≠ .leave .vm1) := by
  cases a with
  | join x id =>
    rw [hears_join hn h]
    simp [not_calls]
  | leave x =>
    rw [hears_leave h]
    simp [not_calls]
  | realize x env =>
    rw [hears_realize hok h]
    simp [not_calls]
  | recv x env =>
    rw [hears_recv hok hn h]
    simp
  | notify x vector =>
    rw [hears_notify hok hn h]
    simp [not_calls]

end

/-! ## Whole runs -/

/-- A step of the server or of a device that does `P`. -/
def OnNet (P : Net × NetAct → Prop) (e : Bridge × BridgeAct) : Prop :=
  ∃ b, e.2 = .net b ∧ P (e.1.net, b)

/-- The device of `x` leaves. -/
def Leaving (x : Vm) (e : Net × NetAct) : Prop := e.2 = .leave x

section
variable {n : ℕ} {s s' : Bridge} {a : BridgeAct} {t t' : List (Bridge × BridgeAct)}
  {shm : IdtIvshmemShmStorage} {ram : Vm → Ram}

theorem onNet_iff {P : Net × NetAct → Prop} {b : NetAct} :
    OnNet P (s, .net b) ↔ P (s.net, b) := by
  constructor
  · rintro ⟨b', hb, h⟩
    rwa [BridgeAct.net.inj hb]
  · exact fun h => ⟨b, rfl, h⟩

/-- What the guests do teaches no ids. -/
theorem hears_guest (hok : s.net.Ok n) (hn : s.net.Named) (hin : Inbounds n (s, a))
    (ha : ∀ b, a ≠ .net b) (h : BridgeStep n s a s') : s'.net.Hears ↔ s.net.Hears := by
  have hpend : ∀ d ∈ s.net.client .vm1,
      s'.net.pending ⟨d.id, eventfdVmId⟩ = s.net.pending ⟨d.id, eventfdVmId⟩ := by
    intro d hd
    cases a with
    | net b => exact absurd rfl (ha b)
    | place x bars =>
      obtain ⟨-, -, -, -, -, hp, -⟩ := bridge_place h
      rw [hp]
    | access b =>
      rcases access_signals h with hp | ⟨z, e, he, fd, hfd, hp⟩
      · rw [hp]
      · rw [hp, Function.update_of_ne (signals_interrupt hok hn he hd hfd).symm]
  rcases bridge_cases hin h with ⟨b, hb, -⟩ | ⟨-, x, c, c', ht⟩
  · exact absurd hb (ha b)
  · cases x with
    | vm1 =>
      refine hears_same (fun hnone => absurd (hnone.symm.trans ht.goes.client) nofun) fun d hd => ?_
      obtain rfl : c = d := Option.some_inj.1 (ht.goes.client.symm.trans hd)
      exact ⟨c', ht.goes.self, ht.goes.id, ht.dev.2.2.2.2.1, hpend c hd⟩
    | vm2 => exact hears_goes ht.goes rfl hpend

/-- **One step**: a call makes the first machine's device hear, and it hears until it leaves. -/
theorem heard_step (hok : s.net.Ok n) (hn : s.net.Named) (hin : Inbounds n (s, a))
    (h : BridgeStep n s a s') : s'.net.Hears ↔
      OnNet Calls (s, a) ∨ (s.net.Hears ∧ ¬ OnNet (Leaving .vm1) (s, a)) := by
  by_cases ha : ∃ b, a = .net b
  · obtain ⟨b, rfl⟩ := ha
    rw [onNet_iff, onNet_iff]
    exact hears_net hok hn (bridge_net h).1
  · have hno : ∀ P, ¬ OnNet P (s, a) := fun P ⟨b, hb, _⟩ => ha ⟨b, hb⟩
    rw [hears_guest hok hn hin (fun b hb => ha ⟨b, hb⟩) h]
    simp [hno]

/-- **When the first machine hears of the second**, in eventfd mode: its device holds an id of its
    peer, or has the event pending that makes it read one, exactly if the second machine's device has
    called it since it joined. -/
theorem heard_iff (h : Run (BridgeStep n) (.start shm ram) t s) (ht : ∀ e ∈ t, Tame n e)
    {c : Client .vm1} (hc : s.net.client .vm1 = some c) :
    (c.dev.otherVmId ≠ -1 ∨ s.net.pending ⟨c.id, eventfdVmId⟩ = true) ↔
      Since (OnNet Calls) (OnNet (Leaving .vm1)) t := by
  rw [← hears_iff hc]
  refine h.latch (fun s => s.net.Hears) (not_hears_of_none rfl) ?_
  intro e he s' hst
  obtain ⟨t₁, t₂, -, rfl, hrun, -⟩ := h.fired he
  have hin : ∀ e ∈ t₁, Inbounds n e := fun e he => (ht e (by simp [he])).toInbounds
  exact heard_step (bridge_ok hrun hin) (bridge_named hrun hin) (ht e he).toInbounds hst

/-- **A first machine that comes back alone is never paired**: after its device has left, the two do not
    pair until the second machine's device announces its id again. -/
theorem not_paired_alone (h : Run (BridgeStep n) (.start shm ram) t s)
    (hin : ∀ e ∈ t, Inbounds n e) (hnone : s.net.client .vm1 = none)
    (h' : Run (BridgeStep n) s t' s') (hin' : ∀ e ∈ t', Inbounds n e)
    (hno : ∀ e ∈ t', ¬ OnNet (RunsInit .vm2) e) : ¬ s'.net.Paired := by
  have hears : ¬ s'.net.Hears := by
    refine (h'.inv_of (fun s => (s.net.Ok n ∧ s.net.Named) ∧ ¬ s.net.Hears)
      (fun e => Inbounds n e ∧ ¬ OnNet (RunsInit .vm2) e)
      ⟨⟨bridge_ok h hin, bridge_named h hin⟩, not_hears_of_none hnone⟩ ?_
      fun e he => ⟨hin' e he, hno e he⟩).2
    rintro s a s' ⟨⟨hok, hn⟩, hears⟩ ⟨hin, hno⟩ hst
    refine ⟨⟨bridge_ok_step hin hok hst, bridge_named_step hin hok hn hst⟩, ?_⟩
    rw [heard_step hok hn hin hst]
    rintro (⟨b, hb, hcall⟩ | ⟨hold, -⟩)
    · exact hno ⟨b, hb, hcall.1⟩
    · exact hears hold
  intro hp
  obtain ⟨c, hc⟩ := hp.present .vm1
  obtain ⟨d, hd⟩ := hp.present .vm2
  have hknow := (hp.knows hc hd).other
  refine hears ((hears_iff hc).2 (Or.inl ?_))
  rw [hknow]
  omega

end

theorem heard_iff_up : ∃ s : Bridge,
    exec (Bridge.next 2) (.start default blankRam) (pairUp.map .net) = .ok s ∧
      Since (OnNet Calls) (OnNet (Leaving .vm1))
        (trace (Bridge.next 2) (.start default blankRam) (pairUp.map .net)) := by
  obtain ⟨s, hs, c, hc, hother⟩ : ∃ s : Bridge,
      exec (Bridge.next 2) (.start default blankRam) (pairUp.map .net) = .ok s ∧
        ∃ c : Client .vm1, s.net.client .vm1 = some c ∧ c.dev.otherVmId = 1 :=
    ⟨_, rfl, _, rfl, rfl⟩
  refine ⟨s, hs, (heard_iff (Run.of_exec hs) (tame_net eventfd_pairUp) hc).1 (Or.inl ?_)⟩
  rw [hother]
  decide

/-- The first machine comes back, and is told of the second. -/
def comesBack : List NetAct := comesUp .vm1 2 4

/-- The two machines come up, and the first one goes. -/
def pairAndLeave : List NetAct := pairUp ++ [.leave .vm1]

theorem not_paired_alone_back : ∃ s s' : Bridge,
    exec (Bridge.next 2) (.start default blankRam) (pairAndLeave.map .net) = .ok s ∧
      exec (Bridge.next 2) s (comesBack.map .net) = .ok s' ∧ ¬ s'.net.Paired := by
  obtain ⟨s, s', hs, hs', hnone⟩ : ∃ s s' : Bridge,
      exec (Bridge.next 2) (.start default blankRam) (pairAndLeave.map .net) = .ok s ∧
        exec (Bridge.next 2) s (comesBack.map .net) = .ok s' ∧ s.net.client .vm1 = none :=
    ⟨_, _, rfl, rfl, rfl⟩
  refine ⟨s, s', hs, hs', not_paired_alone (Run.of_exec hs) inbounds_net hnone (Run.of_exec hs')
    inbounds_net ?_⟩
  rintro e he ⟨b, hb, hrun⟩
  obtain ⟨b', hmem, hb'⟩ := List.mem_map.1 (mem_of_mem_trace he)
  obtain rfl : b' = b := BridgeAct.net.inj (hb'.trans hb)
  refine not_runsInit (fun env h => ?_) hrun
  subst h
  simp [comesBack, comesUp] at hmem

end IdtNtb
