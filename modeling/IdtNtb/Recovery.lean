/-
  Restarting the second machine can make the pair.

  A bridge can be brought to many states in which its devices do not know each
  other: the machines came up in the wrong order, one of them went away and came
  back, a signal was sent before there was a notifier for it.  In eventfd mode none
  of them has to last: whatever has happened, the device of the second machine can
  leave and join again, once the first machine's device has worked off its
  messages:

  * `Net.Alone`: the first machine's device is there without a peer, which it is
    brought to from any state (`attains_alone`, `attains_idle`);
  * `attains_meeting`: a second machine that joins it then meets it;
  * `Meeting.attains`: devices that meet can work off what is left, and are paired;
  * `restart_pairs`: so the bridge is never lost.  The first machine's device need
    not leave, and no guest has to do anything.
-/
import IdtNtb.Faults
import IdtNtb.Lib.Progress
import IdtNtb.Meeting

namespace IdtNtb

open Runs

/-- The device of the first machine stays, and the devices are in eventfd mode. -/
def NetAct.Stays (a : NetAct) : Prop := a ≠ .leave .vm1 ∧ a.Eventfd

/-- The second machine's device is not there, and there is an id for it. -/
structure Net.Alone (n j : ℕ) (s : Net) : Prop where
  sound : s.Sound n
  gone : s.client .vm2 = none
  free : j ∉ s.used

section
variable {n i j : ℕ} {s s' : Net} {a : NetAct}

/-! ## The first machine alone -/

/-- The device of the first machine goes on. -/
theorem Net.Alone.go (h : s.Alone n j) {c c' : Client .vm1} (hst : NetStep n s a s')
    (he : a.Eventfd) (hgoes : s.Goes s' c c') : s'.Alone n j := by
  refine ⟨sound_step h.sound hst he, ?_, ?_⟩
  · rw [hgoes.of_ne (by decide)]
    exact h.gone
  · rw [hgoes.used]
    exact h.free

theorem attains_alone (hs : s.Sound n) (hi : i ∉ s.used) (hj : j ∉ s.used) :
    Attains (NetStep n) NetAct.Stays (fun s => s.Alone n j ∧ i ∉ s.used) s := by
  refine Attains.unless (C := s.client .vm2 = none) (fun hnone => ⟨⟨hs, hnone, hj⟩, hi⟩) ?_
  intro hc
  obtain ⟨c, hc⟩ := Option.ne_none_iff_exists'.1 hc
  obtain ⟨s', hst⟩ : ∃ s', NetStep n s (.leave .vm2) s' := by
    simp only [NetStep, Net.next, hc]
    exact ⟨_, rfl⟩
  have hs' := sound_step hs hst trivial
  refine ⟨.leave .vm2, s', ⟨by simp, trivial⟩, hst, ?_⟩
  obtain ⟨d, -, rfl⟩ := net_leave hst
  refine ⟨⟨hs', ?_, hj⟩, hi⟩
  dsimp only
  rw [Function.update_self]

/-- A first machine that is not there joins. -/
theorem attains_present (h : s.Alone n j) (hi : i ∉ s.used) (hij : i ≠ j)
    (hmax : (i : ℤ) ≤ ivshmemMaxPeers) :
    Attains (NetStep n) NetAct.Stays (fun s => s.Alone n j ∧ ∃ c, s.client .vm1 = some c) s := by
  refine Attains.unless (C := ∃ c, s.client .vm1 = some c) (fun hc => ⟨h, hc⟩) fun hc => ?_
  have hnone : s.client .vm1 = none := by
    rw [Option.eq_none_iff_forall_ne_some]
    exact fun c hc' => hc ⟨c, hc'⟩
  obtain ⟨s', hst⟩ : ∃ s', NetStep n s (.join .vm1 i) s' := by
    simp only [NetStep, Net.next, hnone]
    rw [if_neg (by simp [hi, hmax])]
    exact ⟨_, rfl⟩
  have hs' := sound_step h.sound hst trivial
  refine ⟨.join .vm1 i, s', ⟨by simp, trivial⟩, hst, ?_⟩
  obtain ⟨-, -, -, rfl⟩ := net_join hst
  refine ⟨⟨hs', ?_, ?_⟩, .fresh .vm1 n i (s.present n .vm2 ++ connects n i), ?_⟩
  · dsimp only
    rw [Function.update_of_ne (by decide), h.gone]
    rfl
  · simpa [eq_comm] using And.intro hij h.free
  · dsimp only
    rw [Function.update_self]
    rfl

theorem attains_realized (h : s.Alone n j) {c : Client .vm1} (hc : s.client .vm1 = some c) :
    Attains (NetStep n) NetAct.Stays
      (fun s => s.Alone n j ∧ ∃ c, s.client .vm1 = some c ∧ c.dev.realized = true) s := by
  refine Attains.unless (C := c.dev.realized = true) (fun hr => ⟨h, c, hc, hr⟩) fun hr => ?_
  obtain ⟨s', hst⟩ := realize_completes h.sound.ok hc (by simpa using hr)
  obtain ⟨d, d', hgoes, -, hr', -⟩ := goes_realize h.sound.ok hst
  exact ⟨.realize .vm1 eventfdEnv, s', ⟨by simp, rfl⟩, hst, h.go hst rfl hgoes, d', hgoes.self, hr'⟩

/-- The device of the first machine signals nobody, so that no message is in its way. -/
theorem recv_first (hs : s.Receptive) {c : Client .vm1} (hc : s.client .vm1 = some c)
    (hr : c.dev.realized = true) (hq : c.queue ≠ []) (env : Env) :
    ∃ s', NetStep n s (.recv .vm1 env) s' := by
  obtain ⟨m, queue, hq⟩ := List.exists_cons_of_ne_nil hq
  obtain ⟨r, err, hm, -⟩ : ∃ r err, processMsg (c.ctx s.shm) m.value m.fd env = .ok (r, err) ∧
      Ready r := processMsg_ready (hs.ready hc hr) (hs.not_freed hc hr hq)
  refine recv_silent hc hr hq hm ?_
  obtain ⟨-, -, ⟨-, hann⟩ | ⟨-, hsil⟩, -⟩ := processMsg_spec hm
  · exact hann.signals
  · exact hsil.signals

/-- The device of the first machine is alone, and has nothing left to handle. -/
theorem attains_idle (h : s.Alone n j) {c : Client .vm1} (hc : s.client .vm1 = some c)
    (hr : c.dev.realized = true) :
    Attains (NetStep n) NetAct.Stays (fun s => s.Alone n j ∧
      ∃ c, s.client .vm1 = some c ∧ c.dev.realized = true ∧ c.queue = []) s := by
  refine (attains_zero (I := fun s => s.Alone n j ∧
    ∃ c, s.client .vm1 = some c ∧ c.dev.realized = true) (Net.waiting · .vm1) ?_
    ⟨h, c, hc, hr⟩).trans ?_
  · rintro s ⟨h, c, hc, hr⟩ hwait
    rw [Net.waiting_eq hc] at hwait
    obtain ⟨s', hst⟩ := recv_first (n := n) h.sound.served.toReceptive hc hr
      (List.length_pos_iff.1 (by omega)) eventfdEnv
    obtain ⟨d, d', m, queue, r, err, hgoes, hrd, hq, hm, rfl, -⟩ := goes_recv hst
    obtain ⟨-, hframe, -, -⟩ := processMsg_spec hm
    refine ⟨.recv .vm1 eventfdEnv, s', ⟨by simp, rfl⟩, hst, ⟨h.go hst rfl hgoes, _, hgoes.self,
      hframe.realized.trans hrd⟩, ?_⟩
    rw [Net.waiting_eq hgoes.self, Net.waiting_eq hgoes.client, hq]
    exact Nat.lt_succ_self _
  · rintro s' ⟨⟨h, c, hc, hr⟩, hzero⟩
    rw [Net.waiting_eq hc] at hzero
    exact attains_now ⟨h, c, hc, hr, List.length_eq_zero_iff.1 hzero⟩

/-! ## The second machine joins it -/

/-- A device that is realized is still behind those that it was behind. -/
theorem behind_realize {x : Vm} {p : ℕ} {env : Env} (hok : s.Ok n)
    (h : NetStep n s (.realize x env) s')
    {c c' : Client x} (hc : s.client x = some c) (hc' : s'.client x = some c')
    (hb : c.Behind p) : c'.Behind p := by
  obtain ⟨d, d', hgoes, -, -, hback, -, -, hpeer, -⟩ := goes_realize hok h
  obtain rfl : c = d := Option.some_inj.1 (hc.symm.trans hgoes.client)
  obtain rfl : c' = d' := Option.some_inj.1 (hc'.symm.trans hgoes.self)
  refine ⟨?_, ?_⟩
  · rw [hback, hgoes.id]
    exact hb.order
  · rw [(hpeer _).1]
    exact fun h0 => absurd h0 (Nat.lt_irrefl 0)

/-- The devices meet, and what they do is served. -/
structure Net.Meets (n : ℕ) (s : Net) : Prop where
  sound : s.Sound n
  meeting : ∃ c₁ c₂, s.Meeting c₁ c₂

/-- **A second machine that joins a first one without messages** meets it. -/
theorem attains_meeting (hn : 2 ≤ n) (h : s.Alone n j) (hmax : (j : ℤ) ≤ ivshmemMaxPeers)
    {c : Client .vm1} (hc : s.client .vm1 = some c) (hr : c.dev.realized = true)
    (hq : c.queue = []) : Attains (NetStep n) NetAct.Stays (Net.Meets n) s := by
  have hi : c.Inited := reaches_of_idle h.sound.ok hn hc hr hq hc
  obtain ⟨s₁, hst₁⟩ : ∃ s', NetStep n s (.join .vm2 j) s' := by
    simp only [NetStep, Net.next, h.gone]
    rw [if_neg (by simp [h.free, hmax])]
    exact ⟨_, rfl⟩
  have hs₁ := sound_step h.sound hst₁ trivial
  obtain ⟨c₁, c₂, hc₁, hc₂, hi₁, hr₂⟩ : ∃ (c₁ : Client .vm1) (c₂ : Client .vm2),
      s₁.client .vm1 = some c₁ ∧ s₁.client .vm2 = some c₂ ∧ c₁.Inited ∧
        c₂.dev.realized = false := by
    obtain ⟨-, -, -, rfl⟩ := net_join hst₁
    refine ⟨c.push (connects n j), .fresh .vm2 n j (s.present n .vm1 ++ connects n j), ?_, ?_, hi,
      rfl⟩
    · dsimp only
      rw [Function.update_of_ne (by decide), hc]
      rfl
    · dsimp only
      rw [Function.update_self]
      rfl
  have hb₂ : c₂.Behind c₁.id := behind_join h.sound.ok hst₁ hc₂ hc₁
  refine (attains_step (Q := (· = s₁)) ⟨by simp, trivial⟩ hst₁ rfl).trans ?_
  rintro _ rfl
  obtain ⟨s₂, hst₂⟩ := realize_completes hs₁.ok hc₂ hr₂
  obtain ⟨d, d', hgoes, -, hr', -⟩ := goes_realize hs₁.ok hst₂
  refine attains_step (a := .realize .vm2 eventfdEnv) ⟨by simp, rfl⟩ hst₂
    ⟨sound_step hs₁ hst₂ rfl, c₁, d', ?_, hgoes.self, hr', hi₁, ?_, ?_⟩
  · rw [hgoes.of_ne (by decide)]
    exact hc₁
  · exact behind_realize hs₁.ok hst₂ hc₂ hgoes.self hb₂
  · exact told_of_not_inited (x := .vm2) fun e he => not_inited_realize hs₁.ok hst₂ he

/-! ## They work off what is left -/

/-- A device has a message left to handle. -/
theorem exists_queue (h : s.queued ≠ 0) : ∃ x, ∃ c : Client x, s.client x = some c ∧ c.queue ≠ [] := by
  by_contra hno
  simp only [not_exists, not_and, ne_eq, not_not] at hno
  have hwait : ∀ x, s.waiting x = 0 := by
    intro x
    cases hc : s.client x with
    | none =>
      unfold Net.waiting
      rw [hc]
      rfl
    | some c =>
      rw [Net.waiting_eq hc, hno x c hc]
      rfl
  exact h (by unfold Net.queued; rw [hwait, hwait])

/-- **Devices that meet** can work off their messages, and are paired then. -/
theorem Net.Meets.attains (hn : 2 ≤ n) (h : s.Meets n) :
    Attains (NetStep n) NetAct.Stays Net.Paired s := by
  refine (attains_zero (I := Net.Meets n) Net.queued ?_ h).trans ?_
  · rintro s ⟨hs, c₁, c₂, hm⟩ hqueued
    obtain ⟨x, c, hc, hq⟩ := exists_queue hqueued
    obtain ⟨s', hst⟩ := recv_meeting hs hm hc hq eventfdEnv
    obtain ⟨d, d', m, queue, r, err, hgoes, -, hqd, -, rfl, -⟩ := goes_recv hst
    have hless := queued_goes hgoes (k := 1) (by rw [hqd]; rfl)
    exact ⟨.recv x eventfdEnv, s', ⟨by simp, rfl⟩, hst, ⟨sound_step hs hst rfl,
      meeting_recv hs.ok hs.announced hm rfl hst⟩, by omega⟩
  · rintro s' ⟨⟨hs, c₁, c₂, hm⟩, hzero⟩
    have hq : ∀ x, ∀ c ∈ s'.client x, c.queue = [] := by
      intro x c hc
      have hwait : s'.waiting x = 0 := by
        unfold Net.queued at hzero
        cases x <;> omega
      rw [Net.waiting_eq hc] at hwait
      exact List.length_eq_zero_iff.1 hwait
    rcases idle_meeting hs hn hm hq with hp | ⟨u, hst, hp⟩
    · exact attains_now hp
    · exact attains_step (a := .notify .vm1 eventfdVmId) ⟨by simp, trivial⟩ hst hp

/-- From any state of the server and the devices. -/
theorem attains_paired (hn : 2 ≤ n) (hs : s.Sound n) (hi : i ∉ s.used)
    (hj : j ∉ s.used) (hij : i ≠ j) (hmi : (i : ℤ) ≤ ivshmemMaxPeers)
    (hmj : (j : ℤ) ≤ ivshmemMaxPeers) : Attains (NetStep n) NetAct.Stays Net.Paired s := by
  refine (attains_alone hs hi hj).trans fun s ⟨h, hi⟩ => ?_
  refine (attains_present h hi hij hmi).trans fun s ⟨h, c, hc⟩ => ?_
  refine (attains_realized h hc).trans fun s ⟨h, c, hc, hr⟩ => ?_
  refine (attains_idle h hc hr).trans fun s ⟨h, c, hc, hr, hq⟩ => ?_
  exact (attains_meeting hn h hmj hc hr hq).trans fun s hm => hm.attains hn

end

/-! ## Whole runs -/

/-- An action of the server and the devices, in eventfd mode, in which the first machine's device
    stays. -/
def BridgeAct.Restarts (a : BridgeAct) : Prop := ∃ b, a = .net b ∧ b.Stays

section
variable {n i j : ℕ} {s : Bridge} {t : List (Bridge × BridgeAct)} {shm : IdtIvshmemShmStorage}
  {ram : Vm → Ram}

/-- **Restarting the second machine can make the pair.**  From every state that the bridge reaches,
    the server and the devices alone can bring it to one in which the devices are paired, and the
    device of the first machine does not leave for it. -/
theorem restart_pairs (hn : 2 ≤ n) (h : Run (BridgeStep n) (.start shm ram) t s)
    (ht : ∀ e ∈ t, Tame n e) (hi : i ∉ s.net.used) (hj : j ∉ s.net.used) (hij : i ≠ j)
    (hmi : (i : ℤ) ≤ ivshmemMaxPeers) (hmj : (j : ℤ) ≤ ivshmemMaxPeers) :
    ∃ t' s', Run (BridgeStep n) s t' s' ∧ (∀ e ∈ t', e.2.Restarts) ∧ s'.net.Paired := by
  refine (attains_paired hn (bridge_sound h ht) hi hj hij hmi hmj).sim
    (fun (net : Net) (u : Bridge) => u.net = net) rfl ?_ ?_
  · rintro net a net' u rfl ha hst
    exact ⟨.net a, { u with net := net' }, ⟨a, rfl, ha⟩, bridge_of_net hst, rfl⟩
  · rintro net u rfl hp
    exact hp

end

theorem restart_pairs_second_first : ∃ s : Bridge,
    exec (Bridge.next 2) (.start default blankRam) (secondFirst.map .net) = .ok s ∧
      ¬ s.net.Agree ∧ ∃ t s', Run (BridgeStep 2) s t s' ∧ (∀ e ∈ t, e.2.Restarts) ∧
        s'.net.Paired := by
  obtain ⟨s, hs, hused, hagree⟩ : ∃ s : Bridge,
      exec (Bridge.next 2) (.start default blankRam) (secondFirst.map .net) = .ok s ∧
      s.net.used = [1, 0] ∧ ¬ s.net.Agree := ⟨_, rfl, rfl, by decide⟩
  refine ⟨s, hs, hagree, restart_pairs (i := 2) (j := 3) le_rfl (Run.of_exec hs)
    (tame_net (by decide)) ?_ ?_ (by decide) (by decide) (by decide)⟩
  · rw [hused]
    decide
  · rw [hused]
    decide

end IdtNtb
