/-
  The handshake comes to its end.

  Once the first machine's device has announced its id, and a device of the
  second machine has joined behind it, all that is left in eventfd mode are the
  messages that wait and one event.  `Net.Meeting` is this situation, whatever the guests do
  meanwhile:

  * `meeting_step`: the devices go on meeting until one leaves;
  * `recv_meeting`, `notify_meeting`: neither a message nor the event is in the
    way of the next step;
  * `handshake_completes`: each message handled is one less that waits, and
    after the last one the devices are paired, at the latest with the event of
    the first machine.
-/
import IdtNtb.Lib.Ledger
import IdtNtb.Pairing

namespace IdtNtb

open Function (update)
open Runs

/-! ## Meeting -/

/-- The first machine's device has announced its id, and the connects of the second one wait behind
    those of the first. -/
structure Net.Meeting (s : Net) (c₁ : Client .vm1) (c₂ : Client .vm2) : Prop where
  first : s.client .vm1 = some c₁
  second : s.client .vm2 = some c₂
  realized : c₂.dev.realized = true
  inited : c₁.Inited
  behind : c₂.Behind c₁.id
  told : s.Told

section
variable {n : ℕ} {s s' : Net} {x : Vm} {a : NetAct} {env : Env} {c₁ : Client .vm1}
  {c₂ : Client .vm2}

theorem Net.Meeting.present (h : s.Meeting c₁ c₂) (x : Vm) : ∃ c : Client x, s.client x = some c := by
  cases x with
  | vm1 => exact ⟨c₁, h.first⟩
  | vm2 => exact ⟨c₂, h.second⟩

theorem Net.Meeting.realized_all (h : s.Meeting c₁ c₂) (hok : s.Ok n) {c : Client x}
    (hc : s.client x = some c) : c.dev.realized = true := by
  cases x with
  | vm1 =>
    rw [h.first, Option.some_inj] at hc
    exact hc ▸ (hok.client h.first).realized h.inited
  | vm2 =>
    rw [h.second, Option.some_inj] at hc
    exact hc ▸ h.realized

/-- One device goes on. -/
theorem Net.Meeting.go (h : s.Meeting c₁ c₂) {c c' : Client x} (hgoes : s.Goes s' c c')
    (hr : c'.dev.realized = c.dev.realized) (hi : c.Inited → c'.Inited)
    (hb : ∀ p, c.Behind p → c'.Behind p) (ht : s'.Told) : ∃ c₁' c₂', s'.Meeting c₁' c₂' := by
  cases x with
  | vm1 =>
    obtain rfl : c₁ = c := Option.some_inj.1 (h.first.symm.trans hgoes.client)
    refine ⟨c', c₂, hgoes.self, ?_, h.realized, hi h.inited, ?_, ht⟩
    · rw [hgoes.of_ne (by decide)]
      exact h.second
    · rw [hgoes.id]
      exact h.behind
  | vm2 =>
    obtain rfl : c₂ = c := Option.some_inj.1 (h.second.symm.trans hgoes.client)
    refine ⟨c₁, c', ?_, hgoes.self, hr.trans h.realized, h.inited, hb _ h.behind, ht⟩
    rw [hgoes.of_ne (by decide)]
    exact h.first

/-- The first machine does not announce its id again. -/
theorem Net.Meeting.not_runsInit (h : s.Meeting c₁ c₂) (hok : s.Ok n) :
    ¬ RunsInit .vm1 (s, .recv .vm1 env) := by
  rintro ⟨-, c, hc, m, -, hi⟩
  have hc' : s.client .vm1 = some c := hc
  rw [h.first, Option.some_inj] at hc'
  subst hc'
  refine not_inits_of_inited ?_ hi
  rw [(hok.client h.first).vmId ((hok.client h.first).realized h.inited)]
  exact h.inited

theorem meeting_recv (hok : s.Ok n) (han : s.Announced) (hm : s.Meeting c₁ c₂)
    (he : env.msiViaIrqfd = false) (h : NetStep n s (.recv x env) s') :
    ∃ c₁' c₂', s'.Meeting c₁' c₂' := by
  obtain ⟨c, c', m, queue, r, err, hgoes, hr, hq, hmsg, rfl, -, -⟩ := goes_recv h
  obtain ⟨-, hframe, -, -⟩ := processMsg_spec hmsg
  refine hm.go hgoes hframe.realized ?_ (fun p hb => behind_recv hr hq hmsg hb) ?_
  · exact fun hi => (inited_recv hok he h hgoes.client hgoes.self).2 (Or.inr hi)
  · by_cases hrun : RunsInit x (s, .recv x env)
    · cases x with
      | vm1 => exact absurd hrun (hm.not_runsInit hok)
      | vm2 =>
        refine told_init hok han h ?_ hrun
        intro d₁ hd₁ d₂ hd₂
        obtain rfl : c₁ = d₁ := Option.some_inj.1 (hm.first.symm.trans hd₁)
        obtain rfl : c₂ = d₂ := Option.some_inj.1 (hm.second.symm.trans hd₂)
        exact hm.behind
    · exact told_recv hok he h hrun hm.told

theorem meeting_notify {vector : ℕ} (hok : s.Ok n) (han : s.Announced) (hm : s.Meeting c₁ c₂)
    (h : NetStep n s (.notify x vector) s') : ∃ c₁' c₂', s'.Meeting c₁' c₂' := by
  obtain ⟨c, c', fd, hgoes, -, -, -, -, rfl⟩ := goes_notify hok h
  refine hm.go hgoes rfl (fun hi => hi) (fun p hb => ⟨hb.order, hb.done⟩) ?_
  cases x with
  | vm1 => exact told_notify_vm1 hok han h hm.told
  | vm2 => exact told_notify_vm2 hok han h hm.told

/-- **The devices go on meeting** until one leaves. -/
theorem meeting_step (hok : s.Ok n) (han : s.Announced) (hm : s.Meeting c₁ c₂) (he : a.Eventfd)
    (hl : ∀ x, a ≠ .leave x) (h : NetStep n s a s') : ∃ c₁' c₂', s'.Meeting c₁' c₂' := by
  cases a with
  | join x id =>
    obtain ⟨c, hc⟩ := hm.present x
    have hnone := (net_join h).1
    rw [hc] at hnone
    cases hnone
  | leave x => exact absurd rfl (hl x)
  | realize x env =>
    obtain ⟨c, c', hgoes, hr, -⟩ := goes_realize hok h
    rw [hm.realized_all hok hgoes.client] at hr
    cases hr
  | recv x env => exact meeting_recv hok han hm he h
  | notify x vector => exact meeting_notify hok han hm h

theorem Tuning.meeting {c c' : Client x} (h : Tuning s s' c c') (hm : s.Meeting c₁ c₂) :
    ∃ c₁' c₂', s'.Meeting c₁' c₂' := by
  refine hm.go h.goes h.dev.2.2.1 h.inited.2 ?_ ?_
  · intro p hb
    constructor
    · rw [h.backlog, h.goes.id]
      exact hb.order
    · rw [h.peer, h.backlog, h.goes.id]
      exact hb.done
  · intro d₁ hd₁ d₂ hd₂ hi₁ hi₂
    obtain ⟨e₁, he₁, hid₁, ho₁, hinit₁, -⟩ := h.back hd₁
    obtain ⟨e₂, he₂, hid₂, ho₂, hinit₂, -⟩ := h.back hd₂
    obtain ⟨hother, hknow⟩ := hm.told e₁ he₁ e₂ he₂ (hinit₁.2 hi₁) (hinit₂.2 hi₂)
    rw [← hid₁, ← hid₂, ← ho₁, ← ho₂]
    exact ⟨hother, hknow.imp_right (h.pending _)⟩

/-! ## No message is in the way -/

/-- When the second machine announces its id, the first machine's notifiers are in its table. -/
theorem reaches_first (hok : s.Ok n) (hm : s.Meeting c₁ c₂) {m : Msg} {queue : List Msg}
    {r : Ctx .vm2} {err : Option MsgError} (hq : c₂.queue = m :: queue)
    (h : processMsg (c₂.ctx s.shm) m.value m.fd env = .ok (r, err))
    (hi : Inits c₂.dev m.value m.fd env) :
    ∃ fd, r.dev.notifier c₁.id eventfdVmId = .ok (some fd) := by
  have hcok := hok.client hm.second
  have hcok' := Client.ok_recv hcok hm.realized hq h
  have hfeed := Client.feed_recv hcok hm.realized hq h (hok.client hm.first).max
    (hok.feed hm.second hm.first)
  have hbehind := behind_recv hm.realized hq h hm.behind
  have hown : Connected r.dev c₂.id := by
    rw [← hcok.vmId hm.realized]
    exact connected_own h hi
  exact ⟨_, hbehind.notifier hcok' hfeed hown⟩

/-- **A message that waits is handled**: at most the second machine's announcement signals, and it
    goes to a notifier that is there. -/
theorem recv_meeting (hs : s.Sound n) (hm : s.Meeting c₁ c₂) {c : Client x}
    (hc : s.client x = some c) (hq : c.queue ≠ []) (env : Env) :
    ∃ s', NetStep n s (.recv x env) s' := by
  have hok := hs.ok
  have hr := hm.realized_all hok hc
  obtain ⟨m, queue, hq⟩ := List.exists_cons_of_ne_nil hq
  obtain ⟨r, err, hmsg, -⟩ : ∃ r err,
      processMsg (c.ctx s.shm) m.value m.fd env = .ok (r, err) ∧ Ready r :=
    processMsg_ready (hs.served.ready hc hr) (hs.served.not_freed hc hr hq)
  have hdone : ∃ s', s.finish { c with queue := queue } r = .ok s' := by
    obtain ⟨-, -, ⟨hi, hann⟩ | ⟨-, hsil⟩, -⟩ := processMsg_spec hmsg
    · have hrun : RunsInit x (s, .recv x env) := (runsInit_iff hc hq).2 hi
      cases x with
      | vm1 => exact absurd hrun (hm.not_runsInit hok)
      | vm2 =>
        obtain rfl : c₂ = c := Option.some_inj.1 (hm.second.symm.trans hc)
        obtain ⟨fd, hfd⟩ := reaches_first hok hm hq hmsg hi
        have hid : (c₂.ctx s.shm).peerId = c₁.id := by
          show (s.shm.vm .vm1).id.toInt = c₁.id
          rw [hs.announced.blockId hm.first hm.inited, toInt_ofInt (hok.client hm.first).max]
        have hsig : r.out.filterMap Effect.signal? = [((c₁.id : ℤ), eventfdVmId)] := by
          have hsig' := hann.signals
          rw [if_pos rfl, hid] at hsig'
          exact hsig'
        have hset : r.out.foldlM (deliver r.dev) s.pending =
            .ok (update s.pending fd true) := by
          rw [foldlM_deliver, hsig, List.foldlM_cons]
          simp only [deliver, hfd]
          rfl
        unfold Net.finish
        rw [hset]
        exact ⟨_, rfl⟩
    · exact s.finish_silent _ hsil.signals
  obtain ⟨s', hs'⟩ := hdone
  exact ⟨s', (next_recv hc hr hq hmsg).trans hs'⟩

/-! ## The last event -/

/-- **The event of the first machine** makes the pair, if nothing else is left. -/
theorem notify_meeting (hs : s.Sound n) (hn : 2 ≤ n) (hm : s.Meeting c₁ c₂)
    (hq : ∀ x, ∀ c ∈ s.client x, c.queue = []) (ho : c₂.dev.otherVmId = c₁.id)
    (hp : s.pending ⟨c₁.id, eventfdVmId⟩ = true) (hi : c₂.Inited) :
    ∃ s', NetStep n s (.notify .vm1 eventfdVmId) s' ∧ s'.Paired := by
  obtain ⟨hok, han, hserved⟩ := hs
  have hcok := hok.client hm.first
  have hr := hcok.realized hm.inited
  have hatt := hserved.attends hm.first hr
  have hown : eventfdVmId < c₁.dev.nbEventfds c₁.id :=
    Nat.lt_trans Nat.zero_lt_one (show eventfdInterruptHost < _ from hm.inited)
  obtain ⟨e, he, hpdev⟩ : ∃ e, msiVector (c₁.ctx s.shm) eventfdVmId = .ok e ∧ e.pdev = true := by
    refine hatt.wired eventfdVmId ?_
    show eventfdVmId < c₁.dev.nbEventfds c₁.dev.vmId
    rwa [hcok.vmId hr]
  obtain ⟨s', hst⟩ := notify_completes hserved.toReceptive hm.first hr he hpdev
  refine ⟨s', hst, ?_⟩
  obtain ⟨c, fd, r, hc, hfd, hv, hf⟩ := net_notify hst
  obtain rfl : c₁ = c := Option.some_inj.1 (hm.first.symm.trans hc)
  rw [hserved.watched hok hc hr hown, Except.ok.injEq] at hfd
  subst hfd
  obtain ⟨-, -, hdev⟩ := ivshmemVectorNotify_spec hv
  -- it takes over the id that the second machine has announced
  have hid : (c₁.ctx s.shm).peerId = c₂.id := by
    show (s.shm.vm .vm2).id.toInt = c₂.id
    rw [han.blockId hm.second hi, toInt_ofInt (hok.client hm.second).max]
  have ho₁ : r.dev.otherVmId = c₂.id := by
    rw [hdev, if_pos ⟨hp, rfl⟩]
    exact hid
  have hr' : r.dev.realized = true := by
    rw [hdev]
    exact hr
  have hc' : (s.testAndClear (some ⟨c₁.id, eventfdVmId⟩)).client .vm1 = some c₁ := hc
  have hf' : (s.testAndClear (some ⟨c₁.id, eventfdVmId⟩)).finish { c₁ with queue := c₁.queue } r =
      .ok s' := hf
  obtain ⟨hgoes, -, -⟩ := Net.finish_goes hc' hf'
  have hc₂ : s'.client .vm2 = some c₂ := by
    rw [hgoes.of_ne (by decide)]
    exact hm.second
  refine paired_of_idle (ok_step hok hst) hn (fun x d hd => ?_) hgoes.self hc₂ ho₁ ho
  cases x with
  | vm1 =>
    obtain rfl := Option.some_inj.1 (hgoes.self.symm.trans hd)
    exact ⟨hr', hq .vm1 c₁ hm.first⟩
  | vm2 =>
    obtain rfl : c₂ = d := Option.some_inj.1 (hc₂.symm.trans hd)
    exact ⟨hm.realized, hq .vm2 c₂ hm.second⟩

/-- **Nothing is left but the event**, once no message waits. -/
theorem idle_meeting (hs : s.Sound n) (hn : 2 ≤ n) (hm : s.Meeting c₁ c₂)
    (hq : ∀ x, ∀ c ∈ s.client x, c.queue = []) :
    s.Paired ∨ ∃ s', NetStep n s (.notify .vm1 eventfdVmId) s' ∧ s'.Paired := by
  have hi : c₂.Inited :=
    reaches_of_idle hs.ok hn hm.second hm.realized (hq .vm2 c₂ hm.second) hm.second
  obtain ⟨ho, hknow | hp⟩ := hm.told c₁ hm.first c₂ hm.second hm.inited hi
  · refine Or.inl (paired_of_idle hs.ok hn (fun x c hc => ⟨?_, hq x c hc⟩) hm.first hm.second hknow
      ho)
    exact hm.realized_all hs.ok hc
  · exact Or.inr (notify_meeting hs hn hm hq ho hp hi)

/-! ## What is left to do -/

/-- The messages that wait at machine `x`. -/
def Net.waiting (s : Net) (x : Vm) : ℕ := ((s.client x).map fun c => c.queue.length).getD 0

/-- The messages that wait. -/
def Net.queued (s : Net) : ℕ := s.waiting .vm1 + s.waiting .vm2

theorem Net.waiting_eq {c : Client x} (hc : s.client x = some c) : s.waiting x = c.queue.length := by
  unfold Net.waiting
  rw [hc]
  rfl

/-- One device goes on, and the queue of the other one stays. -/
theorem queued_goes {c c' : Client x} {k : ℕ} (hgoes : s.Goes s' c c')
    (hk : c'.queue.length + k = c.queue.length) : s'.queued + k = s.queued := by
  have hself : s'.waiting x + k = s.waiting x := by
    rw [Net.waiting_eq hgoes.self, Net.waiting_eq hgoes.client]
    exact hk
  have hother : s'.waiting x.other = s.waiting x.other := by
    unfold Net.waiting
    rw [hgoes.of_ne (Vm.other_ne x)]
  unfold Net.queued
  cases x with
  | vm1 =>
    have hother' : s'.waiting .vm2 = s.waiting .vm2 := hother
    omega
  | vm2 =>
    have hother' : s'.waiting .vm1 = s.waiting .vm1 := hother
    omega

end

/-! ## Whole runs -/

section
variable {n : ℕ} {s s' : Bridge} {a : BridgeAct} {t t' : List (Bridge × BridgeAct)}
  {shm : IdtIvshmemShmStorage} {ram : Vm → Ram}

/-- How many messages of the server a step handles. -/
def receipts (e : Bridge × BridgeAct) : ℕ :=
  match e.2 with
  | .net (.recv _ _) => 1
  | _ => 0

/-- The devices meet, and what they have heard and have still to hear fits together. -/
structure Bridge.Meets (n : ℕ) (s : Bridge) : Prop where
  sound : s.net.Sound n
  meeting : ∃ c₁ c₂, s.net.Meeting c₁ c₂

/-- **One step** while nobody leaves: a message that is handled waits no more. -/
theorem meets_step (hm : s.Meets n) (ht : Tame n (s, a)) (hl : ¬ a.Leaves)
    (h : BridgeStep n s a s') : s'.Meets n ∧ s'.net.queued + receipts (s, a) = s.net.queued := by
  obtain ⟨hs, c₁, c₂, hmeet⟩ := hm
  have hs' := bridge_sound_step ht hs h
  obtain ⟨hok, han, -⟩ := hs
  rcases bridge_cases ht.toInbounds h with ⟨b, rfl, hb⟩ | ⟨hne, x, c, c', htune⟩
  · refine ⟨⟨hs', meeting_step hok han hmeet (ht.eventfd b rfl)
      (fun x hx => hl ⟨x, by rw [hx]⟩) hb⟩, ?_⟩
    cases b with
    | join x id =>
      obtain ⟨c, hc⟩ := hmeet.present x
      have hnone := (net_join hb).1
      rw [hc] at hnone
      cases hnone
    | leave x => exact absurd ⟨x, rfl⟩ hl
    | realize x env =>
      obtain ⟨c, c', hgoes, hr, -⟩ := goes_realize hok hb
      rw [hmeet.realized_all hok hgoes.client] at hr
      cases hr
    | recv x env =>
      obtain ⟨c, c', m, queue, r, err, hgoes, -, hq, -, rfl, -⟩ := goes_recv hb
      refine queued_goes hgoes ?_
      rw [hq]
      rfl
    | notify x vector =>
      obtain ⟨c, c', fd, hgoes, -, -, -, -, rfl⟩ := goes_notify hok hb
      exact queued_goes hgoes rfl
  · refine ⟨⟨hs', htune.meeting hmeet⟩, ?_⟩
    have hzero : receipts (s, a) = 0 := by
      cases a with
      | net b => exact absurd rfl (hne b)
      | place y bars => rfl
      | access b => rfl
    rw [hzero]
    refine queued_goes htune.goes ?_
    rw [htune.dev.2.2.2.2.2.2]
    rfl

/-- **The handshake comes to its end**, in whatever order the devices work off their messages and
    whatever the guests do meanwhile.  Once the first machine's device has announced its id, and a
    device of the second machine has joined behind it: no message is ever in the way, each one that
    is handled is one less that waits, and when none is left the devices are paired, or will be with
    the event of the first machine, which is not in the way either. -/
theorem handshake_completes (hn : 2 ≤ n) (h : Run (BridgeStep n) (.start shm ram) t s)
    (ht : ∀ e ∈ t, Tame n e) {c₁ : Client .vm1} {c₂ : Client .vm2}
    (hc₁ : s.net.client .vm1 = some c₁) (hc₂ : s.net.client .vm2 = some c₂)
    (hr : c₂.dev.realized = true) (hi₁ : c₁.Inited) (hi₂ : ¬ c₂.Inited)
    (hjoin : Since (Joins .vm2) (Joins .vm1) (netTrace t)) (h' : Run (BridgeStep n) s t' s')
    (ht' : ∀ e ∈ t', Tame n e) (hl : ∀ e ∈ t', ¬ e.2.Leaves) :
    s'.net.queued + (t'.map receipts).sum = s.net.queued ∧
      (∀ x, ∀ c ∈ s'.net.client x, c.queue ≠ [] → ∀ env,
        ∃ s'', BridgeStep n s' (.net (.recv x env)) s'') ∧
      ((∀ x, ∀ c ∈ s'.net.client x, c.queue = []) → s'.net.Paired ∨
        ∃ s'', BridgeStep n s' (.net (.notify .vm1 eventfdVmId)) s'' ∧ s''.net.Paired) := by
  have hm : s.Meets n := by
    refine ⟨bridge_sound h ht, c₁, c₂, hc₁, hc₂, hr, hi₁, ?_, ?_⟩
    · exact (bridge_follows h ht).behind hjoin c₁ hc₁ c₂ hc₂
    · refine told_of_not_inited (x := .vm2) fun c hc => ?_
      obtain rfl : c₂ = c := Option.some_inj.1 (hc₂.symm.trans hc)
      exact hi₂
  obtain ⟨hm', hbal⟩ := Run.balance (Bridge.Meets n) (fun s => s.net.queued) (fun _ => 0) receipts hm
    h' fun e he s' hm hst => meets_step hm (ht' e he) (hl e he) hst
  obtain ⟨hs', d₁, d₂, hmeet⟩ := hm'
  refine ⟨?_, ?_, ?_⟩
  · rw [hbal]
    simp
  · intro x c hc hq env
    obtain ⟨u, hu⟩ := recv_meeting hs' hmeet hc hq env
    exact ⟨_, bridge_of_net hu⟩
  · intro hq
    refine (idle_meeting hs' hn hmeet hq).imp_right ?_
    rintro ⟨u, hu, hp⟩
    exact ⟨_, bridge_of_net hu, hp⟩

end

/-- The first machine comes up, and a device of the second one behind it. -/
def meet : List NetAct := comesUp .vm1 0 2 ++ comesUp .vm2 1 0

/-- Both devices work off their messages. -/
def workOff : List NetAct :=
  List.replicate 4 (.recv .vm2 eventfdEnv) ++ List.replicate 2 (.recv .vm1 eventfdEnv)

theorem leaves_workOff {s : Bridge} :
    ∀ e ∈ trace (Bridge.next 2) s (workOff.map .net), ¬ e.2.Leaves := by
  rintro e he ⟨x, hx⟩
  obtain ⟨b, hb, hbe⟩ := List.mem_map.1 (mem_of_mem_trace he)
  rw [hx] at hbe
  obtain rfl := BridgeAct.net.inj hbe
  simp [workOff] at hb

theorem handshake_completes_meet : ∃ s s' : Bridge,
    exec (Bridge.next 2) (.start default blankRam) (meet.map .net) = .ok s ∧
      exec (Bridge.next 2) s (workOff.map .net) = .ok s' ∧ s.net.queued = 6 ∧
      (s'.net.Paired ∨ ∃ s'', BridgeStep 2 s' (.net (.notify .vm1 eventfdVmId)) s'' ∧
        s''.net.Paired) := by
  obtain ⟨s, s', c₁, c₂, hs, hs', hc₁, hc₂, hr, hi₁, hi₂, hqueued, hq⟩ : ∃ (s s' : Bridge)
      (c₁ : Client .vm1) (c₂ : Client .vm2),
      exec (Bridge.next 2) (.start default blankRam) (meet.map .net) = .ok s ∧
      exec (Bridge.next 2) s (workOff.map .net) = .ok s' ∧ s.net.client .vm1 = some c₁ ∧
      s.net.client .vm2 = some c₂ ∧ c₂.dev.realized = true ∧ c₁.Inited ∧ ¬ c₂.Inited ∧
      s.net.queued = 6 ∧ ∀ x, ∀ c ∈ s'.net.client x, c.queue = [] := by
    refine ⟨_, _, _, _, rfl, rfl, rfl, rfl, rfl, by decide, by decide, rfl, ?_⟩
    intro x c hc
    cases x <;> cases hc <;> rfl
  exact ⟨s, s', hs, hs', hqueued, (handshake_completes le_rfl (Run.of_exec hs)
    (tame_net (by decide)) hc₁ hc₂ hr hi₁ hi₂ (by decide) (Run.of_exec hs') (tame_net (by decide))
    leaves_workOff).2.2 hq⟩

end IdtNtb
