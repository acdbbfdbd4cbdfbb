/-
  Two devices that know each other.

  Once both devices have announced their ids, hold each other's, and have each
  other's notifiers in the table (`Net.Paired`), they stay so until one of them
  leaves, whatever else happens on the bridge in eventfd mode.

  * `comes_to_pair`: the devices are paired as soon as their queues are empty and
    no EVENTFD_VM_ID event is pending, when the first machine was first;
  * `paired_run`: paired devices stay paired while nobody leaves;
  * `paired_never_faults`: on a bridge with paired devices nothing faults, but for
    the assertion on the value of NTGSIGNAL.
-/
import IdtNtb.Aborts
import IdtNtb.Served

namespace IdtNtb

open Function (update)
open Runs

/-! ## Pairs -/

/-- The device has announced its id, holds that of client `p`, and reaches its notifiers. -/
structure Client.Knows {x : Vm} (c : Client x) (p : ℕ) : Prop where
  inited : c.Inited
  other : c.dev.otherVmId = p
  reaches : Connected c.dev p

/-- Both devices are there, and know each other. -/
def Net.Paired (s : Net) : Prop := ∀ x, ∃ (c : Client x) (d : Client x.other),
  s.client x = some c ∧ s.client x.other = some d ∧ c.Knows d.id

section
variable {n : ℕ} {s s' : Net} {x y : Vm} {a : NetAct} {env : Env}

theorem Net.Paired.knows (h : s.Paired) {c : Client x} (hc : s.client x = some c)
    {d : Client x.other} (hd : s.client x.other = some d) : c.Knows d.id := by
  obtain ⟨c', d', hc', hd', hk⟩ := h x
  rw [hc, Option.some_inj] at hc'
  rw [hd, Option.some_inj] at hd'
  exact hc' ▸ hd' ▸ hk

theorem Net.Paired.present (h : s.Paired) (x : Vm) : ∃ c : Client x, s.client x = some c := by
  obtain ⟨c, -, hc, -⟩ := h x
  exact ⟨c, hc⟩

theorem Net.Paired.inited (h : s.Paired) {c : Client x} (hc : s.client x = some c) :
    c.Inited := by
  obtain ⟨d, hd⟩ := h.present x.other
  exact (h.knows hc hd).inited

theorem Net.Paired.realized (h : s.Paired) (hok : s.Ok n) {c : Client x}
    (hc : s.client x = some c) : c.dev.realized = true :=
  (hok.client hc).realized (h.inited hc)

/-- One device goes on, and still knows what it knew. -/
theorem Net.Paired.go (h : s.Paired) {c c' : Client x} (hgoes : s.Goes s' c c')
    (hk : ∀ d : Client x.other, s.client x.other = some d → c.Knows d.id → c'.Knows d.id) :
    s'.Paired := by
  intro y
  obtain ⟨d, e, hd, he, hde⟩ := h y
  rcases Vm.eq_or_other x y with rfl | rfl
  · rw [hgoes.client, Option.some_inj] at hd
    subst hd
    refine ⟨c', e, hgoes.self, ?_, hk e he hde⟩
    rw [hgoes.of_ne (Vm.other_ne y)]
    exact he
  · -- the other one knows the id, which is still the same
    obtain ⟨e', he', hid⟩ : ∃ e' : Client x.other.other, s'.client x.other.other = some e' ∧
        e'.id = e.id := by
      revert e
      rw [Vm.other_other]
      intro e he hde
      rw [hgoes.client, Option.some_inj] at he
      exact ⟨c', hgoes.self, he ▸ hgoes.id⟩
    refine ⟨d, e', ?_, he', hid ▸ hde⟩
    rw [hgoes.of_ne (Vm.other_ne x)]
    exact hd

/-- An announced device does not announce its id again. -/
theorem not_inits_of_inited {c : Client x} {m : Msg} (hi : Connected c.dev c.dev.vmId) :
    ¬ Inits c.dev m.value m.fd env := by
  rintro ⟨-, hv, -, h1, -⟩
  rw [hv] at h1
  unfold Connected at hi
  rw [h1] at hi
  exact Nat.lt_irrefl _ hi

theorem paired_recv (hok : s.Ok n) (hp : s.Paired) (h : NetStep n s (.recv x env) s') :
    s'.Paired := by
  obtain ⟨c, c', m, queue, r, err, hgoes, hr, hq, hm, rfl, -, -⟩ := goes_recv h
  have hvm := (hok.client hgoes.client).vmId hr
  obtain ⟨-, -, hlearns, -⟩ := processMsg_spec hm
  -- the server does not say that a device that is there is gone
  have hkeep : ∀ {y : Vm} {d : Client y}, s.client y = some d → Connected c.dev d.id →
      Connected r.dev d.id := by
    intro y d hd hconn
    refine Connected.message (c := c.ctx s.shm) hconn hm ?_
    rintro ⟨hfd, hv, -⟩
    have hmem : m ∈ c.backlog := by
      rw [Client.backlog_realized hr, hq]
      exact List.mem_cons_self
    exact (hok.feed hgoes.client hd).connect hmem hv hfd
  have hown : Connected c.dev c.dev.vmId := by
    rw [hvm]
    exact hp.inited hgoes.client
  refine hp.go hgoes fun d hd hk => ⟨?_, ?_, hkeep hd hk.reaches⟩
  · have hinit := hkeep hgoes.client hk.inited
    exact hinit
  rcases hlearns with ⟨hi, -⟩ | ⟨-, hsil⟩
  · exact absurd hi (not_inits_of_inited hown)
  · exact hsil.otherVmId.trans hk.other

theorem paired_notify {vector : ℕ} (hok : s.Ok n) (han : s.Announced) (hp : s.Paired)
    (h : NetStep n s (.notify x vector) s') : s'.Paired := by
  obtain ⟨c, c', fd, hgoes, -, -, -, -, rfl⟩ := goes_notify hok h
  refine hp.go hgoes fun d hd hk => ⟨hk.inited, ?_, hk.reaches⟩
  dsimp only
  split_ifs
  · -- what the peer has announced is its id
    rw [han.blockId hd (hp.inited hd), toInt_ofInt (hok.client hd).max]
  · exact hk.other

theorem paired_step (hok : s.Ok n) (han : s.Announced) (hp : s.Paired) (hl : ∀ x, a ≠ .leave x)
    (h : NetStep n s a s') : s'.Paired := by
  cases a with
  | join x id =>
    obtain ⟨c, hc⟩ := hp.present x
    have hnone := (net_join h).1
    rw [hc] at hnone
    cases hnone
  | leave x => exact absurd rfl (hl x)
  | realize x env =>
    obtain ⟨c, c', hgoes, hr, -⟩ := goes_realize hok h
    rw [hp.realized hok hgoes.client] at hr
    cases hr
  | recv x env => exact paired_recv hok hp h
  | notify x vector => exact paired_notify hok han hp h

theorem Tuning.paired {c c' : Client x} (h : Tuning s s' c c') (hp : s.Paired) : s'.Paired := by
  refine hp.go h.goes fun d _ hk => ⟨h.inited.2 hk.inited, ?_, ?_⟩
  · rw [h.dev.2.2.2.2.1]
    exact hk.other
  · have hr := hk.reaches
    unfold Connected at hr ⊢
    rw [IVShmemState.nbEventfds_natCast] at hr ⊢
    rw [h.peer]
    exact hr

end

/-! ## How devices come to pair -/

section
variable {n : ℕ} {s : Net} {x y : Vm}

/-- A device that has nothing left to handle has all the notifiers of the other one. -/
theorem reaches_of_idle (hok : s.Ok n) (hn : 2 ≤ n) {c : Client x} (hc : s.client x = some c)
    (hr : c.dev.realized = true) (hq : c.queue = []) {d : Client y} (hd : s.client y = some d) :
    Connected c.dev d.id := by
  have htodo := (hok.feed hc hd).todo
  rw [Client.backlog_realized hr, hq] at htodo
  have hlen := congrArg List.length htodo
  simp only [List.filter_nil, List.length_nil, connects, List.length_drop, List.length_map,
    List.length_range] at hlen
  unfold Connected eventfdInterruptHost
  rw [IVShmemState.nbEventfds_natCast]
  omega

/-- Devices that hold each other's ids and have nothing left to handle are paired. -/
theorem paired_of_idle (hok : s.Ok n) (hn : 2 ≤ n)
    (hidle : ∀ x, ∀ c ∈ s.client x, c.dev.realized = true ∧ c.queue = []) {c₁ : Client .vm1}
    {c₂ : Client .vm2} (hc₁ : s.client .vm1 = some c₁) (hc₂ : s.client .vm2 = some c₂)
    (ho₁ : c₁.dev.otherVmId = c₂.id) (ho₂ : c₂.dev.otherVmId = c₁.id) : s.Paired := by
  obtain ⟨hr₁, hq₁⟩ := hidle .vm1 c₁ hc₁
  obtain ⟨hr₂, hq₂⟩ := hidle .vm2 c₂ hc₂
  have hreach₁ : ∀ {y : Vm} {d : Client y}, s.client y = some d → Connected c₁.dev d.id :=
    reaches_of_idle hok hn hc₁ hr₁ hq₁
  have hreach₂ : ∀ {y : Vm} {d : Client y}, s.client y = some d → Connected c₂.dev d.id :=
    reaches_of_idle hok hn hc₂ hr₂ hq₂
  intro x
  cases x with
  | vm1 => exact ⟨c₁, c₂, hc₁, hc₂, hreach₁ hc₁, ho₁, hreach₁ hc₂⟩
  | vm2 => exact ⟨c₂, c₁, hc₂, hc₁, hreach₂ hc₂, ho₂, hreach₂ hc₁⟩

end

section
variable {n : ℕ} {s s' s₀ : Bridge} {a : BridgeAct} {t t' : List (Bridge × BridgeAct)}
  {shm : IdtIvshmemShmStorage} {ram : Vm → Ram} {x : Vm}

/-- **Two devices come to pair**: the first machine's device joined, and announced its id, before
    the second one's did, both have handled all that the server had to say, and the first one its
    event. -/
theorem comes_to_pair (hn : 2 ≤ n) (h : Run (BridgeStep n) (.start shm ram) t s)
    (ht : ∀ e ∈ t, Tame n e)
    (hidle : ∀ x, ∃ c : Client x, s.net.client x = some c ∧ c.dev.realized = true ∧ c.queue = [])
    (hquiet : s.net.Quiet) (hjoin : Since (Joins .vm2) (Joins .vm1) (netTrace t))
    (hrun : Since (RunsInit .vm2) (RunsInit .vm1) (netTrace t)) : s.net.Paired := by
  have hok := bridge_ok h fun e he => (ht e he).toInbounds
  obtain ⟨c₁, hc₁, hr₁, hq₁⟩ := hidle .vm1
  obtain ⟨c₂, hc₂, hr₂, hq₂⟩ := hidle .vm2
  have hi₁ : c₁.Inited := reaches_of_idle hok hn hc₁ hr₁ hq₁ hc₁
  have hi₂ : c₂.Inited := reaches_of_idle hok hn hc₂ hr₂ hq₂ hc₂
  obtain ⟨hother, hknow⟩ := (bridge_follows h ht).told hjoin hrun c₁ hc₁ c₂ hc₂ hi₁ hi₂
  have hother' : c₁.dev.otherVmId = c₂.id := by
    refine hknow.resolve_right ?_
    rw [hquiet .vm1 c₁ hc₁]
    nofun
  refine paired_of_idle hok hn (fun x c hc => ?_) hc₁ hc₂ hother' hother
  obtain ⟨c', hc', hr, hq⟩ := hidle x
  obtain rfl : c = c' := Option.some_inj.1 (Eq.trans (Eq.symm hc) hc')
  exact ⟨hr, hq⟩

/-- The machines come up in order, and the first one handles what it is told of the second. -/
def pairUp : List NetAct := inOrder ++ [.recv .vm1 eventfdEnv, .recv .vm1 eventfdEnv]

theorem eventfd_pairUp : ∀ b ∈ pairUp, b.Eventfd := by decide

theorem comes_to_pair_in_order : ∃ s : Bridge,
    exec (Bridge.next 2) (.start default blankRam) (pairUp.map .net) = .ok s ∧ s.net.Paired := by
  obtain ⟨s, hs, ⟨c₁, hc₁, hr₁, hq₁⟩, ⟨c₂, hc₂, hr₂, hq₂⟩, hquiet⟩ : ∃ s : Bridge,
      exec (Bridge.next 2) (.start default blankRam) (pairUp.map .net) = .ok s ∧
      (∃ c : Client .vm1, s.net.client .vm1 = some c ∧ c.dev.realized = true ∧ c.queue = []) ∧
      (∃ c : Client .vm2, s.net.client .vm2 = some c ∧ c.dev.realized = true ∧ c.queue = []) ∧
      s.net.Quiet :=
    ⟨_, rfl, ⟨_, rfl, rfl, rfl⟩, ⟨_, rfl, rfl, rfl⟩, by decide⟩
  refine ⟨s, hs, comes_to_pair le_rfl (Run.of_exec hs) (tame_net eventfd_pairUp) ?_ hquiet
    (by decide) (by decide)⟩
  intro x
  cases x with
  | vm1 => exact ⟨c₁, hc₁, hr₁, hq₁⟩
  | vm2 => exact ⟨c₂, hc₂, hr₂, hq₂⟩

/-- The device of a machine leaves. -/
def BridgeAct.Leaves (a : BridgeAct) : Prop := ∃ x, a = .net (.leave x)

theorem bridge_paired_step (hok : s.net.Ok n) (han : s.net.Announced) (hp : s.net.Paired)
    (hin : Inbounds n (s, a)) (hl : ¬ a.Leaves) (h : BridgeStep n s a s') : s'.net.Paired := by
  rcases bridge_cases hin h with ⟨b, rfl, hb⟩ | ⟨-, x, c, c', ht⟩
  · refine paired_step hok han hp (fun x hx => hl ⟨x, ?_⟩) hb
    rw [hx]
  · exact ht.paired hp

/-- **Paired devices stay paired** while nobody leaves. -/
theorem paired_run (hs : s₀.net.Sound n) (hp : s₀.net.Paired) (h : Run (BridgeStep n) s₀ t s)
    (ht : ∀ e ∈ t, Tame n e) (hl : ∀ e ∈ t, ¬ e.2.Leaves) : s.net.Sound n ∧ s.net.Paired := by
  refine h.inv_of (fun s => s.net.Sound n ∧ s.net.Paired) (fun e => Tame n e ∧ ¬ e.2.Leaves)
    ⟨hs, hp⟩ ?_ fun e he => ⟨ht e he, hl e he⟩
  rintro s a s' ⟨hs, hp⟩ ⟨ht, hl⟩ hst
  exact ⟨bridge_sound_step ht hs hst, bridge_paired_step hs.ok hs.announced hp ht.toInbounds hl hst⟩

end

/-! ## Nothing faults -/

/-- What can come up: a notifier is looked at by the handler that was registered for it, and an
    access is one that the memory core makes.  The value of a global signal is 1. -/
def Bridge.Admits (s : Bridge) : BridgeAct → Prop
  | .net (.notify x vector) => ∃ c : Client x, s.net.client x = some c ∧
      ∃ e, msiVector (c.ctx s.net.shm) vector = .ok e ∧ e.pdev = true
  | .access a => a.IsAccess ∧ ¬ a.BadSignal
  | _ => True

section
variable {n : ℕ} {s : Net} {x : Vm} {c : Client x} {r : Ctx x}

/-- A handler that signals nobody leaves the events as they are. -/
theorem Net.finish_silent (s : Net) (c : Client x) (h : r.signals = []) :
    ∃ s', s.finish c r = .ok s' := by
  have hout : r.out.foldlM (deliver r.dev) s.pending = .ok s.pending := by
    rw [foldlM_deliver]
    unfold Ctx.signals at h
    rw [h]
    rfl
  unfold Net.finish
  rw [hout]
  exact ⟨_, rfl⟩

section
variable {m : Msg} {queue : List Msg} {err : Option MsgError} {env : Env}

/-- The step in which a message is handled takes over what its handler leaves. -/
theorem next_recv (hc : s.client x = some c) (hr : c.dev.realized = true)
    (hq : c.queue = m :: queue)
    (hm : processMsg (c.ctx s.shm) m.value m.fd env = .ok (r, err)) :
    s.next n (.recv x env) = s.finish { c with queue := queue } r := by
  simp only [Net.next, hc, hr, hq, hm]
  rfl

/-- A message that signals nobody is handled. -/
theorem recv_silent (hc : s.client x = some c) (hr : c.dev.realized = true)
    (hq : c.queue = m :: queue)
    (hm : processMsg (c.ctx s.shm) m.value m.fd env = .ok (r, err))
    (hsig : r.signals = []) : ∃ s', NetStep n s (.recv x env) s' := by
  unfold NetStep
  rw [next_recv hc hr hq hm]
  exact s.finish_silent _ hsig

end

theorem recv_completes (hok : s.Ok n) (hs : s.Receptive) (hp : s.Paired) (x : Vm) (env : Env) :
    (∃ s', s.next n (.recv x env) = .ok s') ∨ s.next n (.recv x env) = .error .disabled := by
  obtain ⟨c, hc⟩ := hp.present x
  have hr := hp.realized hok hc
  have hvm := (hok.client hc).vmId hr
  cases hq : c.queue with
  | nil =>
    refine Or.inr ?_
    simp only [Net.next, hc, hr, hq]
  | cons m queue =>
    obtain ⟨r, err, hm, -⟩ : ∃ r err, processMsg (c.ctx s.shm) m.value m.fd env = .ok (r, err) ∧
        Ready r := processMsg_ready (hs.ready hc hr) (hs.not_freed hc hr hq)
    have hsig : r.signals = [] := by
      obtain ⟨-, -, ⟨hi, -⟩ | ⟨-, hsil⟩, -⟩ := processMsg_spec hm
      · refine absurd hi (not_inits_of_inited ?_)
        have hi := hp.inited hc
        unfold Client.Inited at hi
        rw [← hvm] at hi
        exact hi
      · exact hsil.signals
    exact Or.inl (recv_silent hc hr hq hm hsig)

theorem notify_completes (hs : s.Receptive) {vector : ℕ} (hc : s.client x = some c)
    (hr : c.dev.realized = true) {e : MSIVector} (he : msiVector (c.ctx s.shm) vector = .ok e)
    (hpdev : e.pdev = true) : ∃ s', s.next n (.notify x vector) = .ok s' := by
  have hready := hs.ready hc hr
  obtain ⟨fd, hfd⟩ : ∃ fd, vectorNotifier (c.ctx s.shm) vector = .ok (some fd) := by
    have hlt : vector < (c.ctx s.shm).dev.nbEventfds (c.ctx s.shm).dev.vmId := by
      by_contra hge
      have hno := hready.unwired vector (Nat.not_lt.1 hge) e he
      rw [hpdev] at hno
      cases hno
    obtain ⟨-, -, fd, hfd⟩ := hready.table.notifier hlt
    exact ⟨fd, bind_ok.2 ⟨e, he, by rw [if_pos hpdev]; exact hfd⟩⟩
  obtain ⟨r, hv⟩ : ∃ r, ivshmemVectorNotify (c.ctx s.shm) vector ((some fd).any s.pending) =
      .ok r := by
    have hr' : (c.ctx s.shm).dev.realized = true := hr
    unfold ivshmemVectorNotify
    rw [if_pos hr']
    split_ifs <;> exact ⟨_, rfl⟩
  have hsig : r.signals = [] := (ivshmemVectorNotify_spec hv).2.1
  obtain ⟨s', hs'⟩ := (s.testAndClear (some fd)).finish_silent c hsig
  refine ⟨s', ?_⟩
  simp only [Net.next, hc, hfd]
  show ((ivshmemVectorNotify (c.ctx s.shm) vector ((some fd).any s.pending)).mapError
    Halt.fault >>= fun r => (s.testAndClear (some fd)).finish c r) = _
  rw [hv]
  exact hs'

end

section
variable {n : ℕ} {s s' : Bridge} {a : BridgeAct} {t t' : List (Bridge × BridgeAct)}
  {shm : IdtIvshmemShmStorage} {ram : Vm → Ram} {x : Vm}

/-- Paired devices reach each other's interrupt notifiers, and their own. -/
theorem Net.Paired.linked (hok : s.net.Ok n) (hs : s.net.Served) (hp : s.net.Paired) :
    Linked (s.sys n) := by
  intro x
  obtain ⟨c, d, hc, hd, hk⟩ := hp x
  have hr := hp.realized hok hc
  have hvm := (hok.client hc).vmId hr
  constructor
  · obtain ⟨-, -, fd, hfd⟩ := (hok.client hc).table.notifier hk.reaches
    refine ⟨some fd, ?_⟩
    rw [Bridge.sys_dev hc, hk.other]
    exact hfd
  · have hown : eventfdInterruptHost < c.dev.nbEventfds c.dev.vmId := by
      rw [hvm]
      exact hk.inited
    obtain ⟨fd, hfd⟩ := (hs.attends hc hr).watches hown
    refine ⟨some fd, ?_⟩
    have hctx : (s.sys n).ctx x = c.ctx s.net.shm := by
      unfold Sys.ctx Client.ctx
      rw [Bridge.sys_dev hc]
      rfl
    rw [hctx]
    exact hfd

/-- **One step with paired devices** is taken, or it has nothing to do. -/
theorem admitted_step (hs : s.net.Sound n) (hp : s.net.Paired) (ha : s.Admits a) :
    (∃ s', s.next n a = .ok s') ∨ s.next n a = .error .disabled := by
  have hlift : ∀ {b : NetAct}, ((∃ s', s.net.next n b = .ok s') ∨
      s.net.next n b = .error .disabled) →
      (∃ s', s.next n (.net b) = .ok s') ∨ s.next n (.net b) = .error .disabled := by
    rintro b (⟨s', h⟩ | h)
    · refine Or.inl ⟨{ s with net := s' }, ?_⟩
      simp only [Bridge.next, h]
      rfl
    · refine Or.inr ?_
      simp only [Bridge.next, h]
      rfl
  cases a with
  | net b =>
    refine hlift ?_
    cases b with
    | join x id =>
      obtain ⟨c, hc⟩ := hp.present x
      simp [Net.next, hc]
    | leave x =>
      obtain ⟨c, hc⟩ := hp.present x
      simp [Net.next, hc]
    | realize x env =>
      obtain ⟨c, hc⟩ := hp.present x
      simp [Net.next, hc, hp.realized hs.ok hc]
    | recv x env => exact recv_completes hs.ok hs.served.toReceptive hp x env
    | notify x vector =>
      obtain ⟨c, hc, e, he, hpdev⟩ := ha
      exact Or.inl (notify_completes hs.served.toReceptive hc (hp.realized hs.ok hc) he hpdev)
  | place x bars =>
    obtain ⟨c, hc⟩ := hp.present x
    simp [Bridge.next, hc, hp.realized hs.ok hc]
  | access b =>
    simp only [Bridge.next]
    cases hx : b.guest with
    | none => exact Or.inr rfl
    | some x =>
      obtain ⟨c, hc⟩ := hp.present x
      obtain ⟨u, hu, -⟩ := access_step (hp.linked hs.ok hs.served) ha.1 ha.2
      simp only [hc, hp.realized hs.ok hc, hu, if_true]
      exact Or.inl ⟨_, rfl⟩

/-- **A bridge with paired devices never faults**, whatever the guests, the server and the devices
    do next, while nobody leaves. -/
theorem paired_never_faults (h : Run (BridgeStep n) (.start shm ram) t s)
    (ht : ∀ e ∈ t, Tame n e) (hp : s.net.Paired) (h' : Run (BridgeStep n) s t' s')
    (ht' : ∀ e ∈ t', Tame n e) (hl : ∀ e ∈ t', ¬ e.2.Leaves) (hin : Inbounds n (s', a))
    (ha : s'.Admits a) (behind : ℕ) (f : Fault) :
    s'.nextMapped n behind a ≠ .error (.fault f) := by
  obtain ⟨hs', hp'⟩ := paired_run (bridge_sound h ht) hp h' ht' hl
  rw [Bridge.nextMapped_of_mapped (hin.mapped behind)]
  rcases admitted_step hs' hp' ha with ⟨s₁, hs₁⟩ | hdis
  · rw [hs₁]
    nofun
  · rw [hdis]
    nofun

end

/-- Two paired devices, with no event pending. -/
theorem paired_up : ∃ s : Bridge,
    exec (Bridge.next 2) (.start default blankRam) (pairUp.map .net) = .ok s ∧ s.net.Paired ∧
      ∃ c : Client .vm2, s.net.client .vm2 = some c ∧
        s.net.pending ⟨c.id, eventfdInterruptHost⟩ = false := by
  refine ⟨_, rfl, fun x => ?_, _, rfl, rfl⟩
  cases x with
  | vm1 => exact ⟨_, _, rfl, rfl, by decide, rfl, by decide⟩
  | vm2 => exact ⟨_, _, rfl, rfl, by decide, rfl, by decide⟩

/-- The guests unmask everything, and the first one rings. -/
def unmaskAndRing : List BridgeAct :=
  [.access (.write .vm2 ConfigReg.ntintmsk.addr 0),
    .access (.write .vm1 ConfigReg.outdbellset.addr 1)]

theorem tame_unmaskAndRing {s : Bridge} :
    ∀ e ∈ trace (Bridge.next 2) s unmaskAndRing, Tame 2 e ∧ ¬ e.2.Leaves := by
  intro e he
  have hmem := mem_of_mem_trace he
  simp only [unmaskAndRing, List.mem_cons, List.not_mem_nil, or_false] at hmem
  obtain ⟨u, a⟩ := e
  rcases hmem with rfl | rfl
  · exact ⟨tame_write (r := .ntintmsk) fun h => h, by rintro ⟨x, hx⟩; cases hx⟩
  · exact ⟨tame_write (r := .outdbellset) fun h => h, by rintro ⟨x, hx⟩; cases hx⟩

theorem paired_never_faults_signal : ∃ s s' : Bridge,
    exec (Bridge.next 2) (.start default blankRam) (pairUp.map .net) = .ok s ∧
      exec (Bridge.next 2) s unmaskAndRing = .ok s' ∧
      ∀ f, s'.nextMapped 2 0 (.access (.write .vm2 ConfigReg.ntgsignal.addr 1)) ≠
        .error (.fault f) := by
  obtain ⟨s, hs, hp, -⟩ := paired_up
  obtain ⟨s', hs'⟩ : ∃ s', exec (Bridge.next 2) s unmaskAndRing = .ok s' := by
    cases hs
    exact ⟨_, rfl⟩
  refine ⟨s, s', hs, hs', paired_never_faults (Run.of_exec hs) (tame_net eventfd_pairUp) hp
    (Run.of_exec hs') (fun e he => (tame_unmaskAndRing e he).1)
    (fun e he => (tame_unmaskAndRing e he).2) (tame_write (r := .ntgsignal) fun h => h).toInbounds
    ⟨trivial, ?_⟩ 0⟩
  rintro ⟨x, v, hw, hv⟩
  cases hw
  exact hv rfl

end IdtNtb
