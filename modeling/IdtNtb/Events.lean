/-
  The events over the whole life of the bridge, in eventfd mode.

  An event is an eventfd that somebody has signalled and its client has not yet
  looked at.  The devices come and go, know no peer, the wrong one, or one that
  has left.

  * `Signals`: what makes the event of a notifier pending is an access that alerts
    the client whose id the device holds, or the announcement of the second
    machine's device to the client in the first one's block, if the notifier is in
    the table; it is never the event of a third client;
  * `Takes`: only its client takes it;
  * `events_for_life`: an event is pending exactly if it was signalled since its
    client last looked, and a device that looks raises an MSI exactly then;
  * `interrupt_history`: between paired devices that is what the masks let through,
    and the handler can always run.
-/
import IdtNtb.Membership

namespace IdtNtb

open Function (update)
open Runs

/-! ## Who signals and who looks -/

/-- The notifier `fd` is in the table of the device. -/
def Client.Has {x : Vm} (c : Client x) (fd : Fd) : Prop :=
  fd.vector < (c.dev.peer fd.client).nbEventfds

/-- The step signals the notifier. -/
inductive Signals (n : ℕ) (fd : Fd) : Bridge × BridgeAct → Prop
  | alert {s : Bridge} {a : Act} {x : Vm} {c : Client x} (hx : a.guest = some x)
      (hc : s.net.client x = some c) (halert : Alerting x (s.sys n, a))
      (hto : c.dev.otherVmId = fd.client) (hvec : fd.vector = eventfdInterruptHost)
      (hfd : c.Has fd) : Signals n fd (s, .access a)
  | announce {s : Bridge} {env : Env} {c : Client .vm2} (hc : s.net.client .vm2 = some c)
      (hrun : RunsInit .vm2 (s.net, .recv .vm2 env))
      (hto : (s.net.shm.vm .vm1).id.toInt = fd.client) (hvec : fd.vector = eventfdVmId)
      (hfd : c.Has fd) : Signals n fd (s, .net (.recv .vm2 env))

/-- The client of the notifier looks at it. -/
def Takes (fd : Fd) (e : Bridge × BridgeAct) : Prop :=
  ∃ y, ∃ c : Client y, e.1.net.client y = some c ∧ c.id = fd.client ∧
    e.2 = .net (.notify y fd.vector)

section
variable {n k : ℕ} {s s' : Net} {x y : Vm} {fd : Fd} {posn : ℤ} {o : Option Fd}

/-- What is found in a slot is the notifier that belongs there. -/
theorem found_iff (hok : s.Ok n) (hf : s.Forgets n) (hn : s.Named) {c : Client x}
    (hc : s.client x = some c) (h : c.dev.notifier posn k = .ok o) :
    o = some fd ↔ posn = fd.client ∧ fd.vector = k ∧ c.Has fd := by
  have hslot := IVShmemState.notifier_ok h
  obtain ⟨p, rfl⟩ := Int.eq_ofNat_of_zero_le (notifier_nonneg h)
  rw [Int.toNat_natCast] at hslot
  constructor
  · rintro rfl
    obtain rfl := hf.holds hok hc p k fd hslot
    exact ⟨rfl, rfl, (hn.slots hc p k _ hslot).2⟩
  · rintro ⟨hp, rfl, hfd⟩
    obtain rfl := Int.natCast_inj.1 hp
    obtain ⟨-, -, f, hf'⟩ := (hok.client hc).table.notifier (i := fd.client) (k := fd.vector) (by
      rw [IVShmemState.nbEventfds_natCast]
      exact hfd)
    obtain rfl : o = some f := Except.ok.inj (h.symm.trans hf')
    rw [hf.holds hok hc _ _ f hslot]

/-- The event that a signal has set. -/
theorem pending_set {p p' : Fd → Bool}
    (h : (o = none ∧ p' = p) ∨ ∃ f, o = some f ∧ p' = update p f true) :
    p' fd = true ↔ o = some fd ∨ p fd = true := by
  rcases h with ⟨rfl, rfl⟩ | ⟨f, rfl, rfl⟩
  · simp
  · rcases eq_or_ne fd f with rfl | hne
    · simp
    · rw [Function.update_of_ne hne, Option.some_inj, or_iff_right hne.symm]

/-- The announcement leaves the first slots of the table as they are. -/
theorem has_of_announce {c c' : Ctx x} {m : Msg} {env : Env} {err : Option MsgError} {i : ℕ}
    (h : processMsg c m.value m.fd env = .ok (c', err)) (hi : Inits c.dev m.value m.fd env) :
    0 < (c'.dev.peer i).nbEventfds ↔ 0 < (c.dev.peer i).nbEventfds := by
  obtain ⟨hfd, -, hmax, h1, hvec, -⟩ := hi
  obtain ⟨f, hfd⟩ := Option.isSome_iff_exists.1 hfd
  obtain ⟨hpeer, -⟩ := processMsg_spec h
  rw [hpeer]
  by_cases hv : m.value = i
  · rw [hv, IVShmemState.nbEventfds_natCast] at h1
    rw [hv] at hmax
    rw [hv, hfd, entryAfter_connect hmax, if_neg (by omega), h1]
    exact iff_of_true (Nat.succ_pos _) Nat.zero_lt_one
  · rw [entryAfter_of_ne hv]

end

/-! ## Every step -/

section
variable {n : ℕ} {s s' : Bridge} {a : BridgeAct} {t : List (Bridge × BridgeAct)}
  {shm : IdtIvshmemShmStorage} {ram : Vm → Ram} {x y : Vm} {fd : Fd} {env : Env}

theorem not_takes (h : ∀ y k, a ≠ .net (.notify y k)) : ¬ Takes fd (s, a) := by
  rintro ⟨y, c, -, -, ha⟩
  exact h _ _ ha

/-- Who signals the notifier, and why. -/
theorem signals_cases (h : Signals n fd (s, a)) :
    (∃ (b : Act) (x : Vm) (c : Client x), a = .access b ∧ b.guest = some x ∧
      s.net.client x = some c ∧ Alerting x (s.sys n, b) ∧ c.dev.otherVmId = fd.client ∧
      fd.vector = eventfdInterruptHost ∧ c.Has fd) ∨
    ∃ (env : Env) (c : Client .vm2), a = .net (.recv .vm2 env) ∧ s.net.client .vm2 = some c ∧
      RunsInit .vm2 (s.net, .recv .vm2 env) ∧ (s.net.shm.vm .vm1).id.toInt = fd.client ∧
      fd.vector = eventfdVmId ∧ c.Has fd := by
  generalize he : (s, a) = e at h
  cases h with
  | alert hx hc halert hto hvec hfd =>
    obtain ⟨rfl, rfl⟩ := Prod.mk.inj he
    exact Or.inl ⟨_, _, _, rfl, hx, hc, halert, hto, hvec, hfd⟩
  | announce hc hrun hto hvec hfd =>
    obtain ⟨rfl, rfl⟩ := Prod.mk.inj he
    exact Or.inr ⟨_, _, rfl, hc, hrun, hto, hvec, hfd⟩

theorem signals_access {b : Act} {c : Client x} (hx : b.guest = some x)
    (hc : s.net.client x = some c) : Signals n fd (s, .access b) ↔
      Alerting x (s.sys n, b) ∧ c.dev.otherVmId = fd.client ∧
        fd.vector = eventfdInterruptHost ∧ c.Has fd := by
  constructor
  · intro hs
    rcases signals_cases hs with ⟨b', x', c', hb, hx', hc', h⟩ | ⟨e, c', hb, -⟩
    · obtain rfl := BridgeAct.access.inj hb
      obtain rfl := Option.some_inj.1 (hx.symm.trans hx')
      obtain rfl := Option.some_inj.1 (hc.symm.trans hc')
      exact h
    · cases hb
  · rintro ⟨halert, hto, hvec, hfd⟩
    exact .alert hx hc halert hto hvec hfd

theorem signals_recv {c : Client .vm2} (hc : s.net.client .vm2 = some c)
    (hrun : RunsInit .vm2 (s.net, .recv .vm2 env)) : Signals n fd (s, .net (.recv .vm2 env)) ↔
      (s.net.shm.vm .vm1).id.toInt = fd.client ∧ fd.vector = eventfdVmId ∧ c.Has fd := by
  constructor
  · intro hs
    rcases signals_cases hs with ⟨b, x', c', hb, -⟩ | ⟨e, c', -, hc', -, h⟩
    · cases hb
    · obtain rfl := Option.some_inj.1 (hc.symm.trans hc')
      exact h
  · rintro ⟨hto, hvec, hfd⟩
    exact .announce hc hrun hto hvec hfd

/-- Of the server and the devices, only the announcement signals. -/
theorem not_signals {b : NetAct} (h : ¬ RunsInit .vm2 (s.net, b)) :
    ¬ Signals n fd (s, .net b) := by
  intro hs
  rcases signals_cases hs with ⟨b', x, c, hb, -⟩ | ⟨e, c, hb, -, hrun, -⟩
  · cases hb
  · obtain rfl := BridgeAct.net.inj hb
    exact h hrun

/-- Placing the BARs signals nobody. -/
theorem not_signals_place {bars : Fin 6 → BusAddr} : ¬ Signals n fd (s, .place x bars) := by
  intro hs
  rcases signals_cases hs with ⟨b, x, c, hb, -⟩ | ⟨e, c, hb, -⟩ <;> cases hb

/-- A message signals nobody, or announces the second machine's device. -/
theorem signals_step_recv (hok' : s'.net.Ok n) (hf' : s'.net.Forgets n)
    (hn' : s'.net.Named) (h : NetStep n s.net (.recv x env) s'.net) :
    s'.net.pending fd = true ↔ Signals n fd (s, .net (.recv x env)) ∨ s.net.pending fd = true := by
  rcases recv_events h with ⟨hno, hpend, -⟩ | ⟨hrun, c', hc', -, o, ho, hset⟩
  · rw [hpend, or_iff_right (not_signals hno)]
  · obtain rfl : x = .vm2 := hrun.1
    obtain ⟨c, c₁, m, queue, r, err, hgoes, -, hq, hm, rfl, -⟩ := goes_recv h
    obtain rfl := Option.some_inj.1 (hgoes.self.symm.trans hc')
    have hi := (runsInit_iff hgoes.client hq).1 hrun
    rw [pending_set hset, signals_recv hgoes.client hrun, found_iff hok' hf' hn' hc' ho]
    refine or_congr_left (and_congr_right fun _ => and_congr_right fun hvec => ?_)
    unfold Client.Has
    rw [hvec]
    exact has_of_announce hm hi

/-- A device that looks takes the event of its own notifier. -/
theorem takes_step (hok : s.net.Ok n) (hs : s.net.Served) {k : ℕ}
    (h : NetStep n s.net (.notify x k) s'.net) : s'.net.pending fd = true ↔
      s.net.pending fd = true ∧ ¬ Takes fd (s, .net (.notify x k)) := by
  obtain ⟨c, hc, hpend⟩ := notify_takes hok hs h
  have htakes : Takes fd (s, .net (.notify x k)) ↔ fd = ⟨c.id, k⟩ := by
    constructor
    · rintro ⟨y, d, hd, hid, ha⟩
      simp only [BridgeAct.net.injEq, NetAct.notify.injEq] at ha
      obtain ⟨rfl, rfl⟩ := ha
      obtain rfl := Option.some_inj.1 (hc.symm.trans hd)
      rw [hid]
    · rintro rfl
      exact ⟨x, c, hc, rfl, rfl⟩
  rw [htakes, hpend]
  rcases eq_or_ne fd ⟨c.id, k⟩ with rfl | hne
  · simp
  · rw [Function.update_of_ne hne, and_iff_left hne]

/-- **One step**: what signals the notifier sets its event, and its client takes it. -/
theorem events_step (hin : Inbounds n (s, a)) (hok : s.net.Ok n) (hs : s.net.Served)
    (hf : s.net.Forgets n) (hn : s.net.Named) (h : BridgeStep n s a s') :
    s'.net.pending fd = true ↔
      Signals n fd (s, a) ∨ (s.net.pending fd = true ∧ ¬ Takes fd (s, a)) := by
  have hstays : ∀ {b : NetAct}, a = .net b → ¬ RunsInit .vm2 (s.net, b) →
      (∀ y k, a ≠ .net (.notify y k)) → s'.net.pending = s.net.pending →
      (s'.net.pending fd = true ↔
        Signals n fd (s, a) ∨ (s.net.pending fd = true ∧ ¬ Takes fd (s, a))) := by
    rintro b rfl hrun hno hpend
    rw [hpend, or_iff_right (not_signals hrun), and_iff_left (not_takes hno)]
  cases a with
  | net b =>
    obtain ⟨hst, -⟩ := bridge_net h
    cases b with
    | join x id =>
      refine hstays rfl (not_runsInit (by simp)) (by simp) ?_
      obtain ⟨-, -, -, hs'⟩ := net_join hst
      rw [hs']
    | leave x =>
      refine hstays rfl (not_runsInit (by simp)) (by simp) ?_
      obtain ⟨c, -, hs'⟩ := net_leave hst
      rw [hs']
    | realize x env =>
      refine hstays rfl (not_runsInit (by simp)) (by simp) ?_
      obtain ⟨c, c', -, -, -, -, -, -, -, -, hpend⟩ := goes_realize hok hst
      exact hpend
    | recv x env =>
      rw [and_iff_left (not_takes (by simp))]
      exact signals_step_recv (ok_step hok hst) (forgets_step hok hf hst) (named_step hok hn hst) hst
    | notify x k =>
      rw [or_iff_right (not_signals (not_runsInit (by simp)))]
      exact takes_step hok hs hst
  | place x bars =>
    obtain ⟨c, -, -, -, -, hpend, -⟩ := bridge_place h
    rw [hpend, or_iff_right not_signals_place, and_iff_left (not_takes (by simp))]
  | access b =>
    obtain ⟨x, c, hx, hc, -, hst, -⟩ := bridge_access h
    rw [and_iff_left (not_takes (by simp)), signals_access hx hc]
    rcases access_delivers hx hst with ⟨halert, o, ho, hset⟩ | ⟨halert, hpend⟩
    · rw [Bridge.sys_dev hc] at ho
      have hset' : s'.net.pending fd = true ↔ o = some fd ∨ s.net.pending fd = true :=
        pending_set hset
      rw [found_iff hok hf hn hc ho] at hset'
      rw [and_iff_right halert]
      exact hset'
    · have hpend' : s'.net.pending = s.net.pending := hpend
      rw [hpend', or_iff_right fun hn => halert hn.1]

/-! ## Whole runs -/

/-- **The events for life**, in eventfd mode: whatever joins, leaves and comes up, an event is pending
    exactly if it was signalled since its client last looked, and the handler of a connected device
    raises an MSI exactly if its interrupt notifier was.  So no event is lost or comes from nowhere,
    and none goes to a client whose id nobody holds. -/
theorem events_for_life (h : Run (BridgeStep n) (.start shm ram) t s)
    (ht : ∀ e ∈ t, Tame n e) :
    (∀ fd, s.net.pending fd = true ↔ Since (Signals n fd) (Takes fd) t) ∧
    ∀ y, ∀ c ∈ s.net.client y, c.Inited →
      (MsiRaised y (s, .net (.notify y eventfdInterruptHost)) ↔
        Since (Signals n ⟨c.id, eventfdInterruptHost⟩) (Takes ⟨c.id, eventfdInterruptHost⟩) t) := by
  have hpend : ∀ fd, s.net.pending fd = true ↔ Since (Signals n fd) (Takes fd) t := by
    intro fd
    refine h.latch (fun s => s.net.pending fd = true) (by simp [Bridge.start, Net.start]) ?_
    intro e he s₁ hst
    obtain ⟨t₁, t₂, -, rfl, hrun, -⟩ := h.fired he
    have ht₁ : ∀ e ∈ t₁, Tame n e := fun e he => ht e (by simp [he])
    have hin₁ : ∀ e ∈ t₁, Inbounds n e := fun e he => (ht₁ e he).toInbounds
    exact events_step (ht e he).toInbounds (bridge_ok hrun hin₁) (bridge_sound hrun ht₁).served
      (bridge_forgets hrun hin₁) (bridge_named hrun hin₁) hst
  refine ⟨hpend, fun y c hc hi => ?_⟩
  rw [← hpend]
  exact msiRaised_iff (bridge_sound h ht).ok (bridge_sound h ht).served hc hi

end

/-- The ring of the first machine waits for the second one. -/
theorem events_for_life_ring : ∃ s s' : Bridge,
    exec (Bridge.next 2) (.start default blankRam) (pairUp.map .net) = .ok s ∧
      exec (Bridge.next 2) s unmaskAndRing = .ok s' ∧
      Since (Signals 2 ⟨1, eventfdInterruptHost⟩) (Takes ⟨1, eventfdInterruptHost⟩)
        (trace (Bridge.next 2) (.start default blankRam) (pairUp.map .net) ++
          trace (Bridge.next 2) s unmaskAndRing) := by
  obtain ⟨s, s', hs, hs', hp⟩ : ∃ s s' : Bridge,
      exec (Bridge.next 2) (.start default blankRam) (pairUp.map .net) = .ok s ∧
      exec (Bridge.next 2) s unmaskAndRing = .ok s' ∧
      s'.net.pending ⟨1, eventfdInterruptHost⟩ = true := ⟨_, _, rfl, rfl, rfl⟩
  refine ⟨s, s', hs, hs', ((events_for_life ((Run.of_exec hs).trans (Run.of_exec hs')) ?_).1 _).1 hp⟩
  intro e he
  rcases List.mem_append.1 he with he | he
  · exact tame_net eventfd_pairUp e he
  · exact (tame_unmaskAndRing e he).1

/-! ## Paired devices -/

section
variable {n : ℕ} {s s' : Bridge} {a : BridgeAct} {t t' : List (Bridge × BridgeAct)}
  {shm : IdtIvshmemShmStorage} {ram : Vm → Ram} {y : Vm} {c : Client y}

/-- What signals a paired device is what arrives there. -/
theorem signals_paired (hok : s.net.Ok n) (hp : s.net.Paired) (hc : s.net.client y = some c) :
    Signals n ⟨c.id, eventfdInterruptHost⟩ (s, a) ↔ Arrives n y (s, a) := by
  cases a with
  | net b =>
    refine iff_of_false (fun hsig => ?_) not_arrives
    rcases signals_cases hsig with ⟨b', x, d, hb, -⟩ | ⟨e, d, -, -, -, -, hvec, -⟩
    · cases hb
    · have hvec : eventfdInterruptHost = eventfdVmId := hvec
      cases hvec
  | place x bars =>
    refine iff_of_false not_signals_place ?_
    rintro ⟨b, hb, -⟩
    cases hb
  | access b =>
    cases hx : b.guest with
    | none =>
      refine iff_of_false (fun hsig => ?_) fun harr => ?_
      · rcases signals_cases hsig with ⟨b', x, d, hb, hx', -⟩ | ⟨e, d, hb, -⟩
        · rw [← BridgeAct.access.inj hb, hx] at hx'
          cases hx'
        · cases hb
      · have hguest := arrives_guest harr
        rw [hx] at hguest
        cases hguest
    | some x =>
      obtain ⟨d, hd⟩ := hp.present x
      rw [signals_access hx hd]
      rcases Vm.eq_or_other y x with rfl | rfl
      · -- its own guest signals the other device
        obtain ⟨e, he⟩ := hp.present x.other
        obtain rfl := Option.some_inj.1 (hc.symm.trans hd)
        refine iff_of_false ?_ fun harr => ?_
        · rintro ⟨-, hto, -⟩
          rw [(hp.knows hc he).other, Int.natCast_inj] at hto
          exact hok.distinct hc he (Vm.ne_other x) hto.symm
        · have hguest := arrives_guest harr
          rw [hx, Option.some_inj] at hguest
          exact Vm.ne_other x hguest
      · obtain ⟨c', hc', hid⟩ : ∃ c' : Client y.other.other,
            s.net.client y.other.other = some c' ∧ c'.id = c.id := by
          rw [Vm.other_other]
          exact ⟨c, hc, rfl⟩
        have hk := hp.knows hd hc'
        rw [hid] at hk
        have hknown : ((s.sys n).dev y.other).otherVmId ≠ -1 := by
          rw [Bridge.sys_dev hd, hk.other]
          omega
        rw [alerting_iff hknown]
        have hhas : d.Has ⟨c.id, eventfdInterruptHost⟩ := by
          have hreach := hk.reaches
          unfold Connected at hreach
          rw [IVShmemState.nbEventfds_natCast] at hreach
          exact hreach
        constructor
        · rintro ⟨harr, -⟩
          exact ⟨b, rfl, harr⟩
        · rintro ⟨b', hb, harr⟩
          exact ⟨BridgeAct.access.inj hb ▸ harr, hk.other, rfl, hhas⟩

/-- **The event after one step**: what arrives sets it, the MSI takes it. -/
theorem event_step (hin : Inbounds n (s, a)) (h : Run (BridgeStep n) (.start shm ram) t s)
    (ht : ∀ e ∈ t, Tame n e) (hp : s.net.Paired) (hc : s.net.client y = some c)
    (hst : BridgeStep n s a s') : s'.net.pending ⟨c.id, eventfdInterruptHost⟩ = true ↔
      Arrives n y (s, a) ∨
        (s.net.pending ⟨c.id, eventfdInterruptHost⟩ = true ∧ ¬ MsiRaised y (s, a)) := by
  have hin₀ : ∀ e ∈ t, Inbounds n e := fun e he => (ht e he).toInbounds
  obtain ⟨hok, -, hs⟩ := bridge_sound h ht
  rw [events_step hin hok hs (bridge_forgets h hin₀) (bridge_named h hin₀) hst,
    signals_paired hok hp hc]
  refine or_congr_right (and_congr_right fun hpend => not_congr ?_)
  constructor
  · rintro ⟨z, d, hd, hid, ha⟩
    obtain rfl : a = _ := ha
    have hz : z = y := by
      by_contra hz
      exact hok.distinct hd hc hz hid
    subst hz
    exact (msiRaised_iff hok hs hc (hp.inited hc)).2 hpend
  · rintro ⟨ha, -⟩
    exact ⟨y, c, hc, rfl, ha⟩

/-- What holds of a bridge on which the device of `y` is paired, and has the id `id`. -/
structure PairedAs (n : ℕ) (y : Vm) (id : ℕ) (s : Bridge) : Prop where
  sound : s.net.Sound n
  paired : s.net.Paired
  here : ∃ c : Client y, s.net.client y = some c ∧ c.id = id

theorem PairedAs.step {id : ℕ} (hs : PairedAs n y id s) (ht : Tame n (s, a))
    (hl : ¬ a.Leaves) (h : BridgeStep n s a s') : PairedAs n y id s' := by
  have hin := ht.toInbounds
  have hp' := bridge_paired_step hs.sound.ok hs.sound.announced hs.paired hin hl h
  obtain ⟨c, hc, hid⟩ := hs.here
  obtain ⟨c', hc'⟩ := hp'.present y
  have hback : ∃ d : Client y, s.net.client y = some d ∧ d.id = c'.id := by
    rcases bridge_cases hin h with ⟨b, rfl, hb⟩ | ⟨-, x, d, d', htune⟩
    · obtain ⟨d, hd, hdid, -⟩ := client_back hs.sound.ok (ht.eventfd b rfl) hb hc' fun hj => by
        cases b with
        | join x i =>
          obtain ⟨d, hd⟩ := hs.paired.present x
          have hnone := (net_join hb).1
          rw [hd] at hnone
          cases hnone
        | _ => exact hj
      exact ⟨d, hd, hdid⟩
    · obtain ⟨d, hd, hdid, -⟩ := htune.back hc'
      exact ⟨d, hd, hdid⟩
  obtain ⟨d, hd, hdid⟩ := hback
  rw [hc, Option.some_inj] at hd
  exact ⟨bridge_sound_step ht hs.sound h, hp', c', hc', by rw [← hdid, ← hd, hid]⟩

theorem PairedAs.run {id : ℕ} (hs : PairedAs n y id s) (h : Run (BridgeStep n) s t' s')
    (ht : ∀ e ∈ t', Tame n e) (hl : ∀ e ∈ t', ¬ e.2.Leaves) : PairedAs n y id s' :=
  h.inv_of (PairedAs n y id) (fun e => Tame n e ∧ ¬ e.2.Leaves) hs
    (fun _ _ _ hs hG hst => hs.step hG.1 hG.2 hst) fun e he => ⟨ht e he, hl e he⟩

/-- **The interrupts of a paired device**: an event is pending exactly if something has arrived since
    the last MSI.  The handler can always run, and it raises an MSI exactly then, so that no arrival
    is lost and no MSI comes without one. -/
theorem interrupt_history (h : Run (BridgeStep n) (.start shm ram) t s)
    (ht : ∀ e ∈ t, Tame n e) (hp : s.net.Paired) (hc : s.net.client y = some c)
    (h0 : s.net.pending ⟨c.id, eventfdInterruptHost⟩ = false) (h' : Run (BridgeStep n) s t' s')
    (ht' : ∀ e ∈ t', Tame n e) (hl : ∀ e ∈ t', ¬ e.2.Leaves) :
    (s'.net.pending ⟨c.id, eventfdInterruptHost⟩ = true ↔
      Since (Arrives n y) (MsiRaised y) t') ∧
    (∃ s₁, BridgeStep n s' (.net (.notify y eventfdInterruptHost)) s₁) ∧
    (MsiRaised y (s', .net (.notify y eventfdInterruptHost)) ↔
      Since (Arrives n y) (MsiRaised y) t') := by
  have hs : PairedAs n y c.id s := ⟨bridge_sound h ht, hp, c, hc, rfl⟩
  have hiff : s'.net.pending ⟨c.id, eventfdInterruptHost⟩ = true ↔
      Since (Arrives n y) (MsiRaised y) t' := by
    refine h'.latch (fun s => s.net.pending ⟨c.id, eventfdInterruptHost⟩ = true)
      (by simp [h0]) fun e he s₁ hst => ?_
    obtain ⟨t₁, t₂, -, rfl, hrun, -⟩ := h'.fired he
    have hs₁ := hs.run hrun (fun e he => ht' e (by simp [he])) fun e he => hl e (by simp [he])
    obtain ⟨c', hc', hid⟩ := hs₁.here
    have ht₁ : ∀ e ∈ t ++ t₁, Tame n e := by
      intro e he
      rcases List.mem_append.1 he with he | he
      · exact ht e he
      · exact ht' e (by simp [he])
    rw [← hid]
    exact event_step (ht' e he).toInbounds (h.trans hrun) ht₁ hs₁.paired hc' hst
  have hs' := hs.run h' ht' hl
  obtain ⟨c', hc', hid⟩ := hs'.here
  have hr' := hs'.paired.realized hs'.sound.ok hc'
  have hatt := hs'.sound.served.attends hc' hr'
  refine ⟨hiff, ?_, ?_⟩
  · obtain ⟨e, he, hpdev⟩ := hatt.wired eventfdInterruptHost (by
      show eventfdInterruptHost < c'.dev.nbEventfds c'.dev.vmId
      rw [(hs'.sound.ok.client hc').vmId hr']
      exact hs'.paired.inited hc')
    obtain ⟨net, hnet⟩ := notify_completes (n := n) hs'.sound.served.toReceptive hc' hr' he hpdev
    exact ⟨{ s' with net := net }, bind_ok.2 ⟨net, hnet, rfl⟩⟩
  · rw [msiRaised_iff hs'.sound.ok hs'.sound.served hc' (hs'.paired.inited hc'), hid]
    exact hiff

end

/-- The second machine is interrupted by the doorbell of the first one. -/
theorem interrupt_history_ring : ∃ s s' : Bridge,
    exec (Bridge.next 2) (.start default blankRam) (pairUp.map .net) = .ok s ∧
      exec (Bridge.next 2) s unmaskAndRing = .ok s' ∧
      MsiRaised .vm2 (s', .net (.notify .vm2 eventfdInterruptHost)) := by
  obtain ⟨s, hs, hp, c, hc, h0⟩ := paired_up
  obtain ⟨s₁, s', hs₁, hs₂, hmask⟩ : ∃ s₁ s', s.next 2
      (.access (.write .vm2 ConfigReg.ntintmsk.addr 0)) = .ok s₁ ∧
      s₁.next 2 (.access (.write .vm1 ConfigReg.outdbellset.addr 1)) = .ok s' ∧
      s₁.net.shm.gregs.ntIntMask.getLsbD 1 = false := by
    cases hs
    exact ⟨_, _, rfl, rfl, rfl⟩
  have hs' : exec (Bridge.next 2) s unmaskAndRing = .ok s' := by
    rw [unmaskAndRing, exec, hs₁]
    show exec (Bridge.next 2) s₁ _ = _
    rw [exec, hs₂]
    rfl
  have hsince : Since (Arrives 2 .vm2) (MsiRaised .vm2) (trace (Bridge.next 2) s unmaskAndRing) := by
    have htrace : trace (Bridge.next 2) s unmaskAndRing =
        [(s, .access (.write .vm2 ConfigReg.ntintmsk.addr 0)),
          (s₁, .access (.write .vm1 ConfigReg.outdbellset.addr 1))] := by
      simp only [unmaskAndRing, trace, hs₁, hs₂]
    rw [htrace]
    exact ⟨[_], _, [], rfl, ⟨_, rfl, Or.inl ⟨⟨1, rfl⟩, hmask⟩⟩, List.forall_mem_nil _⟩
  obtain ⟨-, -, hmsi⟩ := interrupt_history (Run.of_exec hs) (tame_net eventfd_pairUp) hp hc h0
    (Run.of_exec hs') (fun e he => (tame_unmaskAndRing e he).1)
    fun e he => (tame_unmaskAndRing e he).2
  exact ⟨s, s', hs, hs', hmsi.2 hsince⟩

end IdtNtb
