/-
  Where notifications go.

  One device after realize: messages of the server, events on its own notifiers,
  writes of its guest, and a shared memory in which the other machine can change
  anything between two handlers.  A handler that signals its peer names the
  notifier by the id the device holds for the peer, and nothing ties that id to
  the peer table:

  * `Orderly` steps take over only ids that are connected, keep the peer that
    the device holds connected, and send no global signal before the peer is
    known;
  * `notifications_live`: in orderly runs every notification goes to a
    connected notifier.  `signal_unknown_peer` is a run that is not orderly.
-/
import IdtNtb.Realize
import IdtNtb.Writes

namespace IdtNtb

open Runs

variable {x : Vm}

/-- What a device can be given to handle. -/
inductive Event where
  | message (m : Msg) (env : Env)
  | notify (vector : ℕ) (pending : Bool)
  | write (addr : BitVec 64) (val : BitVec 32)
  /-- The other machine changes the shared memory. -/
  | shared (shm : IdtIvshmemShmStorage)

/-- Before a handler runs: nothing was signalled yet. -/
def Ctx.fresh (c : Ctx x) : Ctx x := { c with out := [] }

/-- Handle one event.  `out` then holds what this handler did. -/
def Ctx.next (c : Ctx x) : Event → Except Fault (Ctx x)
  | .message m env => (processMsg c.fresh m.value m.fd env).map Prod.fst
  | .notify vector pending => ivshmemVectorNotify c.fresh vector pending
  | .write addr val => ivshmemIoWrite c.fresh addr (val.setWidth 64)
  | .shared shm => .ok { c.fresh with shm := shm }

/-- The device handles an event. -/
def Handles (c : Ctx x) (e : Event) (c' : Ctx x) : Prop := c.next e = .ok c'

/-- The notifier for host interrupts of a peer is connected. -/
def Connected (d : IVShmemState x) (id : ℤ) : Prop := eventfdInterruptHost < d.nbEventfds id

instance (d : IVShmemState x) (id : ℤ) : Decidable (Connected d id) :=
  inferInstanceAs (Decidable (_ < _))

/-- The message closes the notifiers of the peer. -/
def Disconnects (d : IVShmemState x) (m : Msg) (id : ℤ) : Prop :=
  m.fd = none ∧ m.value = id ∧ m.value ≤ ivshmemMaxPeers ∧ m.value ≠ d.vmId

instance (d : IVShmemState x) (m : Msg) (id : ℤ) : Decidable (Disconnects d m id) :=
  inferInstanceAs (Decidable (_ ∧ _))

/-- Steps that keep the id of the peer and the peer table together. -/
def Orderly (e : Ctx x × Event) : Prop :=
  match e.2 with
  | .message m env =>
    -- the peer does not go away, and its id is announced only with its connects
    ¬ Disconnects e.1.dev m e.1.dev.otherVmId ∧
      (Inits e.1.dev m.value m.fd env → x = .vm2 →
        e.1.peerId = e.1.dev.vmId ∨ Connected e.1.dev e.1.peerId)
  | .notify vector pending =>
    vector = eventfdVmId → pending = true → e.1.peerId = -1 ∨ Connected e.1.dev e.1.peerId
  | .write addr _ =>
    addr = ConfigReg.ntgsignal.addr → e.1.SignalArmed → e.1.dev.otherVmId ≠ -1
  | .shared _ => True

instance (e : Ctx x × Event) : Decidable (Orderly e) := by
  unfold Orderly
  split <;> infer_instance

/-- The id held for the peer, if any, is connected. -/
structure Attached (c : Ctx x) : Prop where
  table : c.dev.TableOk
  peer : c.dev.otherVmId = -1 ∨ Connected c.dev c.dev.otherVmId

/-- Every notification of the last handler goes to a connected notifier. -/
def SignalsLive (c : Ctx x) : Prop := ∀ p ∈ c.signals, p.2 < c.dev.nbEventfds p.1

variable {c c₀ c' : Ctx x} {e : Event} {t : List (Ctx x × Event)}

/-! ## What a handler signals -/

/-- Only the signals of a handler are delivered. -/
theorem foldlM_deliver (d : IVShmemState x) (l : List Effect) (pending : Fd → Bool) :
    l.foldlM (deliver d) pending = (l.filterMap Effect.signal?).foldlM
      (fun pending p => deliver d pending (.eventSet p.1 p.2)) pending := by
  induction l generalizing pending with
  | nil => rfl
  | cons e l ih =>
    cases e with
    | eventSet posn vector =>
      simp only [List.filterMap_cons, Effect.signal?, List.foldlM_cons, ih]
    | _ =>
      rw [List.filterMap_cons_none rfl, ← ih]
      rfl

theorem ivshmemVectorNotify_spec {vector : ℕ} {pending : Bool}
    (h : ivshmemVectorNotify c vector pending = .ok c') : c'.shm = c.shm ∧
      c'.signals = c.signals ∧ c'.dev = { c.dev with otherVmId :=
        if pending = true ∧ vector = eventfdVmId then c.peerId else c.dev.otherVmId } := by
  rcases ivshmemVectorNotify_cases h with ⟨hid, rfl⟩ | ⟨hid, rfl | ⟨text, rfl⟩ | rfl⟩
  · rw [if_pos hid]
    exact ⟨rfl, rfl, rfl⟩
  · rw [if_neg hid]
    exact ⟨rfl, by simp [interruptNotify, Ctx.signals_emit, Effect.signal?], rfl⟩
  · rw [if_neg hid]
    exact ⟨rfl, by simp [Ctx.signals_emit, Effect.signal?], rfl⟩
  · rw [if_neg hid]
    exact ⟨rfl, rfl, rfl⟩

/-! ## Guest writes -/

theorem Ctx.signals_emitIf (c : Ctx x) (p : Prop) [Decidable p] (e : Effect) :
    (c.emitIf p e).signals = c.signals ++ if p then e.signal?.toList else [] := by
  unfold Ctx.emitIf
  split_ifs
  · exact c.signals_emit e
  · rw [List.append_nil]

/-- A write signals at most the peer held, and only the global signal does so when none is. -/
theorem writeReg_signals {r : ConfigReg} {v : BitVec 64} (h : writeReg c r v = .ok c')
    {p : ℤ × ℕ} (hp : p ∈ c'.signals) : p ∈ c.signals ∨
      (p = (c.dev.otherVmId, eventfdInterruptHost) ∧
        (c.dev.otherVmId = -1 → r = .ntgsignal ∧ c.SignalArmed)) := by
  -- what an armed signal adds
  have hadd : ∀ {c₁ : Ctx x} {q : Prop} [Decidable q], c₁.out = c.out →
      p ∈ (c₁.emitIf q (.eventSet c.dev.otherVmId eventfdInterruptHost)).signals →
      p ∈ c.signals ∨ (p = (c.dev.otherVmId, eventfdInterruptHost) ∧ q) := by
    intro c₁ q _ hout hp
    rw [Ctx.signals_emitIf] at hp
    unfold Ctx.signals at hp ⊢
    rw [hout] at hp
    by_cases hq : q
    · simp only [if_pos hq, Effect.signal?, Option.toList_some, List.mem_append,
        List.mem_singleton] at hp
      exact hp.imp id fun h => ⟨h, hq⟩
    · simp only [if_neg hq, List.append_nil] at hp
      exact Or.inl hp
  cases r with
  | outmsg i =>
    cases h
    by_cases hf : c.PeerFull i
    · rw [writeOutboundMsg_refused c i v hf, Ctx.signals_emitIf] at hp
      left
      simpa [Effect.signal?, Ctx.signals] using hp
    by_cases hid : c.dev.otherVmId = -1
    · rw [writeOutboundMsg_lost c i v hf hid] at hp
      exact Or.inl hp
    · rw [writeOutboundMsg_accepted c i v hf hid] at hp
      refine (hadd ?_ hp).imp id fun h => ⟨h.1, fun h1 => absurd h1 hid⟩
      simp
  | outdbellset =>
    rw [writeReg_outdbellset] at h
    cases h
    refine (hadd ?_ hp).imp id fun h => ⟨h.1, fun h1 => absurd h1 h.2.1⟩
    simp
  | ntgsignal =>
    rw [writeReg_ntgsignal] at h
    by_cases hv : v = 1
    · rw [if_pos hv] at h
      cases h
      refine (hadd ?_ hp).imp id fun h => ⟨h.1, fun _ => ⟨rfl, h.2⟩⟩
      simp
    · rw [if_neg hv] at h
      cases h
  | gasadata =>
    cases h
    left
    unfold writeGasadata at hp
    split at hp <;> exact hp
  | ntmtbldata =>
    cases h
    left
    unfold setNtMtbData at hp
    split at hp <;> exact hp
  | _ =>
    cases h
    exact Or.inl hp

/-! ## One step -/

/-- A message keeps the notifiers of a peer that it does not disconnect. -/
theorem nbEventfds_message {m : Msg} {env : Env} {err : Option MsgError} {id : ℤ}
    (h : processMsg c m.value m.fd env = .ok (c', err)) (hd : ¬ Disconnects c.dev m id) :
    c.dev.nbEventfds id ≤ c'.dev.nbEventfds id := by
  obtain ⟨hpeer, -, -, -⟩ := processMsg_spec h
  by_cases hid : 0 ≤ id
  · obtain ⟨i, rfl⟩ := Int.eq_ofNat_of_zero_le hid
    rw [IVShmemState.nbEventfds_natCast, IVShmemState.nbEventfds_natCast, hpeer]
    by_cases hm : m.value = i
    · rw [hm]
      by_cases hmax : (i : ℤ) ≤ ivshmemMaxPeers
      · cases hfd : m.fd with
        | some fd =>
          rw [entryAfter_connect hmax]
          split_ifs
          · exact le_rfl
          · exact Nat.le_succ _
        | none =>
          have hown : (i : ℤ) = c.dev.vmId := by
            by_contra hne
            exact hd ⟨hfd, hm, hm ▸ hmax, hm ▸ hne⟩
          rw [entryAfter_disconnect hmax, if_pos hown]
      · rw [entryAfter_of_not_peer (Or.inr (Int.not_le.1 hmax))]
    · rw [entryAfter_of_ne hm]
  · unfold IVShmemState.nbEventfds
    rw [if_neg hid, if_neg hid]

/-- The message that announces the id is the second connect of the device's own id. -/
theorem connected_own {m : Msg} {env : Env} {err : Option MsgError}
    (h : processMsg c m.value m.fd env = .ok (c', err)) (hi : Inits c.dev m.value m.fd env) :
    Connected c'.dev c.dev.vmId := by
  obtain ⟨hpeer, -, -, -⟩ := processMsg_spec h
  obtain ⟨hfd, hown, hmax, hnb, hvec, -⟩ := hi
  have hid : 0 ≤ c.dev.vmId := by
    by_contra hneg
    rw [hown, IVShmemState.nbEventfds, if_neg hneg] at hnb
    cases hnb
  obtain ⟨fd, hfd⟩ := Option.isSome_iff_exists.1 hfd
  obtain ⟨i, hi⟩ := Int.eq_ofNat_of_zero_le hid
  rw [hown, hi, IVShmemState.nbEventfds_natCast] at hnb
  have hentry : c'.dev.peer i = (c.dev.peer i).connect fd := by
    rw [hpeer, hown, hi, hfd, entryAfter_connect (hi ▸ hown ▸ hmax), if_neg (by omega)]
  unfold Connected
  rw [hi, IVShmemState.nbEventfds_natCast, hentry]
  show 1 < (c.dev.peer i).nbEventfds + 1
  omega

/-- A peer that a message does not disconnect stays connected. -/
theorem Connected.message {m : Msg} {env : Env} {err : Option MsgError} {id : ℤ}
    (hc : Connected c.dev id) (h : processMsg c m.value m.fd env = .ok (c', err))
    (hd : ¬ Disconnects c.dev m id) : Connected c'.dev id :=
  Nat.lt_of_lt_of_le hc (nbEventfds_message h hd)

theorem attached_message {m : Msg} {env : Env} {err : Option MsgError} (ha : Attached c)
    (ho : Orderly (c, .message m env)) (hs : c.signals = [])
    (h : processMsg c m.value m.fd env = .ok (c', err)) : Attached c' ∧ SignalsLive c' := by
  obtain ⟨hd, hlearn⟩ := ho
  obtain ⟨-, hframe, hlearns, -⟩ := processMsg_spec h
  have htable := processMsg_tableOk h ha.table
  have hkeep : c.dev.otherVmId = -1 ∨ Connected c'.dev c.dev.otherVmId :=
    ha.peer.imp id fun hc => hc.message h hd
  rcases hlearns with ⟨hi, hann⟩ | ⟨-, hsil⟩
  · by_cases hx : x = .vm2
    · -- the second machine takes over the id it finds in the shared memory, and signals it
      have hconn : Connected c'.dev c.peerId := by
        rcases hlearn hi hx with hown | hconn
        · have hown' : c.peerId = c.dev.vmId := hown
          rw [hown']
          exact connected_own h hi
        · refine Connected.message hconn h ?_
          rintro ⟨hnone, -⟩
          have hsome := hi.1
          rw [hnone] at hsome
          cases hsome
      have hid : c'.dev.otherVmId = c.peerId := by rw [hann.otherVmId, if_pos hx]
      refine ⟨⟨htable, Or.inr (by rw [hid]; exact hconn)⟩, ?_⟩
      intro p hp
      rw [hann.signals, hs, if_pos hx, List.nil_append, List.mem_singleton] at hp
      subst hp
      exact Nat.lt_trans Nat.zero_lt_one hconn
    · have hid : c'.dev.otherVmId = c.dev.otherVmId := by rw [hann.otherVmId, if_neg hx]
      refine ⟨⟨htable, by rw [hid]; exact hkeep⟩, ?_⟩
      intro p hp
      rw [hann.signals, hs, if_neg hx] at hp
      cases hp
  · refine ⟨⟨htable, by rw [hsil.otherVmId]; exact hkeep⟩, ?_⟩
    intro p hp
    rw [hsil.signals, hs] at hp
    cases hp

theorem attached_notify {vector : ℕ} {pending : Bool} (ha : Attached c)
    (ho : Orderly (c, .notify vector pending)) (hs : c.signals = [])
    (h : ivshmemVectorNotify c vector pending = .ok c') : Attached c' ∧ SignalsLive c' := by
  have hout : ∀ p ∈ c.signals, p.2 < c.dev.nbEventfds p.1 := by
    rw [hs]
    nofun
  rcases ivshmemVectorNotify_cases h with ⟨⟨hp, hv⟩, rfl⟩ | ⟨-, rfl | ⟨text, rfl⟩ | rfl⟩
  · exact ⟨⟨ha.table, ho hv hp⟩, hout⟩
  · refine ⟨⟨ha.table, ha.peer⟩, ?_⟩
    intro p hp
    rw [interruptNotify, Ctx.signals_emit, hs] at hp
    cases hp
  · refine ⟨⟨ha.table, ha.peer⟩, ?_⟩
    intro p hp
    rw [Ctx.signals_emit, hs] at hp
    cases hp
  · exact ⟨ha, hout⟩

theorem attached_write {addr : BitVec 64} {val : BitVec 64} {v : BitVec 32} (ha : Attached c)
    (ho : Orderly (c, .write addr v)) (hs : c.signals = [])
    (h : ivshmemIoWrite c addr val = .ok c') : Attached c' ∧ SignalsLive c' := by
  rcases ivshmemIoWrite_cases h with ⟨r, rfl, hr⟩ | ⟨-, rfl⟩
  · have hdev := writeReg_dev hr
    have htable : c'.dev.TableOk := by
      rw [hdev]
      exact ha.table
    have hpeer : c'.dev.otherVmId = -1 ∨ Connected c'.dev c'.dev.otherVmId := by
      rw [hdev]
      exact ha.peer
    refine ⟨⟨htable, hpeer⟩, ?_⟩
    intro p hp
    rcases writeReg_signals hr hp with hp | ⟨rfl, hun⟩
    · rw [hs] at hp
      cases hp
    · rw [hdev]
      rcases ha.peer with hid | hconn
      · obtain ⟨rfl, harm⟩ := hun hid
        exact absurd hid (ho rfl harm)
      · exact hconn
  · refine ⟨ha, ?_⟩
    rw [SignalsLive, hs]
    nofun

/-- **One step** keeps the peer attached, and signals only connected notifiers. -/
theorem attached_step (ha : Attached c) (ho : Orderly (c, e)) (h : Handles c e c') :
    Attached c' ∧ SignalsLive c' := by
  have ha' : Attached c.fresh := ⟨ha.table, ha.peer⟩
  cases e with
  | message m env =>
    change (processMsg c.fresh m.value m.fd env).map Prod.fst = .ok c' at h
    cases hm : processMsg c.fresh m.value m.fd env with
    | error f => rw [hm] at h; cases h
    | ok r =>
      rw [hm] at h
      cases h
      exact attached_message ha' ho rfl hm
  | notify vector pending => exact attached_notify ha' ho rfl h
  | write addr val => exact attached_write (v := val) ha' ho rfl h
  | shared shm =>
    cases h
    exact ⟨⟨ha.table, ha.peer⟩, nofun⟩

/-! ## Whole runs -/

/-- **In orderly runs every notification goes to a connected notifier** of the peer table. -/
theorem notifications_live {shm : IdtIvshmemShmStorage} {vectors : ℕ} {bars : Fin 6 → BusAddr}
    {requesterId : BitVec 16} {masterOn : Bool} {env : Env} {msgs rest : List Msg}
    (h₀ : ivshmemCommonRealize ⟨shm, .init x vectors bars requesterId, []⟩ masterOn env msgs =
      .ok (.ok (c₀, rest)))
    (h : Run Handles c₀ t c) (ho : ∀ e ∈ t, Orderly e) : ∀ p ∈ c.signals,
      0 ≤ p.1 ∧ p.1.toNat < c.dev.nbPeers ∧ p.2 < c.dev.nbEventfds p.1 ∧
        ∃ fd, c.dev.notifier p.1 p.2 = .ok (some fd) := by
  have hr := realized_of_realize h₀
  have hlive : Attached c ∧ SignalsLive c := by
    refine Run.inv_of (fun c => Attached c ∧ SignalsLive c) Orderly ?_ ?_ h ho
    · refine ⟨⟨hr.table, Or.inl hr.otherVmId⟩, ?_⟩
      rw [SignalsLive, hr.signals]
      nofun
    · intro c e c' hi ho hst
      exact attached_step hi.1 ho hst
  intro p hp
  have hk := hlive.2 p hp
  obtain ⟨h1, h2, h3⟩ := hlive.1.table.notifier hk
  exact ⟨h1, h2, hk, h3⟩

/-! ## A device that comes up and meets its peer -/

/-- The first machine's device after realize, as the first client of the server. -/
def firstUp : Ctx .vm1 :=
  let c : Ctx .vm1 := ⟨default, .init .vm1 2 (fun _ => default) 0, []⟩
  match ivshmemCommonRealize c false eventfdEnv (hello 0) with
  | .ok (.ok (c, _)) => c
  | _ => c

theorem firstUp_realized : ivshmemCommonRealize (x := .vm1)
    ⟨default, .init .vm1 2 (fun _ => default) 0, []⟩ false eventfdEnv (hello 0) =
      .ok (.ok (firstUp, [])) := rfl

/-- Its own connects and those of the second client, whose id is announced; then the guest rings. -/
def meetsPeer : List Event :=
  [.message ⟨0, some ⟨0, 0⟩⟩ eventfdEnv, .message ⟨0, some ⟨0, 1⟩⟩ eventfdEnv,
    .message ⟨1, some ⟨1, 0⟩⟩ eventfdEnv, .message ⟨1, some ⟨1, 1⟩⟩ eventfdEnv,
    .shared (firstUp.shm.modVm .vm2 fun b => { b with id := 1 }), .notify eventfdVmId true,
    .write ConfigReg.ntintmsk.addr 0, .write ConfigReg.outdbellset.addr 1]

theorem notifications_live_up : ∃ c, Run Handles firstUp (trace Ctx.next firstUp meetsPeer) c ∧
    c.signals = [(1, 1)] ∧ c.dev.nbEventfds 1 = 2 ∧ ∃ fd, c.dev.notifier 1 1 = .ok (some fd) := by
  obtain ⟨c, hc, hsig, hnb⟩ : ∃ c, exec Ctx.next firstUp meetsPeer = .ok c ∧
      c.signals = [(1, 1)] ∧ c.dev.nbEventfds 1 = 2 := ⟨_, rfl, rfl, rfl⟩
  have hlive := notifications_live firstUp_realized (Run.of_exec hc) (by decide) (1, 1) (by rw [hsig]; simp)
  exact ⟨c, Run.of_exec hc, hsig, hnb, hlive.2.2.2⟩

/-- The guest signals before the device has learnt the peer's id. -/
def signalsEarly : List Event :=
  [.write ConfigReg.ntintmsk.addr 0, .write ConfigReg.ntgsignal.addr 1]

/-- **A global signal goes to the notifiers of an unknown peer.** -/
theorem signal_unknown_peer : ¬ ∀ (t : List (Ctx .vm1 × Event)) c, Run Handles firstUp t c →
    ∀ p ∈ c.signals, 0 ≤ p.1 ∧ p.1.toNat < c.dev.nbPeers ∧ p.2 < c.dev.nbEventfds p.1 := by
  intro hall
  obtain ⟨c, hc, hsig⟩ : ∃ c, exec Ctx.next firstUp signalsEarly = .ok c ∧
      c.signals = [(-1, 1)] := ⟨_, rfl, rfl⟩
  have hlive := hall _ c (Run.of_exec hc) (-1, 1) (by rw [hsig]; simp)
  exact absurd hlive.1 (by decide)

end IdtNtb
