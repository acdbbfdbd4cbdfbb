/-
  The device's own vectors, in eventfd mode.

  Each accepted connect of the own id registers one handler, for its descriptor
  and the entry of the next vector.  The invariant `OwnVectors` ties the entries,
  the peer table and the handlers together:

  * `ownVectors_step`: every message keeps it, and announces the id only when it
    is the second own connect;
  * `own_vectors_iff`: no assertion fails, and the invariant holds after the
    messages exactly if none is about a client that was disconnected before.
-/
import IdtNtb.Connects

namespace IdtNtb

open Runs

variable {x : Vm} {c c₀ c' : Ctx x} {msg : ℤ} {fd : Option Fd} {env : Env} {err : Option MsgError}
  {n : Option Fd} {vector : ℕ}

/-! ## Wiring in eventfd mode -/

/-- In eventfd mode the vector gets a handler for the notifier. -/
theorem attaches_eventfd (he : env.msiViaIrqfd = false) (h : Attaches c n vector env c') :
    ∃ e, msiVector c vector = .ok e ∧
      c'.dev.msiVectors = c.dev.msiVectors.map (·.set vector { e with pdev := true }) ∧
      c'.handlers = c.handlers ++ [(n, vector)] := by
  obtain ⟨c₁, c₂, err, h₁, -, h₂, h₃⟩ := h
  cases attachNotifier_result h₂ with
  | @watched e _ hmsi hp =>
    refine ⟨e, ?_, ?_, ?_⟩
    · rw [← h₁.msiVector]
      exact hmsi
    · rw [h₃.vectors, ← h₁.vectors]
      rfl
    · rw [h₃.handlers, Ctx.handlers_emit, ← h₁.handlers]
      rfl
  | routed hirq | refused hirq | delayed hirq =>
    rw [he] at hirq
    cases hirq

/-- Before the vectors are allocated only irqfd mode can take an own connect, and it puts off the
    wiring. -/
theorem attaches_of_none (hnone : c.dev.msiVectors = none) (h : Attaches c n vector env c') :
    env.msiViaIrqfd = true ∧ SameWiring c c' := by
  obtain ⟨c₁, c₂, err, h₁, -, h₂, h₃⟩ := h
  have hbad : msiVector c₁ vector = .error .badPointer := by
    unfold msiVector
    rw [h₁.vectors, hnone]
  cases attachNotifier_result h₂ with
  | watched _ he | routed _ _ he | refused _ _ he =>
    rw [hbad] at he
    cases he
  | delayed hirq =>
    rw [Bool.and_eq_true] at hirq
    exact ⟨hirq.1, h₁.trans h₃⟩

theorem recvUntilShmem_wiring {msgs rest : List Msg} (hnone : c.dev.msiVectors = none)
    (hok : c.dev.TableOk) (h : recvUntilShmem c env msgs = .ok (.ok (c', rest))) :
    SameWiring c c' ∧ c'.dev.vmId = c.dev.vmId ∧
      (env.msiViaIrqfd = false → c'.dev.nbEventfds c.dev.vmId = c.dev.nbEventfds c.dev.vmId) := by
  induction msgs generalizing c with
  | nil => cases h
  | cons m msgs ih =>
    obtain ⟨c₁, h₁, hmore⟩ := recvUntilShmem_cons h
    have hok₁ := processMsg_tableOk h₁ hok
    obtain ⟨-, hframe, -⟩ := processMsg_spec h₁
    have hid : c₁.dev.vmId = c.dev.vmId := hframe.vmId
    have hstep : SameWiring c c₁ ∧ (env.msiViaIrqfd = false →
        c₁.dev.nbEventfds c.dev.vmId = c.dev.nbEventfds c.dev.vmId) := by
      rcases processMsg_wiring hok h₁ with ⟨-, ha⟩ | ⟨ho, hs⟩
      · obtain ⟨hirq, hs⟩ := attaches_of_none hnone ha
        refine ⟨hs, fun hno => ?_⟩
        rw [hirq] at hno
        cases hno
      · exact ⟨hs, fun _ => (nbEventfds_own h₁).2 ho⟩
    rcases hmore with ⟨-, rfl, rfl⟩ | h
    · exact ⟨hstep.1, hid, hstep.2⟩
    · obtain ⟨hs, hid', hnb⟩ := ih (hstep.1.vectors.trans hnone) hok₁ h
      refine ⟨hstep.1.trans hs, hid'.trans hid, fun hno => ?_⟩
      rw [hid] at hnb
      exact (hnb hno).trans (hstep.2 hno)

section
variable {shm : IdtIvshmemShmStorage} {vectors : ℕ} {bars : Fin 6 → BusAddr}
  {requesterId : BitVec 16} {masterOn : Bool} {msgs rest : List Msg}

/-- A table of empty entries counts no vector. -/
theorem nbEventfds_of_empty {d : IVShmemState x} {k : ℕ} (h : ∀ i, d.peer i = .empty k) (posn : ℤ) :
    d.nbEventfds posn = 0 := by
  by_cases h0 : 0 ≤ posn
  · rw [IVShmemState.nbEventfds_eq d h0, h]
    rfl
  · exact if_neg h0

/-- **Realize registers no handler**, and in eventfd mode it takes no own connect. -/
theorem wiring_of_realize
    (h : ivshmemCommonRealize ⟨shm, .init x vectors bars requesterId, []⟩ masterOn env msgs =
      .ok (.ok (c, rest))) :
    c.handlers = [] ∧ (env.msiViaIrqfd = false → c.dev.nbEventfds c.dev.vmId = 0) := by
  obtain ⟨ps, c₁, hpeer, h₁, rfl⟩ := ivshmemCommonRealize_recv h
  obtain ⟨version, id, msgs, rfl, -, -, h₂⟩ := ivshmemRecvSetup_until h₁
  obtain ⟨hdev, hout⟩ := realizeRegs_frame (ivshmemSetupInterrupts c₁)
  have hok : ({ IVShmemState.init x vectors bars requesterId with
      peers := ps, vmId := id.value } : IVShmemState x).TableOk := by
    intro i
    have hempty := hpeer i
    exact hempty.symm ▸ Peer.ok_empty
  obtain ⟨hs, hid, hnb⟩ := recvUntilShmem_wiring rfl hok h₂
  refine ⟨?_, fun hno => ?_⟩
  · unfold Ctx.handlers
    rw [hout]
    exact hs.handlers
  · have hzero : c₁.dev.nbEventfds id.value = 0 :=
      (hnb hno).trans (nbEventfds_of_empty hpeer id.value)
    have hid' : c₁.dev.vmId = id.value := hid
    rw [hdev]
    show c₁.dev.nbEventfds c₁.dev.vmId = 0
    rw [hid']
    exact hzero

end

/-! ## The invariant -/

/-- Handling the message calls `init_vm_ids`. -/
def Announces (e : Ctx x × (Msg × Env)) : Prop := Inits e.1.dev e.2.1.value e.2.1.fd e.2.2

instance (e : Ctx x × (Msg × Env)) : Decidable (Announces e) :=
  inferInstanceAs (Decidable (Inits _ _ _ _))

/-- The own connects so far came with the descriptors `fds`, and the steps `t` have wired them. -/
structure Wires (i : ℕ) (fds : List Fd) (t : List (Ctx x × (Msg × Env))) (c : Ctx x) : Prop where
  vmId : c.dev.vmId = i
  table : c.dev.TableOk
  peer : c.dev.peer i = .ofFds c.dev.vectors fds
  entries : ∀ v < c.dev.vectors, ∃ e, msiVector c v = .ok e ∧ (e.pdev = true ↔ v < fds.length)
  handlers : c.handlers = ((fds.take c.dev.vectors).map some).zipIdx
  once : (t.filter fun e => Announces e).length = if 2 ≤ min fds.length c.dev.vectors then 1 else 0

section
variable {i : ℕ} {fds : List Fd} {t : List (Ctx x × (Msg × Env))} {m : Msg × Env}

theorem Wires.nbEventfds (h : Wires i fds t c) :
    c.dev.nbEventfds c.dev.vmId = min fds.length c.dev.vectors := by
  rw [h.vmId, IVShmemState.nbEventfds_natCast, h.peer]
  rfl

theorem connectsOwn_of_inits {d : IVShmemState x} (h : Inits d msg fd env) :
    ConnectsOwn d msg fd := by
  obtain ⟨hfd, hown, hmax, hnb, hvec, -⟩ := h
  refine ⟨hfd, hown, ⟨?_, hmax⟩, by omega⟩
  by_contra hneg
  rw [IVShmemState.nbEventfds, if_neg hneg] at hnb
  cases hnb

/-- An own connect that is not accepted finds all vectors connected. -/
theorem Wires.full (h : Wires i fds t c) (hi : (i : ℤ) ≤ ivshmemMaxPeers)
    (hno : ¬ ConnectsOwn c.dev m.1.value m.1.fd) :
    fdsOf i [m.1] = [] ∨ c.dev.vectors ≤ fds.length := by
  by_cases hm : m.1.value = i
  · cases hfd : m.1.fd with
    | none =>
      left
      rw [fdsOf_singleton hm, hfd, Option.toList_none]
    | some fd =>
      right
      by_contra hlt
      refine hno ⟨by rw [hfd]; rfl, hm.trans h.vmId.symm, ⟨?_, ?_⟩, ?_⟩
      · rw [hm]
        exact Int.natCast_nonneg i
      · rw [hm]
        exact hi
      · rw [hm, ← h.vmId, h.nbEventfds]
        omega
  · exact Or.inl (fdsOf_singleton_of_ne hm)

/-- A message that is no accepted own connect leaves the vectors as they are. -/
theorem Wires.other (h : Wires i fds t c) (hi : (i : ℤ) ≤ ivshmemMaxPeers)
    (hst : processMsg c m.1.value m.1.fd m.2 = .ok (c', err))
    (hno : ¬ ConnectsOwn c.dev m.1.value m.1.fd) (hs : SameWiring c c') :
    Wires i (fds ++ fdsOf i [m.1]) (t ++ [(c, m)]) c' := by
  obtain ⟨hpeer, hframe, -⟩ := processMsg_spec hst
  have hvec : c'.dev.vectors = c.dev.vectors := hframe.vectors
  have hkeep : ∀ v < c.dev.vectors, (v < (fds ++ fdsOf i [m.1]).length ↔ v < fds.length) := by
    intro v hv
    rw [List.length_append]
    rcases h.full hi hno with hnil | hfull
    · rw [hnil, List.length_nil, Nat.add_zero]
    · omega
  have htake : (fds ++ fdsOf i [m.1]).take c.dev.vectors = fds.take c.dev.vectors := by
    rcases h.full hi hno with hnil | hfull
    · rw [hnil, List.append_nil]
    · rw [List.take_append_of_le_length hfull]
  have hmin : min (fds ++ fdsOf i [m.1]).length c.dev.vectors = min fds.length c.dev.vectors := by
    rw [List.length_append]
    rcases h.full hi hno with hnil | hfull
    · rw [hnil, List.length_nil, Nat.add_zero]
    · omega
  refine ⟨hframe.vmId.trans h.vmId, processMsg_tableOk hst h.table, ?_, ?_, ?_, ?_⟩
  · have hnot : ¬ Disconnects c.dev m.1 i := fun hd => hd.2.2.2 (hd.2.1.trans h.vmId.symm)
    rw [hpeer, hvec]
    exact entryAfter_ofFds hi h.peer hnot
  · intro v hv
    rw [hvec] at hv
    obtain ⟨e, he, hpdev⟩ := h.entries v hv
    refine ⟨e, ?_, hpdev.trans (hkeep v hv).symm⟩
    rw [hs.msiVector]
    exact he
  · rw [hs.handlers, h.handlers, hvec, htake]
  · have hquiet : ¬ Announces (c, m) := fun hi => hno (connectsOwn_of_inits hi)
    rw [List.filter_append, List.filter_singleton, List.length_append, h.once, hvec, hmin]
    simp [hquiet]

/-- An accepted own connect wires the next vector. -/
theorem Wires.own (h : Wires i fds t c) (hi : (i : ℤ) ≤ ivshmemMaxPeers)
    (he : m.2.msiViaIrqfd = false)
    (hst : processMsg c m.1.value m.1.fd m.2 = .ok (c', err))
    (ho : ConnectsOwn c.dev m.1.value m.1.fd)
    (ha : Attaches c m.1.fd (c.dev.nbEventfds m.1.value) m.2 c') :
    Wires i (fds ++ fdsOf i [m.1]) (t ++ [(c, m)]) c' := by
  obtain ⟨hpeer, hframe, -⟩ := processMsg_spec hst
  have hvec : c'.dev.vectors = c.dev.vectors := hframe.vectors
  have hm : m.1.value = i := ho.own.trans h.vmId
  obtain ⟨fd, hfd⟩ := Option.isSome_iff_exists.1 ho.fd
  have hroom := ho.room
  have hnb := h.nbEventfds
  rw [ho.own, hnb] at hroom
  have hlt : fds.length < c.dev.vectors := by omega
  have hlen : c.dev.nbEventfds m.1.value = fds.length := by
    rw [ho.own, hnb]
    exact Nat.min_eq_left (Nat.le_of_lt hlt)
  have hfds : fdsOf i [m.1] = [fd] := by rw [fdsOf_singleton hm, hfd, Option.toList_some]
  have hlen' : (fds ++ [fd]).length = fds.length + 1 := List.length_append
  rw [hlen, hfd] at ha
  obtain ⟨e, hmsi, hset, hhandlers⟩ := attaches_eventfd he ha
  rw [hfds]
  refine ⟨hframe.vmId.trans h.vmId, processMsg_tableOk hst h.table, ?_, ?_, ?_, ?_⟩
  · have hnot : ¬ Disconnects c.dev m.1 i := fun hd => hd.2.2.2 (hd.2.1.trans h.vmId.symm)
    rw [hpeer, hvec, ← hfds]
    exact entryAfter_ofFds hi h.peer hnot
  · intro v hv
    rw [hvec] at hv
    by_cases hveq : v = fds.length
    · refine ⟨{ e with pdev := true }, ?_, by simp [hveq]⟩
      obtain ⟨vs, hvs⟩ : ∃ vs, c.dev.msiVectors = some vs := by
        unfold msiVector at hmsi
        cases hvs : c.dev.msiVectors with
        | none => rw [hvs] at hmsi; cases hmsi
        | some vs => exact ⟨vs, rfl⟩
      have hin : fds.length < vs.length := by
        unfold msiVector at hmsi
        rw [hvs] at hmsi
        by_contra hout
        dsimp only at hmsi
        rw [List.getElem?_eq_none (Nat.not_lt.1 hout)] at hmsi
        cases hmsi
      unfold msiVector
      rw [hset, hvs, hveq]
      dsimp only [Option.map_some]
      rw [List.getElem?_set_self hin]
    · obtain ⟨e', he', hpdev⟩ := h.entries v hv
      refine ⟨e', ?_, hpdev.trans ?_⟩
      · rw [msiVector_of_set hveq hset]
        exact he'
      · omega
  · have htake : (fds ++ [fd]).take c.dev.vectors = fds ++ [fd] :=
      List.take_of_length_le (by omega)
    have htake' : fds.take c.dev.vectors = fds := List.take_of_length_le (Nat.le_of_lt hlt)
    rw [hhandlers, h.handlers, hvec, htake, htake', List.map_append, List.zipIdx_append]
    simp
  · have hcalls : Announces (c, m) ↔ fds.length = 1 := by
      unfold Announces Inits RouteFails
      rw [hlen, he]
      refine ⟨fun h => h.2.2.2.1, fun h1 => ⟨ho.fd, ho.own, ho.range.2, h1, h1 ▸ hlt, by simp⟩⟩
    rw [List.filter_append, List.filter_singleton, List.length_append, h.once, hvec, hlen']
    by_cases h1 : fds.length = 1
    · simp only [hcalls, h1, decide_true, cond_true, List.length_singleton]
      rw [if_neg (by omega), if_pos (by omega)]
    · simp only [hcalls, h1, decide_false, cond_false, List.length_nil, Nat.add_zero]
      split_ifs <;> omega

/-- **One message** keeps the vectors and the own connects together. -/
theorem wires_step (h : Wires i fds t c) (hi : (i : ℤ) ≤ ivshmemMaxPeers)
    (he : m.2.msiViaIrqfd = false) (hst : c.receive m = .ok c') :
    Wires i (fds ++ fdsOf i [m.1]) (t ++ [(c, m)]) c' := by
  obtain ⟨err, hm⟩ := receive_ok.1 hst
  rcases processMsg_wiring h.table hm with ⟨ho, ha⟩ | ⟨ho, hs⟩
  · exact h.own hi he hm ho ha
  · exact h.other hi hm ho hs

/-- **Whole runs** keep them together. -/
theorem wires_run (h₀ : Wires i fds [] c₀) (hi : (i : ℤ) ≤ ivshmemMaxPeers)
    (h : Run (fun c m c' => Ctx.receive c m = .ok c') c₀ t c)
    (he : ∀ e ∈ t, e.2.2.msiViaIrqfd = false) :
    Wires i (fds ++ fdsOf i (t.map fun e => e.2.1)) t c := by
  induction h with
  | nil =>
    rw [List.map_nil]
    simpa [fdsOf] using h₀
  | @snoc t c₁ m c₂ _ hst ih =>
    have hw := wires_step (ih fun e he' => he e (by simp [he'])) hi (he (c₁, m) (by simp)) hst
    rw [List.append_assoc, ← fdsOf_append] at hw
    rw [List.map_append]
    exact hw

/-- The assertions of message handling hold in every run. -/
theorem exec_asserts {l : List (Msg × Env)} (hok : c.dev.TableOk)
    (hu : Unwired c (c.dev.nbEventfds c.dev.vmId)) :
    exec Ctx.receive c l ≠ .error .assertion := by
  induction l generalizing c with
  | nil => exact nofun
  | cons m l ih =>
    have hasserts : Asserts (processMsg c m.1.value m.1.fd m.2) := processMsg_asserts hu
    intro h
    rw [exec] at h
    cases hst : c.receive m with
    | error f =>
      rw [hst] at h
      cases h
      unfold Ctx.receive at hst
      cases hm : processMsg c m.1.value m.1.fd m.2 with
      | ok r => rw [hm] at hst; cases hst
      | error f =>
        rw [hm] at hst
        cases hst
        exact hasserts.ne_assertion hm
    | ok c₁ =>
      rw [hst] at h
      obtain ⟨err, hm⟩ := receive_ok.1 hst
      exact ih (processMsg_tableOk hm hok) (processMsg_unwired hok hu hm) h

end

/-! ## From realize on -/

/-- The vectors of the device after the steps `t`, in which its own connects came with the
    descriptors `fds`. -/
structure OwnVectors (fds : List Fd) (t : List (Ctx x × (Msg × Env))) (c : Ctx x) : Prop where
  /-- The vectors connected are those that have a handler. -/
  pdev : ∀ v < c.dev.vectors, ∃ e, msiVector c v = .ok e ∧
    (e.pdev = true ↔ v < c.dev.nbEventfds c.dev.vmId)
  /-- The descriptor of each own connect is registered once, with the entry of its vector. -/
  handlers : c.handlers = ((fds.take c.dev.vectors).map some).zipIdx
  /-- The handler finds that descriptor again. -/
  notifier : ∀ n v, (n, v) ∈ c.handlers → vectorNotifier c v = .ok n
  /-- `init_vm_ids` ran in the steps that announce the id, and in no others. -/
  announced : ∀ e ∈ t, ∀ c', e.1.receive e.2 = .ok c' →
    (Announces e ∧ Announced e.1 c') ∨ (¬ Announces e ∧ Silent e.1 c')
  /-- That is one step if there are two vectors, and none otherwise. -/
  once : (t.filter fun e => Announces e).length =
    if 2 ≤ c.dev.nbEventfds c.dev.vmId then 1 else 0

section
variable {shm : IdtIvshmemShmStorage} {vectors : ℕ} {bars : Fin 6 → BusAddr}
  {requesterId : BitVec 16} {masterOn : Bool} {msgs rest : List Msg}

theorem ownVectors_of_exec
    (h₀ : ivshmemCommonRealize ⟨shm, .init x vectors bars requesterId, []⟩ masterOn env msgs =
      .ok (.ok (c₀, rest)))
    (he : env.msiViaIrqfd = false) {l : List (Msg × Env)} (hl : ∀ m ∈ l, m.2.msiViaIrqfd = false)
    (h : exec Ctx.receive c₀ l = .ok c) :
    OwnVectors (fdsOf c₀.dev.vmId.toNat (l.map Prod.fst)) (trace Ctx.receive c₀ l) c := by
  obtain ⟨hready, hun, hvec, -⟩ := connects_of_realize h₀
  obtain ⟨hhandlers, hnb⟩ := wiring_of_realize h₀
  have hrange := (realized_of_realize h₀).vmId
  obtain ⟨i, hi⟩ := Int.eq_ofNat_of_zero_le hrange.1
  have himax : (i : ℤ) ≤ ivshmemMaxPeers := hi ▸ hrange.2
  -- set-up has connected no own vector
  have hstart : Wires i [] [] c₀ := by
    have hpeer := peer_of_connects h₀ (l := []) rfl himax fun m _ hd => hd.2.2.2 (hd.2.1.trans hi.symm)
    have hzero := hnb he
    rw [hi, IVShmemState.nbEventfds_natCast, hpeer] at hzero
    refine ⟨hi, hready.table, ?_, ?_, ?_, ?_⟩
    · rw [hpeer, hvec]
      exact Peer.ofFds_of_zero hzero
    · intro v hv
      obtain ⟨vs, hvs, hlen⟩ := hready.wireable.vectors
      have hmsi : msiVector c₀ v = .ok vs[v] := by
        unfold msiVector
        rw [hvs]
        dsimp only
        rw [List.getElem?_eq_getElem (by omega)]
      refine ⟨_, hmsi, ?_⟩
      rw [hun v (Nat.zero_le v) _ hmsi]
      simp
    · rw [hhandlers, List.take_nil]
      rfl
    · simp
  have hrun := Run.of_exec h
  have hmsgs : ((trace Ctx.receive c₀ l).map fun e => e.2.1) = l.map Prod.fst := by
    rw [← congrArg (List.map Prod.fst) (map_snd_trace h), List.map_map]
    rfl
  have hw := wires_run hstart himax hrun fun e he' => hl e.2 (mem_of_mem_trace he')
  rw [List.nil_append, hmsgs] at hw
  have hpdev : ∀ v < c.dev.vectors, ∃ e, msiVector c v = .ok e ∧
      (e.pdev = true ↔ v < c.dev.nbEventfds c.dev.vmId) := by
    intro v hv
    obtain ⟨e, hmsi, hpdev⟩ := hw.entries v hv
    refine ⟨e, hmsi, hpdev.trans ?_⟩
    rw [hw.nbEventfds]
    omega
  have htoNat : c₀.dev.vmId.toNat = i := by rw [hi, Int.toNat_natCast]
  rw [htoNat]
  refine ⟨hpdev, hw.handlers, ?_, ?_, ?_⟩
  · intro n v hnv
    rw [hw.handlers, List.mk_mem_zipIdx_iff_getElem?, List.getElem?_map] at hnv
    obtain ⟨fd, hfd, rfl⟩ := Option.map_eq_some_iff.1 hnv
    obtain ⟨hlen, -⟩ := List.getElem?_eq_some_iff.1 hfd
    rw [List.length_take] at hlen
    have hv : v < c.dev.nbEventfds c.dev.vmId := by
      rw [hw.nbEventfds]
      omega
    obtain ⟨e, hmsi, hpd⟩ := hpdev v (by omega)
    unfold vectorNotifier
    rw [hmsi]
    dsimp only [bind, Except.bind]
    rw [if_pos (hpd.2 hv), hw.vmId, notifier_ofFds hw.peer (hw.vmId ▸ hv),
      ← List.getElem?_take_of_lt (show v < c.dev.vectors by omega), hfd]
  · intro e he' c' hst
    obtain ⟨err, hm⟩ := receive_ok.1 hst
    obtain ⟨-, -, hlearns, -⟩ := processMsg_spec hm
    exact hlearns
  · rw [hw.once, hw.nbEventfds]

/-- **Own vectors are wired once and to the right entry.**  No assertion fails in any messages, and
    the vectors are as `OwnVectors` says after messages of which none is about a client that was
    disconnected before. -/
theorem own_vectors_iff
    (h₀ : ivshmemCommonRealize ⟨shm, .init x vectors bars requesterId, []⟩ masterOn env msgs =
      .ok (.ok (c₀, rest)))
    (he : env.msiViaIrqfd = false) (l : List (Msg × Env)) (hl : ∀ m ∈ l, m.2.msiViaIrqfd = false) :
    exec Ctx.receive c₀ l ≠ .error .assertion ∧
    ((∃ c, exec Ctx.receive c₀ l = .ok c ∧
      OwnVectors (fdsOf c₀.dev.vmId.toNat (l.map Prod.fst)) (trace Ctx.receive c₀ l) c) ↔
    vectors = 0 ∨ NoRevival c₀.dev (setupMsgs msgs rest ++ l.map Prod.fst)) := by
  obtain ⟨hready, -⟩ := connects_of_realize h₀
  refine ⟨exec_asserts hready.table hready.unwired, ?_⟩
  rw [← handled_iff h₀]
  exact ⟨fun ⟨c, h, _⟩ => ⟨c, h⟩, fun ⟨c, h⟩ => ⟨c, h, ownVectors_of_exec h₀ he hl h⟩⟩

end

/-- Own connects, one too many, around those of a client that goes away. -/
def ownConnects : List (Msg × Env) :=
  [(⟨0, some ⟨0, 0⟩⟩, eventfdEnv), (⟨20, some ⟨20, 0⟩⟩, eventfdEnv), (⟨0, none⟩, eventfdEnv),
    (⟨20, none⟩, eventfdEnv), (⟨0, some ⟨0, 1⟩⟩, eventfdEnv), (⟨0, some ⟨0, 2⟩⟩, eventfdEnv)]

theorem own_vectors_up : ∃ c, exec Ctx.receive firstUp ownConnects = .ok c ∧
    OwnVectors (fdsOf 0 (ownConnects.map Prod.fst)) (trace Ctx.receive firstUp ownConnects) c :=
  (own_vectors_iff firstUp_realized rfl ownConnects (by decide)).2.2 (Or.inr (by decide))

/-- A client goes away, the own id makes the table grow, and the client's id is used again. -/
def revivedBesideOwn : List (Msg × Env) :=
  [(⟨1, none⟩, eventfdEnv), (⟨16, some ⟨16, 0⟩⟩, eventfdEnv), (⟨1, some ⟨1, 0⟩⟩, eventfdEnv)]

/-- **The connect of an id that was disconnected stores into a freed array**, which may be the own
    one that was added since. -/
theorem own_vectors_revived : ∃ c₀ : Ctx .vm1, ivshmemCommonRealize
      ⟨default, .init .vm1 2 (fun _ => default) 0, []⟩ false eventfdEnv (hello 16) =
        .ok (.ok (c₀, [])) ∧ c₀.dev.vmId = 16 ∧
    ¬ ∀ l : List (Msg × Env), (∀ m ∈ l, m.2.msiViaIrqfd = false) →
      ∃ c, exec Ctx.receive c₀ l = .ok c ∧
        OwnVectors (fdsOf 16 (l.map Prod.fst)) (trace Ctx.receive c₀ l) c := by
  refine ⟨_, rfl, rfl, fun hall => ?_⟩
  obtain ⟨c, hc, -⟩ := hall revivedBesideOwn (by decide)
  cases hc

end IdtNtb
