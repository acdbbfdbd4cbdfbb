/-
  The life of the notifier arrays.

  `resize_peers` allocates the array of an entry, connects store into it, and a
  disconnect or `ivshmem_exit` frees it.  Nothing allocates it a second time, and
  the entry keeps the pointer:

  * `freed_run`: the arrays that are freed at the end of a run are those of the
    ids that were disconnected, in realize or later;
  * `processMsg_ends`: while no array is freed, a message faults on none;
  * `slots_sound_iff`: the arrays are used soundly, exit included, exactly if no
    message disconnects an id.
-/
import IdtNtb.Notifiers

namespace IdtNtb

open Runs

variable {x : Vm} {c c₀ c' : Ctx x} {env : Env} {e : Event} {t : List (Ctx x × Event)}

/-! ## Freed arrays -/

/-- The array of the entry was freed.  (Of no vectors there is no array: the pointer is NULL.) -/
def Freed (d : IVShmemState x) (i : ℕ) : Prop := d.vectors ≠ 0 ∧ (d.peer i).allocated = false

theorem Freed.lt {d : IVShmemState x} {i : ℕ} (h : Freed d i) : i < d.nbPeers := by
  by_contra hge
  have hall := h.2
  rw [d.peer_of_le (Nat.le_of_not_lt hge)] at hall
  cases hall

/-- A disconnect frees the array of its entry; a connect keeps what it finds. -/
theorem entryAfter_allocated (d : IVShmemState x) (m : Msg) (i : ℕ) :
    (entryAfter d m.value m.fd i).allocated = false ↔
      (d.peer i).allocated = false ∨ Disconnects d m i := by
  unfold Disconnects
  by_cases hi : (i : ℤ) = m.value ∧ m.value ≤ ivshmemMaxPeers
  · obtain ⟨hi, hmax⟩ := hi
    rw [← hi] at hmax ⊢
    cases hfd : m.fd with
    | some fd =>
      rw [entryAfter_connect hmax]
      split_ifs
      · simp
      · simp [Peer.connect]
    | none =>
      rw [entryAfter_disconnect hmax]
      split_ifs with hown
      · simp [hown]
      · simp [Peer.close, hmax, hown]
  · rw [entryAfter_of_not hi]
    refine ⟨Or.inl, fun h => h.resolve_right ?_⟩
    rintro ⟨-, h1, h2, -⟩
    exact hi ⟨h1.symm, h2⟩

/-- The event is a message that frees the array of the entry. -/
def Frees (d : IVShmemState x) (i : ℕ) : Event → Prop
  | .message m _ => Disconnects d m i
  | _ => False

/-- What an event does to the device: a message does what `processMsg` does, and anything else
    leaves the table alone. -/
theorem handles_cases (h : Handles c e c') :
    (∃ m env err, e = .message m env ∧ processMsg c.fresh m.value m.fd env = .ok (c', err)) ∨
      ((∀ m env, e ≠ .message m env) ∧
        ∃ l o, c'.dev = { c.dev with lregs := l, otherVmId := o }) := by
  cases e with
  | message m env =>
    change (processMsg c.fresh m.value m.fd env).map Prod.fst = .ok c' at h
    cases hm : processMsg c.fresh m.value m.fd env with
    | error f => rw [hm] at h; cases h
    | ok r =>
      rw [hm] at h
      cases h
      exact Or.inl ⟨m, env, r.2, rfl, hm⟩
  | notify vector pending =>
    refine Or.inr ⟨fun _ _ he => (by cases he), ?_⟩
    rcases ivshmemVectorNotify_cases h with ⟨-, rfl⟩ | ⟨-, rfl | ⟨text, rfl⟩ | rfl⟩
    · exact ⟨_, _, rfl⟩
    · exact ⟨_, _, rfl⟩
    · exact ⟨_, _, rfl⟩
    · exact ⟨_, _, rfl⟩
  | write addr val =>
    refine Or.inr ⟨fun _ _ he => (by cases he), ?_⟩
    rcases ivshmemIoWrite_cases h with ⟨r, -, hr⟩ | ⟨-, rfl⟩
    · have hdev := writeReg_dev hr
      exact ⟨_, _, hdev⟩
    · exact ⟨_, _, rfl⟩
  | shared shm =>
    cases h
    exact Or.inr ⟨fun _ _ he => (by cases he), _, _, rfl⟩

/-- One event keeps the ids of the device, and frees the arrays of the ids it disconnects. -/
theorem freed_step (h : Handles c e c') : c'.dev.vmId = c.dev.vmId ∧
    c'.dev.vectors = c.dev.vectors ∧ ∀ i, ((c'.dev.peer i).allocated = false ↔
      (c.dev.peer i).allocated = false ∨ Frees c.dev i e) := by
  rcases handles_cases h with ⟨m, env, err, rfl, hm⟩ | ⟨hother, l, o, hdev⟩
  · obtain ⟨hpeer, hframe, -, -⟩ := processMsg_spec hm
    refine ⟨hframe.vmId, hframe.vectors, fun i => ?_⟩
    rw [hpeer]
    exact entryAfter_allocated c.dev m i
  · refine ⟨by rw [hdev], by rw [hdev], fun i => ?_⟩
    have hpeer : c'.dev.peer i = c.dev.peer i := by
      rw [hdev]
      rfl
    have hnot : ¬ Frees c.dev i e := by
      cases e with
      | message m env => exact absurd rfl (hother m env)
      | _ => exact id
    simp [hpeer, hnot]

/-- **A run frees the arrays of the ids it disconnects**, and no others. -/
theorem freed_run (h : Run Handles c₀ t c) : c.dev.vmId = c₀.dev.vmId ∧
    c.dev.vectors = c₀.dev.vectors ∧ ∀ i, ((c.dev.peer i).allocated = false ↔
      (c₀.dev.peer i).allocated = false ∨ ∃ e ∈ t, Frees c₀.dev i e.2) := by
  induction h with
  | nil => exact ⟨rfl, rfl, fun i => by simp⟩
  | @snoc t c₁ e c₂ _ ha ih =>
    obtain ⟨hid, hvec, hfree⟩ := ih
    obtain ⟨hid', hvec', hfree'⟩ := freed_step ha
    refine ⟨hid'.trans hid, hvec'.trans hvec, fun i => ?_⟩
    have hsame : Frees c₁.dev i e ↔ Frees c₀.dev i e := by
      unfold Frees Disconnects
      rw [hid]
    rw [hfree', hfree, hsame]
    simp only [List.mem_append, List.mem_singleton, or_assoc]
    refine or_congr_right ⟨?_, ?_⟩
    · rintro (⟨e', he', hf⟩ | hf)
      · exact ⟨e', Or.inl he', hf⟩
      · exact ⟨(c₁, e), Or.inr rfl, hf⟩
    · rintro ⟨e', he' | rfl, hf⟩
      · exact Or.inl ⟨e', he', hf⟩
      · exact Or.inr hf

/-! ## Exit -/

/-- `close_peer_eventfds` of an entry of the table faults if the array was freed before, and changes
    the table only. -/
theorem closePeerEventfds_ends {i : ℕ} (h : i < c.dev.nbPeers) :
    (Freed c.dev i ∧ closePeerEventfds c i = .error .badPointer) ∨
      (¬ Freed c.dev i ∧ ∃ c' ps, closePeerEventfds c i = .ok c' ∧
        c'.dev = { c.dev with peers := ps } ∧ ps.length = c.dev.nbPeers) := by
  unfold closePeerEventfds Freed
  rw [IVShmemState.getElem?_peer h]
  dsimp only
  by_cases hbad : (c.dev.peer i).allocated = true ∨ c.dev.vectors = 0
  · rw [if_pos hbad]
    refine Or.inr ⟨?_, _, c.dev.peers.set i (c.dev.peer i).close, rfl, ?_, List.length_set⟩
    · rintro ⟨h1, h2⟩
      rw [h2] at hbad
      exact hbad.elim nofun h1
    · obtain ⟨hdev, -⟩ := closeFds_frame
        ((c.dev.peer i).eventfds.take (c.dev.peer i).nbEventfds) c
      simp only [Ctx.modDev, hdev]
      rfl
  · rw [if_neg hbad]
    obtain ⟨h1, h2⟩ := not_or.1 hbad
    exact Or.inl ⟨⟨h2, by simpa using h1⟩, rfl⟩

/-- Closing entries one after the other faults exactly at an array that was freed before. -/
theorem closeAll_eq_badPointer {l : List ℕ} (hl : l.Nodup) (hlt : ∀ i ∈ l, i < c.dev.nbPeers) :
    l.foldlM closePeerEventfds c = .error .badPointer ↔ ∃ i ∈ l, Freed c.dev i := by
  induction l generalizing c with
  | nil => exact ⟨nofun, by simp⟩
  | cons i l ih =>
    obtain ⟨hi, hl⟩ := List.nodup_cons.1 hl
    rw [List.foldlM_cons]
    rcases closePeerEventfds_ends (hlt i (by simp)) with ⟨hf, hclose⟩ | ⟨hf, c₁, ps, hclose, hdev, hps⟩
    · rw [hclose]
      exact ⟨fun _ => ⟨i, by simp, hf⟩, fun _ => rfl⟩
    · obtain ⟨hpeer, hframe, -⟩ := closePeerEventfds_spec hclose
      -- the entries that follow are as they were
      have hsame : ∀ k ∈ l, (Freed c₁.dev k ↔ Freed c.dev k) := by
        intro k hk
        have hne : k ≠ i := fun hki => hi (hki ▸ hk)
        unfold Freed
        rw [hpeer, if_neg hne, hframe.vectors]
      rw [hclose]
      refine (ih hl fun k hk => ?_).trans ?_
      · have hnb : c₁.dev.nbPeers = c.dev.nbPeers := by
          rw [hdev]
          exact hps
        rw [hnb]
        exact hlt k (by simp [hk])
      · simp only [List.mem_cons, exists_eq_or_imp, hf, false_or]
        exact exists_congr fun k => and_congr_right fun hk => hsame k hk

/-- **Exit frees an array twice** exactly if one was freed before. -/
theorem ivshmemExit_eq_badPointer : ivshmemExit c = .error .badPointer ↔ ∃ i, Freed c.dev i := by
  have hall : (∃ i ∈ List.range c.dev.nbPeers, Freed c.dev i) ↔ ∃ i, Freed c.dev i :=
    ⟨fun ⟨i, _, hf⟩ => ⟨i, hf⟩, fun ⟨i, hf⟩ => ⟨i, List.mem_range.2 hf.lt, hf⟩⟩
  rw [← hall, ← closeAll_eq_badPointer List.nodup_range fun i hi => List.mem_range.1 hi]
  unfold ivshmemExit
  cases (List.range c.dev.nbPeers).foldlM closePeerEventfds c with
  | error f => exact ⟨fun h => h, fun h => h⟩
  | ok c₁ => exact ⟨nofun, nofun⟩

/-! ## Messages -/

/-- The device can wire its interrupt vectors. -/
structure Wireable (c : Ctx x) : Prop where
  realized : c.dev.realized = true
  vectors : ∃ vs, c.dev.msiVectors = some vs ∧ vs.length = c.dev.vectors

/-- A handler that uses no bad pointer, and ends in `P`. -/
def Safely {γ : Type} (P : γ → Prop) (m : Except Fault γ) : Prop := Ends (· ≠ .badPointer) P m

theorem Safely.ne_badPointer {γ : Type} {P : γ → Prop} {m : Except Fault γ} (h : Safely P m) :
    m ≠ .error .badPointer := Ends.ne_error h fun hne => hne rfl

section
variable {vector : ℕ} {n : Option Fd}

theorem msiVector_ends (hw : Wireable c) (hv : vector < c.dev.vectors) :
    Safely (fun _ => True) (msiVector c vector) := by
  obtain ⟨-, vs, hvs, hlen⟩ := hw
  unfold msiVector
  rw [hvs]
  dsimp only
  rw [List.getElem?_eq_getElem (by omega)]
  trivial

theorem Wireable.setMsiVector (hw : Wireable c) (vector : ℕ) (v : MSIVector) :
    Wireable (c.setMsiVector vector v) := by
  obtain ⟨hr, vs, hvs, hlen⟩ := hw
  refine ⟨hr, vs.set vector v, ?_, ?_⟩
  · simp [Ctx.setMsiVector, Ctx.modDev, hvs]
  · rw [List.length_set]
    exact hlen

theorem watchVectorNotifier_ends (hw : Wireable c) (hv : vector < c.dev.vectors) :
    Safely Wireable (watchVectorNotifier c n vector) := by
  refine Ends.bind (msiVector_ends hw hv) fun v _ => ?_
  split_ifs
  · exact nofun
  · obtain ⟨h1, h2⟩ := hw.setMsiVector vector { v with pdev := true }
    exact ⟨h1, h2⟩

theorem ivshmemAddKvmMsiVirq_ends (hw : Wireable c) (hv : vector < c.dev.vectors) :
    Safely (fun r => Wireable r.1) (ivshmemAddKvmMsiVirq c vector env) := by
  refine Ends.bind (msiVector_ends hw hv) fun v _ => ?_
  split_ifs
  · exact nofun
  · exact hw
  · exact hw.setMsiVector _ _

theorem attachNotifier_ends (hw : Wireable c) (hv : vector < c.dev.vectors) :
    Safely (fun r => Wireable r.1) (attachNotifier c n vector env) := by
  unfold attachNotifier
  dsimp only
  by_cases hirq : (!(env.msiViaIrqfd && c.dev.hasFeature ivshmemMsi)) = true
  · rw [if_pos hirq]
    refine Ends.bind (watchVectorNotifier_ends hw hv) fun c₁ hw₁ => ?_
    exact hw₁
  rw [if_neg hirq]
  by_cases hmsix : env.msixEnabled = true
  · rw [if_pos hmsix]
    refine Ends.bind (ivshmemAddKvmMsiVirq_ends hw hv) fun r hr => ?_
    obtain ⟨c₁, _ | err⟩ := r
    · dsimp only
      split_ifs
      · exact hr
      · exact ⟨hr.realized, hr.vectors⟩
    · exact hr
  · rw [if_neg hmsix]
    exact hw

theorem initVmIds_ends (hw : Wireable c) : Safely Wireable (initVmIds c) := by
  unfold initVmIds
  rw [if_pos hw.realized]
  dsimp only
  split_ifs <;> exact ⟨hw.realized, hw.vectors⟩

/-- Wiring a vector faults only if the own array does. -/
theorem setupInterrupt_ends (hw : Wireable c) (hv : vector < c.dev.vectors)
    (hn : Safely (fun _ => True) (c.dev.notifier c.dev.vmId vector)) :
    Safely (fun r => Wireable r.1) (setupInterrupt c vector env) := by
  refine Ends.bind hn fun n _ => ?_
  refine Ends.bind (attachNotifier_ends hw hv) fun r hr => ?_
  obtain ⟨c₁, _ | err⟩ := r
  · dsimp only
    split_ifs
    · refine Ends.bind (initVmIds_ends hr) fun c₂ hw₂ => ?_
      exact hw₂
    · exact hr
  · exact hr

end

theorem Wireable.closeFd (hw : Wireable c) (fd : Option Fd) : Wireable (c.closeFd fd) := by
  obtain ⟨hdev, -⟩ := closeFd_frame c fd
  exact ⟨hdev ▸ hw.realized, hdev ▸ hw.vectors⟩

/-- The notifier that was stored is found again. -/
theorem notifier_set {d : IVShmemState x} {i vector : ℕ} {p : Peer} {fd : Option Fd}
    (hlt : i < d.nbPeers) (hall : p.allocated = true) (hfd : p.eventfds[vector]? = some fd) :
    IVShmemState.notifier { d with peers := d.peers.set i p } i vector = .ok fd := by
  have hset : (d.peers.set i p)[i]? = some p := List.getElem?_set_self hlt
  unfold IVShmemState.notifier
  rw [if_pos (Int.natCast_nonneg i), Int.toNat_natCast]
  dsimp only
  rw [hset]
  simp [hall, hfd]

theorem processMsgConnect_ends {posn : ℕ} {fd : Fd} (hw : Wireable c) (hok : c.dev.TableOk)
    (hlt : posn < c.dev.nbPeers) (hf : ¬ Freed c.dev posn) :
    Safely (fun r => Wireable r.1) (processMsgConnect c posn fd env) := by
  unfold processMsgConnect
  rw [IVShmemState.getElem?_peer hlt]
  dsimp only
  split_ifs with hfull hall hown
  · exact hw.closeFd (some fd)
  · have hroom : (c.dev.peer posn).nbEventfds < c.dev.vectors := Nat.not_le.1 hfull
    have hid : (posn : ℤ) = c.dev.vmId := hown
    refine setupInterrupt_ends ⟨hw.realized, hw.vectors⟩ hroom ?_
    have hstored : ((c.dev.peer posn).connect fd).eventfds[(c.dev.peer posn).nbEventfds]? =
        some (some fd) := List.getElem?_set_self (by rw [(hok posn).length]; exact hroom)
    have hn := notifier_set hlt (p := (c.dev.peer posn).connect fd) hall hstored
    rw [hid] at hn
    exact (congrArg (Safely fun _ => True) hn).mpr trivial
  · exact ⟨hw.realized, hw.vectors⟩
  · refine absurd ⟨?_, by simpa using hall⟩ hf
    omega

theorem processMsgDisconnect_ends {posn : ℕ} (hw : Wireable c) (hlt : posn < c.dev.nbPeers)
    (hf : ¬ Freed c.dev posn) :
    Safely (fun r => Wireable r.1) (processMsgDisconnect c posn) := by
  unfold processMsgDisconnect
  split_ifs
  · exact hw
  · rcases closePeerEventfds_ends hlt with ⟨hbad, -⟩ | ⟨-, c₁, ps, hclose, hdev, -⟩
    · exact absurd hbad hf
    · rw [hclose]
      have hw₁ : Wireable c₁ := ⟨hdev ▸ hw.realized, hdev ▸ hw.vectors⟩
      exact hw₁

theorem Wireable.shmem (hw : Wireable c) (fd : Option Fd) :
    Wireable (processMsgShmem c fd env).1 := by
  unfold processMsgShmem
  split_ifs
  · exact hw.closeFd fd
  · exact hw.closeFd fd
  · exact hw
  · exact ⟨hw.realized, hw.vectors⟩

/-- **A message about no freed array** uses no bad pointer. -/
theorem processMsg_ends {msg : ℤ} {fd : Option Fd} (hw : Wireable c) (hok : c.dev.TableOk)
    (hf : ∀ i : ℕ, msg = i → ¬ Freed c.dev i) :
    Safely (fun r => Wireable r.1) (processMsg c msg fd env) := by
  rcases msg_cases msg with hbad | rfl | ⟨posn, rfl, hposn⟩
  · rw [processMsg_invalid c fd env hbad]
    exact hw.closeFd fd
  · rw [processMsg_shmem]
    exact hw.shmem fd
  · obtain ⟨c₁, hg, hlt, heq⟩ := processMsg_posn c fd env hposn
    have hvec := hg.framed.vectors
    have hw₁ : Wireable c₁ := by
      obtain ⟨ps, rfl⟩ := hg.table
      exact ⟨hw.realized, hw.vectors⟩
    have hok₁ : c₁.dev.TableOk := by
      intro i
      rw [hg.peer, hvec]
      exact hok i
    have hf₁ : ¬ Freed c₁.dev posn := by
      unfold Freed
      rw [hg.peer, hvec]
      exact hf posn rfl
    rw [heq]
    cases fd with
    | some fd => exact processMsgConnect_ends hw₁ hok₁ hlt hf₁
    | none => exact processMsgDisconnect_ends hw₁ hlt hf₁

/-- Events keep the device wireable, and the table in order. -/
theorem wireable_step (hw : Wireable c) (hok : c.dev.TableOk) (hf : ∀ i, ¬ Freed c.dev i)
    (h : Handles c e c') : Wireable c' ∧ c'.dev.TableOk := by
  have hw' : Wireable c.fresh := ⟨hw.realized, hw.vectors⟩
  rcases handles_cases h with ⟨m, env, err, rfl, hm⟩ | ⟨-, l, o, hdev⟩
  · have hends : Safely (fun r => Wireable r.1) (processMsg c.fresh m.value m.fd env) :=
      processMsg_ends hw' hok fun i _ => hf i
    rw [hm] at hends
    exact ⟨hends, processMsg_tableOk hm hok⟩
  · refine ⟨⟨?_, ?_⟩, ?_⟩
    · rw [hdev]
      exact hw.realized
    · rw [hdev]
      exact hw.vectors
    · rw [hdev]
      exact hok

theorem wireable_run (hw : Wireable c₀) (hok : c₀.dev.TableOk) (h : Run Handles c₀ t c)
    (hf : ∀ i, ¬ Freed c.dev i) : Wireable c ∧ c.dev.TableOk := by
  induction h with
  | nil => exact ⟨hw, hok⟩
  | @snoc t c₁ e c₂ _ ha ih =>
    obtain ⟨-, hvec, hfree⟩ := freed_step ha
    -- what was freed stays freed
    have hf₁ : ∀ i, ¬ Freed c₁.dev i := fun i hi =>
      hf i ⟨hvec ▸ hi.1, (hfree i).2 (Or.inl hi.2)⟩
    obtain ⟨hw₁, hok₁⟩ := ih hf₁
    exact wireable_step hw₁ hok₁ hf₁ ha

/-! ## Realize -/

/-- The messages that set-up has handled: those between the id and the ones that still wait. -/
def setupMsgs (msgs rest : List Msg) : List Msg :=
  (msgs.drop 2).take ((msgs.drop 2).length - rest.length)

theorem recvUntilShmem_freed {msgs rest : List Msg}
    (h : recvUntilShmem c env msgs = .ok (.ok (c', rest))) :
    c'.dev.vmId = c.dev.vmId ∧ c'.dev.vectors = c.dev.vectors ∧
      ∃ handled, msgs = handled ++ rest ∧ ∀ i, ((c'.dev.peer i).allocated = false ↔
        (c.dev.peer i).allocated = false ∨ ∃ m ∈ handled, Disconnects c.dev m i) := by
  induction msgs generalizing c with
  | nil => cases h
  | cons m msgs ih =>
    obtain ⟨c₁, h₁, hmore⟩ := recvUntilShmem_cons h
    obtain ⟨hpeer, hframe, -, -⟩ := processMsg_spec h₁
    have hfree : ∀ i, ((c₁.dev.peer i).allocated = false ↔
        (c.dev.peer i).allocated = false ∨ Disconnects c.dev m i) := by
      intro i
      rw [hpeer]
      exact entryAfter_allocated c.dev m i
    rcases hmore with ⟨-, rfl, rfl⟩ | h
    · exact ⟨hframe.vmId, hframe.vectors, [m], rfl, by simpa using hfree⟩
    · obtain ⟨hid, hvec, handled, rfl, hrun⟩ := ih h
      refine ⟨hid.trans hframe.vmId, hvec.trans hframe.vectors, m :: handled, rfl, fun i => ?_⟩
      have hsame : ∀ m' : Msg, Disconnects c₁.dev m' i ↔ Disconnects c.dev m' i := by
        intro m'
        unfold Disconnects
        rw [hframe.vmId]
      simp only [hrun, hfree, hsame, List.mem_cons, exists_eq_or_imp, or_assoc]

section
variable {shm : IdtIvshmemShmStorage} {vectors : ℕ} {bars : Fin 6 → BusAddr}
  {requesterId : BitVec 16} {masterOn : Bool} {msgs rest : List Msg}

/-- After realize the arrays that are freed are those that set-up was told to disconnect. -/
theorem freed_of_realize
    (h : ivshmemCommonRealize ⟨shm, .init x vectors bars requesterId, []⟩ masterOn env msgs =
      .ok (.ok (c, rest))) :
    Wireable c ∧ c.dev.vectors = vectors ∧ ∀ i, ((c.dev.peer i).allocated = false ↔
      ∃ m ∈ setupMsgs msgs rest, Disconnects c.dev m i) := by
  obtain ⟨ps, c₁, hpeer, h₁, rfl⟩ := ivshmemCommonRealize_recv h
  obtain ⟨version, id, msgs, rfl, -, -, h₂⟩ := ivshmemRecvSetup_until h₁
  obtain ⟨-, hvec, handled, rfl, hfree⟩ := recvUntilShmem_freed h₂
  obtain ⟨hid, -⟩ := recvUntilShmem_freed h₂
  obtain ⟨hdev, -⟩ := realizeRegs_frame (ivshmemSetupInterrupts c₁)
  have hmsgs : setupMsgs (version :: id :: (handled ++ rest)) rest = handled := by
    simp [setupMsgs]
  rw [hmsgs]
  refine ⟨⟨?_, ?_⟩, ?_, fun i => ?_⟩
  · rw [hdev]
  · rw [hdev]
    exact ⟨_, rfl, List.length_replicate⟩
  · rw [hdev]
    exact hvec
  · have hold : (c₁.dev.peer i).allocated = false ↔ ∃ m ∈ handled, Disconnects c₁.dev m i := by
      have hempty : ¬ (IVShmemState.peer { IVShmemState.init x vectors bars requesterId with
          peers := ps } i).allocated = false := by
        rw [hpeer]
        nofun
      rw [hfree]
      unfold Disconnects
      rw [hid]
      exact or_iff_right hempty
    rw [hdev]
    exact hold

/-! ## The life cycle -/

/-- The notifier arrays are used soundly, whatever comes next. -/
structure SlotsSound (c : Ctx x) : Prop where
  /-- No entry counts more notifiers than the device has vectors. -/
  bound : ∀ i < c.dev.nbPeers, (c.dev.peer i).nbEventfds ≤ c.dev.vectors
  /-- An entry that can take one more has an array, with room for all vectors. -/
  room : ∀ i, (c.dev.peer i).nbEventfds < c.dev.vectors →
    (c.dev.peer i).allocated = true ∧ (c.dev.peer i).eventfds.length = c.dev.vectors
  /-- No message stores into a freed array, or frees it again. -/
  message : ∀ (m : Msg) env, processMsg c m.value m.fd env ≠ .error .badPointer
  /-- The last handler signalled none of the notifiers that are freed. -/
  signal : ∀ p ∈ c.signals, 0 ≤ p.1 → ¬ Freed c.dev p.1.toNat
  /-- Exit frees each array for the first time. -/
  exit : ivshmemExit c ≠ .error .badPointer

/-- **The notifier arrays are used soundly exactly if no id is disconnected**, or there are no
    vectors, and so no arrays. -/
theorem slots_sound_iff
    (h₀ : ivshmemCommonRealize ⟨shm, .init x vectors bars requesterId, []⟩ masterOn env msgs =
      .ok (.ok (c₀, rest)))
    (h : Run Handles c₀ t c) : SlotsSound c ↔ vectors = 0 ∨
      ∀ i : ℕ, (∀ m ∈ setupMsgs msgs rest, ¬ Disconnects c₀.dev m i) ∧
        ∀ e ∈ t, ¬ Frees c₀.dev i e.2 := by
  obtain ⟨hw₀, hvec₀, hfree₀⟩ := freed_of_realize h₀
  obtain ⟨-, hvec, hfree⟩ := freed_run h
  -- the condition says that no array is freed
  have hcond : (∀ i, ¬ Freed c.dev i) ↔ vectors = 0 ∨
      ∀ i : ℕ, (∀ m ∈ setupMsgs msgs rest, ¬ Disconnects c₀.dev m i) ∧
        ∀ e ∈ t, ¬ Frees c₀.dev i e.2 := by
    unfold Freed
    simp only [hfree, hfree₀, hvec, hvec₀]
    by_cases hv : vectors = 0
    · simp [hv]
    · simp only [hv, not_false_eq_true, ne_eq, true_and, false_or, not_or, not_exists, not_and]
  rw [← hcond]
  refine ⟨fun hs i hi => hs.exit (ivshmemExit_eq_badPointer.2 ⟨i, hi⟩), fun hf => ?_⟩
  obtain ⟨hw, hok⟩ := wireable_run hw₀ (realized_of_realize h₀).table h hf
  refine ⟨fun i _ => (hok i).bound, fun i hi => ⟨?_, (hok i).length⟩, fun m env => ?_,
    fun p _ _ => hf _, fun hex => ?_⟩
  · by_contra hall
    refine hf i ⟨?_, by simpa using hall⟩
    omega
  · exact (processMsg_ends hw hok fun i _ => hf i).ne_badPointer
  · obtain ⟨i, hi⟩ := ivshmemExit_eq_badPointer.1 hex
    exact hf i hi

end

/-- The second client connects. -/
def peerConnects : List Event :=
  [.message ⟨1, some ⟨1, 0⟩⟩ eventfdEnv, .message ⟨1, some ⟨1, 1⟩⟩ eventfdEnv]

/-- The arrays of a device that only sees connects. -/
theorem slots_sound_connects : ∃ c, Run Handles firstUp (trace Ctx.next firstUp peerConnects) c ∧
    SlotsSound c := by
  obtain ⟨c, hc⟩ : ∃ c, exec Ctx.next firstUp peerConnects = .ok c := ⟨_, rfl⟩
  refine ⟨c, Run.of_exec hc,
    (slots_sound_iff firstUp_realized (Run.of_exec hc)).2 (Or.inr fun i => ⟨?_, ?_⟩)⟩
  · intro m hm
    rw [show setupMsgs (hello 0) [] = [⟨-1, some ⟨0, 0⟩⟩] from rfl, List.mem_singleton] at hm
    rw [hm]
    exact fun hd => by cases hd.1
  · intro e he
    have hacts := mem_of_mem_trace he
    simp only [peerConnects, List.mem_cons, List.not_mem_nil, or_false] at hacts
    rcases hacts with h | h <;> rw [h]
    · exact fun hd => by cases hd.1
    · exact fun hd => by cases hd.1

/-- The second client connects and goes away again. -/
def peerLeaves : List Event := peerConnects ++ [.message ⟨1, none⟩ eventfdEnv]

/-- **The freed array is used again**: a client that takes the id, a second disconnect and exit all
    reach for it. -/
theorem freed_slot_reused : ∃ c, Run Handles firstUp (trace Ctx.next firstUp peerLeaves) c ∧
    processMsg c 1 (some ⟨1, 0⟩) eventfdEnv = .error .badPointer ∧
    processMsg c 1 none eventfdEnv = .error .badPointer ∧
    ivshmemExit c = .error .badPointer ∧ ¬ SlotsSound c := by
  obtain ⟨c, hc, h1, h2, h3⟩ : ∃ c, exec Ctx.next firstUp peerLeaves = .ok c ∧
      processMsg c 1 (some ⟨1, 0⟩) eventfdEnv = .error .badPointer ∧
      processMsg c 1 none eventfdEnv = .error .badPointer ∧
      ivshmemExit c = .error .badPointer := ⟨_, rfl, rfl, rfl, rfl⟩
  exact ⟨c, Run.of_exec hc, h1, h2, h3, fun hs => hs.exit h3⟩

end IdtNtb
