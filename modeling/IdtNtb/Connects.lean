/-
  The connects of one client, picked out of the stream of all messages.

  A connect does not say for which vector its descriptor is: the device counts
  the connects of each client.  `fdsOf` are the descriptors that the server sent
  for a client, and `Peer.ofFds` is the entry that they should make:

  * `entryAfter_ofFds`: a message adds its descriptor to the entry of its client,
    and to no other;
  * `peer_run`: after any messages the entry of a client is that of its own
    connects, however the messages of others come in between;
  * `demuxed_iff`: messages after realize are handled, and demultiplexed so,
    exactly if none is about a client that was disconnected before.
-/
import IdtNtb.Wiring

namespace IdtNtb

open Runs

variable {x : Vm} {c c₀ c' : Ctx x} {env : Env} {err : Option MsgError}

/-! ## Counting connects -/

/-- The descriptors that come with the messages for a client. -/
def fdsOf (i : ℕ) (l : List Msg) : List Fd :=
  l.filterMap fun m => if m.value = (i : ℤ) then m.fd else none

theorem fdsOf_append (i : ℕ) (l l' : List Msg) : fdsOf i (l ++ l') = fdsOf i l ++ fdsOf i l' :=
  List.filterMap_append ..

theorem fdsOf_singleton_of_ne {i : ℕ} {m : Msg} (h : m.value ≠ i) : fdsOf i [m] = [] := by
  simp [fdsOf, h]

theorem fdsOf_singleton {i : ℕ} {m : Msg} (h : m.value = i) : fdsOf i [m] = m.fd.toList := by
  cases hfd : m.fd <;> simp [fdsOf, h, hfd]

namespace Peer

/-- The entry that the descriptors make: the `k`-th is the notifier for vector `k`, and there are
    notifiers for `vectors` of them. -/
def ofFds (vectors : ℕ) (fds : List Fd) : Peer where
  nbEventfds := min fds.length vectors
  eventfds := (List.range vectors).map (fds[·]?)
  allocated := true

variable {vectors : ℕ} {fds : List Fd}

theorem ofFds_nil : ofFds vectors [] = .empty vectors := by
  simp [ofFds, empty]

/-- An entry that counts no notifier is empty. -/
theorem ofFds_of_zero (h : (ofFds vectors fds).nbEventfds = 0) :
    ofFds vectors fds = ofFds vectors [] := by
  have hmin : min fds.length vectors = 0 := h
  rcases Nat.min_eq_zero_iff.1 hmin with hnil | rfl
  · rw [List.length_eq_zero_iff.1 hnil]
  · simp [ofFds]

/-- What comes after the last vector is not taken. -/
theorem ofFds_full (h : vectors ≤ fds.length) (fds' : List Fd) :
    ofFds vectors (fds ++ fds') = ofFds vectors fds := by
  have hslots : (List.range vectors).map ((fds ++ fds')[·]?) =
      (List.range vectors).map (fds[·]?) := by
    refine List.map_congr_left fun k hk => ?_
    have hlt := List.mem_range.1 hk
    exact List.getElem?_append_left (by omega)
  unfold ofFds
  rw [hslots, List.length_append, Nat.min_eq_right h, Nat.min_eq_right (by omega)]

/-- One more descriptor is connected for the next vector. -/
theorem ofFds_connect (h : fds.length < vectors) (fd : Fd) :
    (ofFds vectors fds).connect fd = ofFds vectors (fds ++ [fd]) := by
  have hnb : min fds.length vectors = fds.length := Nat.min_eq_left (Nat.le_of_lt h)
  have hnb' : min (fds ++ [fd]).length vectors = fds.length + 1 := by
    rw [List.length_append, List.length_singleton]
    exact Nat.min_eq_left h
  have hslots : ((List.range vectors).map (fds[·]?)).set fds.length (some fd) =
      (List.range vectors).map ((fds ++ [fd])[·]?) := by
    ext1 k
    rw [List.getElem?_set, List.length_map, List.length_range, List.getElem?_map,
      List.getElem?_map]
    by_cases hk : k < vectors
    · rw [List.getElem?_range hk]
      rcases Nat.lt_trichotomy k fds.length with hlt | rfl | hgt
      · simp [Nat.ne_of_gt hlt, List.getElem?_append_left hlt]
      · simp [h]
      · have hout : (fds ++ [fd]).length ≤ k := by
          rw [List.length_append, List.length_singleton]
          exact hgt
        simp [Nat.ne_of_lt hgt, List.getElem?_eq_none (Nat.le_of_lt hgt),
          List.getElem?_eq_none hout]
    · have hne : fds.length ≠ k := by omega
      simp [hne, hk]
  simp only [connect, ofFds, hnb, hnb', hslots]

end Peer

/-- The notifier for a vector that is counted is found through the table. -/
theorem notifier_ofFds {d : IVShmemState x} {i k vectors : ℕ} {fds : List Fd}
    (h : d.peer i = .ofFds vectors fds) (hk : k < d.nbEventfds i) :
    d.notifier i k = .ok fds[k]? := by
  rw [IVShmemState.nbEventfds_natCast] at hk
  have hlt := IVShmemState.lt_nbPeers (Nat.zero_lt_of_lt hk)
  have hkv : k < vectors := by
    rw [h] at hk
    exact Nat.lt_of_lt_of_le hk (min_le_right _ _)
  unfold IVShmemState.notifier
  rw [if_pos (Int.natCast_nonneg i), Int.toNat_natCast, IVShmemState.getElem?_peer hlt, h]
  simp [Peer.ofFds, hkv]

/-! ## One message -/

/-- **A message about a client adds its descriptor**, and leaves the entries of the others. -/
theorem entryAfter_ofFds {d : IVShmemState x} {i : ℕ} {fds : List Fd} {m : Msg}
    (hi : (i : ℤ) ≤ ivshmemMaxPeers) (h : d.peer i = .ofFds d.vectors fds)
    (hno : ¬ Disconnects d m i) :
    entryAfter d m.value m.fd i = .ofFds d.vectors (fds ++ fdsOf i [m]) := by
  by_cases hm : m.value = i
  · rw [fdsOf_singleton hm, hm]
    cases hfd : m.fd with
    | none =>
      have hown : (i : ℤ) = d.vmId := by
        by_contra hne
        exact hno ⟨hfd, hm, hm ▸ hi, hm ▸ hne⟩
      rw [entryAfter_disconnect hi, if_pos hown, h, Option.toList_none, List.append_nil]
    | some fd =>
      rw [entryAfter_connect hi, h, Option.toList_some]
      by_cases hfull : d.vectors ≤ fds.length
      · have hle : d.vectors ≤ (Peer.ofFds d.vectors fds).nbEventfds := le_min hfull le_rfl
        rw [if_pos hle, Peer.ofFds_full hfull]
      · have hlt : fds.length < d.vectors := Nat.not_le.1 hfull
        have hnot : ¬ d.vectors ≤ (Peer.ofFds d.vectors fds).nbEventfds :=
          fun hle => hfull (hle.trans (min_le_left _ _))
        rw [if_neg hnot, Peer.ofFds_connect hlt]
  · rw [fdsOf_singleton_of_ne hm, entryAfter_of_ne hm, h, List.append_nil]

/-- The device handles a message, whatever the calls out of it answer. -/
def Receives (c : Ctx x) (m : Msg) (c' : Ctx x) : Prop :=
  ∃ env err, processMsg c m.value m.fd env = .ok (c', err)

/-- **The entry of a client** after any messages, none of which disconnects it. -/
theorem peer_run {t : List (Ctx x × Msg)} {i : ℕ} {fds : List Fd} (h : Run Receives c₀ t c)
    (hi : (i : ℤ) ≤ ivshmemMaxPeers) (h0 : c₀.dev.peer i = .ofFds c₀.dev.vectors fds)
    (hno : ∀ e ∈ t, ¬ Disconnects c₀.dev e.2 i) : c.dev.vmId = c₀.dev.vmId ∧
      c.dev.vectors = c₀.dev.vectors ∧
      c.dev.peer i = .ofFds c₀.dev.vectors (fds ++ fdsOf i (t.map Prod.snd)) := by
  induction h with
  | nil => exact ⟨rfl, rfl, by rw [h0]; simp [fdsOf]⟩
  | @snoc t c₁ m c₂ _ hst ih =>
    obtain ⟨hid, hvec, hpeer⟩ := ih fun e he => hno e (by simp [he])
    obtain ⟨env, err, hm⟩ := hst
    obtain ⟨hafter, hframe, -, -⟩ := processMsg_spec hm
    have hnot : ¬ Disconnects c₁.dev m i := by
      intro hd
      refine hno (c₁, m) (by simp) ?_
      unfold Disconnects at hd ⊢
      rw [← hid]
      exact hd
    refine ⟨hframe.vmId.trans hid, hframe.vectors.trans hvec, ?_⟩
    rw [hafter, entryAfter_ofFds hi (by rw [hvec]; exact hpeer) hnot, hvec, List.map_append,
      fdsOf_append, List.append_assoc]
    rfl

/-! ## The size of the table -/

theorem length_peers_of_setupInterrupt {vector : ℕ}
    (h : setupInterrupt c vector env = .ok (c', err)) : c'.dev.nbPeers = c.dev.nbPeers := by
  obtain ⟨hpeers, -⟩ := setupInterrupt_spec h
  exact congrArg List.length hpeers

/-- **The table never shrinks**, and has room for the client of every message. -/
theorem nbPeers_processMsg {msg : ℤ} {fd : Option Fd}
    (h : processMsg c msg fd env = .ok (c', err)) : c.dev.nbPeers ≤ c'.dev.nbPeers ∧
      ∀ i : ℕ, msg = i → (i : ℤ) ≤ ivshmemMaxPeers → i < c'.dev.nbPeers := by
  rcases msg_cases msg with hbad | rfl | ⟨posn, rfl, hposn⟩
  · rw [processMsg_invalid c fd env hbad] at h
    cases h
    obtain ⟨hdev, -⟩ := closeFd_frame c fd
    refine ⟨by rw [hdev], fun i hi hmax => ?_⟩
    omega
  · obtain ⟨hpeers, -⟩ := processMsgShmem_frame c fd env
    rw [Except.ok.inj ((processMsg_shmem c fd env).symm.trans h)] at hpeers
    refine ⟨le_of_eq (congrArg List.length hpeers).symm, fun i hi _ => ?_⟩
    omega
  · obtain ⟨c₁, hg, hlt, heq⟩ := processMsg_posn c fd env hposn
    rw [heq] at h
    have hsame : c'.dev.nbPeers = c₁.dev.nbPeers := by
      cases fd with
      | some fd =>
        simp only [Option.elim, processMsgConnect] at h
        rw [IVShmemState.getElem?_peer hlt] at h
        dsimp only at h
        split_ifs at h
        · cases h
          rfl
        · rw [length_peers_of_setupInterrupt h]
          exact List.length_set
        · cases h
          exact List.length_set
      | none =>
        simp only [Option.elim, processMsgDisconnect] at h
        split_ifs at h
        · cases h
          rfl
        · obtain ⟨c₂, h₂, h⟩ := bind_ok.1 h
          cases h
          rcases closePeerEventfds_ends hlt with ⟨-, hbad⟩ | ⟨-, c₃, ps, hclose, hdev, hps⟩
          · rw [hbad] at h₂
            cases h₂
          · obtain rfl := Except.ok.inj (h₂.symm.trans hclose)
            rw [hdev]
            exact hps
    refine ⟨?_, fun i hi _ => ?_⟩
    · rw [hsame]
      exact hg.nbPeers
    · rw [hsame, ← Int.natCast_inj.1 hi]
      exact hlt

/-- **A connect of a client that is full** is rejected, and changes no entry. -/
theorem processMsg_full {i : ℕ} (fd : Fd) (env : Env) (hi : (i : ℤ) ≤ ivshmemMaxPeers)
    (h : c.dev.vectors ≤ (c.dev.peer i).nbEventfds) : ∃ c',
      processMsg c i (some fd) env = .ok (c', some (.tooManyEventfds c.dev.vectors)) ∧
      ∀ k, c'.dev.peer k = c.dev.peer k := by
  obtain ⟨c₁, hg, hlt, heq⟩ := processMsg_posn c (some fd) env hi
  have hvec : c₁.dev.vectors = c.dev.vectors := hg.framed.vectors
  refine ⟨c₁.closeFd (some fd), ?_, hg.peer⟩
  rw [heq, Option.elim, processMsgConnect, IVShmemState.getElem?_peer hlt]
  dsimp only
  rw [hg.peer, hvec, if_pos h]

/-! ## Messages that find a freed array -/

/-- The second message is about a client that the first one disconnects. -/
def Revives (d : IVShmemState x) (m m' : Msg) : Prop :=
  0 ≤ m'.value ∧ Disconnects d m m'.value

instance (d : IVShmemState x) (m m' : Msg) : Decidable (Revives d m m') :=
  inferInstanceAs (Decidable (_ ∧ _))

/-- No message is about a client that was disconnected before. -/
def NoRevival (d : IVShmemState x) (l : List Msg) : Prop := l.Pairwise fun m m' => ¬ Revives d m m'

instance (d : IVShmemState x) (l : List Msg) : Decidable (NoRevival d l) :=
  inferInstanceAs (Decidable (l.Pairwise _))

/-- A message about a client whose array was freed stores into the array, or frees it again. -/
theorem processMsg_freed {i : ℕ} (fd : Option Fd) (env : Env) (hok : c.dev.TableOk)
    (hi : (i : ℤ) ≤ ivshmemMaxPeers) (hown : (i : ℤ) ≠ c.dev.vmId) (hf : Freed c.dev i) :
    processMsg c i fd env = .error .badPointer := by
  obtain ⟨c₁, hg, hlt, heq⟩ := processMsg_posn c fd env hi
  have hpeer := hg.peer i
  have hvec : c₁.dev.vectors = c.dev.vectors := hg.framed.vectors
  have hid : c₁.dev.vmId = c.dev.vmId := hg.framed.vmId
  have hf₁ : Freed c₁.dev i := by
    unfold Freed
    rw [hpeer, hvec]
    exact hf
  rw [heq]
  cases fd with
  | some fd =>
    have hnb : (c₁.dev.peer i).nbEventfds = 0 := by
      rw [hpeer]
      exact (hok i).closed hf.2
    have hvec0 : ¬ c₁.dev.vectors ≤ 0 := by
      rw [Nat.le_zero]
      exact hf₁.1
    rw [Option.elim, processMsgConnect, IVShmemState.getElem?_peer hlt]
    dsimp only
    rw [hnb, if_neg hvec0, if_neg (by rw [hf₁.2]; exact Bool.false_ne_true)]
  | none =>
    rw [Option.elim, processMsgDisconnect, if_neg (by rw [hid]; omega)]
    rcases closePeerEventfds_ends hlt with ⟨-, hbad⟩ | ⟨hnot, -⟩
    · rw [hbad]
      rfl
    · exact absurd hf₁ hnot

/-- The arrays that are freed after some messages are those of the clients they disconnect. -/
theorem freed_receives {t : List (Ctx x × Msg)} (h : Run Receives c₀ t c) :
    c.dev.vmId = c₀.dev.vmId ∧ c.dev.vectors = c₀.dev.vectors ∧
      (c₀.dev.TableOk → c.dev.TableOk) ∧ ∀ i, ((c.dev.peer i).allocated = false ↔
        (c₀.dev.peer i).allocated = false ∨ ∃ m ∈ t.map Prod.snd, Disconnects c₀.dev m i) := by
  induction h with
  | nil => exact ⟨rfl, rfl, id, fun i => by simp⟩
  | @snoc t c₁ m c₂ _ hst ih =>
    obtain ⟨hid, hvec, hok, hfree⟩ := ih
    obtain ⟨env, err, hm⟩ := hst
    obtain ⟨hpeer, hframe, -, -⟩ := processMsg_spec hm
    refine ⟨hframe.vmId.trans hid, hframe.vectors.trans hvec,
      fun h => processMsg_tableOk hm (hok h), fun i => ?_⟩
    have hsame : Disconnects c₁.dev m i ↔ Disconnects c₀.dev m i := by
      unfold Disconnects
      rw [hid]
    rw [hpeer, entryAfter_allocated, hfree, hsame]
    simp [or_and_right, exists_or, or_assoc]

/-- **Messages that were handled** are about no client that was disconnected before. -/
theorem noRevival_run {t : List (Ctx x × Msg)} (h : Run Receives c₀ t c) (hok : c₀.dev.TableOk)
    (hv : c₀.dev.vectors ≠ 0) : NoRevival c₀.dev (t.map Prod.snd) ∧
      ∀ m ∈ t.map Prod.snd, ∀ i : ℕ, m.value = i → (i : ℤ) ≤ ivshmemMaxPeers →
        (i : ℤ) ≠ c₀.dev.vmId → (c₀.dev.peer i).allocated = true := by
  induction h with
  | nil => exact ⟨List.Pairwise.nil, by simp⟩
  | @snoc t c₁ m c₂ hrun hst ih =>
    obtain ⟨hno, hall⟩ := ih
    obtain ⟨hid, hvec, hok₁, hfree⟩ := freed_receives hrun
    obtain ⟨env, err, hm⟩ := hst
    -- the message was handled, so its array was there
    have hnow : ∀ i : ℕ, m.value = i → (i : ℤ) ≤ ivshmemMaxPeers → (i : ℤ) ≠ c₀.dev.vmId →
        ¬ (c₁.dev.peer i).allocated = false := by
      intro i hi hmax hown hf
      rw [hi, processMsg_freed m.fd env (hok₁ hok) hmax (by rw [hid]; exact hown)
        ⟨by rw [hvec]; exact hv, hf⟩] at hm
      cases hm
    simp only [hfree, not_or] at hnow
    rw [List.map_append]
    refine ⟨List.pairwise_append.2 ⟨hno, List.pairwise_singleton _ _, ?_⟩, ?_⟩
    · rintro m₁ hm₁ m₂ hm₂ ⟨h0, hd⟩
      rw [List.map_singleton, List.mem_singleton] at hm₂
      subst hm₂
      obtain ⟨i, hi⟩ := Int.eq_ofNat_of_zero_le h0
      rw [hi] at hd
      exact (hnow i hi (hd.2.1 ▸ hd.2.2.1) (hd.2.1 ▸ hd.2.2.2)).2 ⟨m₁, hm₁, hd⟩
    · intro m₁ hm₁ i hi hmax hown
      rcases List.mem_append.1 hm₁ with hm₁ | hm₁
      · exact hall m₁ hm₁ i hi hmax hown
      · rw [List.map_singleton, List.mem_singleton] at hm₁
        subst hm₁
        simpa using (hnow i hi hmax hown).1

/-! ## Messages after realize -/

/-- Handle a message, and go on whatever is reported.  With each message comes what the calls out of
    the device answer. -/
def Ctx.receive (c : Ctx x) (m : Msg × Env) : Except Fault (Ctx x) :=
  (processMsg c m.1.value m.1.fd m.2).map Prod.fst

theorem receive_ok {m : Msg × Env} :
    c.receive m = .ok c' ↔ ∃ err, processMsg c m.1.value m.1.fd m.2 = .ok (c', err) := by
  unfold Ctx.receive
  cases processMsg c m.1.value m.1.fd m.2 with
  | error f => exact ⟨nofun, fun ⟨_, h⟩ => by cases h⟩
  | ok r => exact ⟨fun h => by cases h; exact ⟨r.2, rfl⟩, fun ⟨_, h⟩ => by cases h; rfl⟩

theorem receives_of_exec {l : List (Msg × Env)} (h : exec Ctx.receive c l = .ok c') :
    ∃ t, Run Receives c t c' ∧ t.map Prod.snd = l.map Prod.fst := by
  induction l generalizing c with
  | nil =>
    cases h
    exact ⟨[], .nil, rfl⟩
  | cons m l ih =>
    obtain ⟨c₁, h₁, h⟩ := bind_ok.1 h
    obtain ⟨t, ht, hl⟩ := ih h
    obtain ⟨err, hm⟩ := receive_ok.1 h₁
    exact ⟨(c, m.1) :: t, (Run.snoc .nil ⟨m.2, err, hm⟩).trans ht, by simp [hl]⟩

/-- The messages that set-up handles. -/
theorem receives_of_recv {msgs rest : List Msg}
    (h : recvUntilShmem c env msgs = .ok (.ok (c', rest))) :
    ∃ t, Run Receives c t c' ∧ msgs = t.map Prod.snd ++ rest := by
  induction msgs generalizing c with
  | nil => cases h
  | cons m msgs ih =>
    obtain ⟨c₁, h₁, hmore⟩ := recvUntilShmem_cons h
    have hst : Run Receives c [(c, m)] c₁ := .snoc .nil ⟨env, none, h₁⟩
    rcases hmore with ⟨-, rfl, rfl⟩ | h
    · exact ⟨_, hst, rfl⟩
    · obtain ⟨t, ht, rfl⟩ := ih h
      exact ⟨_, hst.trans ht, rfl⟩

/-- **Messages about no freed array are all handled.** -/
theorem exec_ready {l : List (Msg × Env)} (hr : Ready c)
    (hno : c.dev.vectors = 0 ∨ NoRevival c.dev (l.map Prod.fst))
    (hf : ∀ m ∈ l, ∀ i : ℕ, m.1.value = i → ¬ Freed c.dev i) :
    ∃ c', exec Ctx.receive c l = .ok c' ∧ Ready c' := by
  induction l generalizing c with
  | nil => exact ⟨c, rfl, hr⟩
  | cons m l ih =>
    obtain ⟨c₁, err, hm, hr₁⟩ : ∃ c₁ err, processMsg c m.1.value m.1.fd m.2 = .ok (c₁, err) ∧
        Ready c₁ := processMsg_ready hr (hf m (by simp))
    obtain ⟨hpeer, hframe, -⟩ := processMsg_spec hm
    have hstep : c.receive m = .ok c₁ := receive_ok.2 ⟨err, hm⟩
    have hrev : ∀ m₁ m₂, Revives c₁.dev m₁ m₂ ↔ Revives c.dev m₁ m₂ := by
      intro m₁ m₂
      unfold Revives Disconnects
      rw [hframe.vmId]
    have hno₁ : c₁.dev.vectors = 0 ∨ NoRevival c₁.dev (l.map Prod.fst) := by
      rw [hframe.vectors]
      refine hno.imp id fun hno => ?_
      rw [List.map_cons, NoRevival, List.pairwise_cons] at hno
      unfold NoRevival
      simp only [hrev]
      exact hno.2
    have hf₁ : ∀ m ∈ l, ∀ i : ℕ, m.1.value = i → ¬ Freed c₁.dev i := by
      rintro m' hm' i hi ⟨hv, hall⟩
      rw [hpeer, entryAfter_allocated] at hall
      rcases hall with hall | hd
      · exact hf m' (by simp [hm']) i hi ⟨hframe.vectors ▸ hv, hall⟩
      · rcases hno with hno | hno
        · exact hv (hframe.vectors.trans hno)
        · rw [List.map_cons, NoRevival, List.pairwise_cons] at hno
          refine hno.1 m'.1 (List.mem_map_of_mem hm') ⟨?_, ?_⟩
          · rw [hi]
            exact Int.natCast_nonneg i
          · rw [hi]
            exact hd
    obtain ⟨c', hc', hr'⟩ := ih hr₁ hno₁ hf₁
    refine ⟨c', ?_, hr'⟩
    rw [exec, hstep]
    exact hc'

section
variable {shm : IdtIvshmemShmStorage} {vectors : ℕ} {bars : Fin 6 → BusAddr}
  {requesterId : BitVec 16} {masterOn : Bool} {msgs rest : List Msg}

/-- **What realize leaves**: a device that is ready, with the table that the messages of set-up
    made, and no vector wired. -/
theorem connects_of_realize
    (h : ivshmemCommonRealize ⟨shm, .init x vectors bars requesterId, []⟩ masterOn env msgs =
      .ok (.ok (c, rest))) :
    Ready c ∧ Unwired c 0 ∧ c.dev.vectors = vectors ∧
      ∃ (cs : Ctx x) (t : List (Ctx x × Msg)) (c₁ : Ctx x), Run Receives cs t c₁ ∧
        t.map Prod.snd = setupMsgs msgs rest ∧ (∀ i, cs.dev.peer i = .empty vectors) ∧
        cs.dev.vectors = vectors ∧ cs.dev.vmId = c.dev.vmId ∧ cs.dev.msiVectors = none ∧
        cs.out = [] ∧ c = realizeRegs (ivshmemSetupInterrupts c₁) := by
  obtain ⟨hw, hvec, -⟩ := freed_of_realize h
  have htable := (realized_of_realize h).table
  obtain ⟨ps, c₁, hpeer, h₁, hc⟩ := ivshmemCommonRealize_recv h
  obtain ⟨version, id, msgs, rfl, -, -, h₂⟩ := ivshmemRecvSetup_until h₁
  obtain ⟨t, ht, rfl⟩ := receives_of_recv h₂
  obtain ⟨hid, -⟩ := freed_receives ht
  have hmsgs : setupMsgs (version :: id :: (t.map Prod.snd ++ rest)) rest = t.map Prod.snd := by
    simp [setupMsgs]
  obtain ⟨hdev, -⟩ := realizeRegs_frame (ivshmemSetupInterrupts c₁)
  have hun : Unwired c 0 := by
    intro v _ e he
    unfold msiVector at he
    rw [hc, hdev] at he
    simp only [ivshmemSetupInterrupts, Ctx.modDev] at he
    cases hv : (List.replicate c₁.dev.vectors (default : MSIVector))[v]? with
    | none => rw [hv] at he; cases he
    | some e' =>
      rw [hv] at he
      cases he
      rw [(List.mem_replicate.1 (List.mem_of_getElem? hv)).2]
      rfl
  refine ⟨⟨hw, htable, hun.mono (Nat.zero_le _)⟩, hun, hvec, _, t, c₁, ht, hmsgs.symm, hpeer, rfl,
    ?_, rfl, rfl, hc⟩
  rw [hc, hdev]
  exact hid.symm

/-- **Messages after realize are handled** exactly if none is about a client that was disconnected
    before. -/
theorem handled_iff
    (h₀ : ivshmemCommonRealize ⟨shm, .init x vectors bars requesterId, []⟩ masterOn env msgs =
      .ok (.ok (c₀, rest))) (l : List (Msg × Env)) :
    (∃ c, exec Ctx.receive c₀ l = .ok c) ↔
      vectors = 0 ∨ NoRevival c₀.dev (setupMsgs msgs rest ++ l.map Prod.fst) := by
  obtain ⟨hready, -, hvec, cs, t, c₁, hset, hmsgs, hempty, hvec', hid, -⟩ := connects_of_realize h₀
  obtain ⟨-, -, hfree⟩ := freed_of_realize h₀
  have hcs : cs.dev.TableOk := by
    intro i
    rw [hempty, hvec']
    exact Peer.ok_empty
  have hrev : ∀ m m', Revives cs.dev m m' ↔ Revives c₀.dev m m' := by
    intro m m'
    unfold Revives Disconnects
    rw [hid]
  by_cases hv : vectors = 0
  · have hnone : ∀ m ∈ l, ∀ i : ℕ, m.1.value = i → ¬ Freed c₀.dev i :=
      fun m _ i _ hf => hf.1 (hvec.trans hv)
    obtain ⟨c, hc, -⟩ := exec_ready hready (Or.inl (hvec.trans hv)) hnone
    exact ⟨fun _ => Or.inl hv, fun _ => ⟨c, hc⟩⟩
  rw [or_iff_right hv]
  constructor
  · rintro ⟨c, h⟩
    obtain ⟨t', ht', hl⟩ := receives_of_exec h
    obtain ⟨hno, -⟩ := noRevival_run hset hcs (by rw [hvec']; exact hv)
    obtain ⟨hno', hall⟩ := noRevival_run ht' hready.table (by rw [hvec]; exact hv)
    rw [hmsgs] at hno
    rw [hl] at hno' hall
    unfold NoRevival at hno
    simp only [hrev] at hno
    refine List.pairwise_append.2 ⟨hno, hno', ?_⟩
    rintro m hm m' hm' ⟨h0, hd⟩
    obtain ⟨i, hi⟩ := Int.eq_ofNat_of_zero_le h0
    rw [hi] at hd
    have hthere := hall m' hm' i hi (hd.2.1 ▸ hd.2.2.1) (hd.2.1 ▸ hd.2.2.2)
    rw [(hfree i).2 ⟨m, hm, hd⟩] at hthere
    cases hthere
  · intro hno
    obtain ⟨-, hno', hcross⟩ := List.pairwise_append.1 hno
    have hthere : ∀ m ∈ l, ∀ i : ℕ, m.1.value = i → ¬ Freed c₀.dev i := by
      rintro m hm i hi ⟨-, hf⟩
      obtain ⟨m', hm', hd⟩ := (hfree i).1 hf
      refine hcross m' hm' m.1 (List.mem_map_of_mem hm) ⟨?_, ?_⟩
      · rw [hi]
        exact Int.natCast_nonneg i
      · rw [hi]
        exact hd
    obtain ⟨c, hc, -⟩ := exec_ready hready (Or.inr hno') hthere
    exact ⟨c, hc⟩

/-- The table after the messages `all`, of which the device has handled `l` since realize. -/
structure Demuxed (c₀ : Ctx x) (vectors : ℕ) (l : List (Msg × Env)) (all : List Msg) (c : Ctx x) :
    Prop where
  /-- A client that was not disconnected has as many notifiers as it has connects, up to the number
      of vectors. -/
  nbEventfds : ∀ i : ℕ, (i : ℤ) ≤ ivshmemMaxPeers → (∀ m ∈ all, ¬ Disconnects c₀.dev m i) →
    c.dev.nbEventfds i = min (fdsOf i all).length vectors
  /-- The notifier for vector `k` is the one of the `k`-th connect. -/
  notifier : ∀ i : ℕ, (i : ℤ) ≤ ivshmemMaxPeers → (∀ m ∈ all, ¬ Disconnects c₀.dev m i) →
    ∀ k < c.dev.nbEventfds i, c.dev.notifier i k = .ok (fdsOf i all)[k]?
  /-- Any further connect is rejected, and changes no entry. -/
  rejected : ∀ i : ℕ, (i : ℤ) ≤ ivshmemMaxPeers → (∀ m ∈ all, ¬ Disconnects c₀.dev m i) →
    vectors ≤ (fdsOf i all).length → ∀ fd env, ∃ c',
      processMsg c i (some fd) env = .ok (c', some (.tooManyEventfds vectors)) ∧
      ∀ k, c'.dev.peer k = c.dev.peer k
  /-- The table has room for every client it was told of. -/
  room : ∀ m ∈ all, ∀ i : ℕ, m.value = i → (i : ℤ) ≤ ivshmemMaxPeers → i < c.dev.nbPeers
  /-- It has not shrunk since any earlier message. -/
  grows : ∀ l₁ l₂ c₁, l = l₁ ++ l₂ → exec Ctx.receive c₀ l₁ = .ok c₁ →
    c₁.dev.nbPeers ≤ c.dev.nbPeers

theorem nbPeers_run {t : List (Ctx x × Msg)} (h : Run Receives c₀ t c) :
    c₀.dev.nbPeers ≤ c.dev.nbPeers ∧ ∀ m ∈ t.map Prod.snd, ∀ i : ℕ, m.value = i →
      (i : ℤ) ≤ ivshmemMaxPeers → i < c.dev.nbPeers := by
  induction h with
  | nil => exact ⟨le_rfl, by simp⟩
  | @snoc t c₁ m c₂ _ hst ih =>
    obtain ⟨hle, hroom⟩ := ih
    obtain ⟨env, err, hm⟩ := hst
    obtain ⟨hle', hroom'⟩ := nbPeers_processMsg hm
    refine ⟨hle.trans hle', ?_⟩
    intro m' hm' i hi hmax
    rw [List.map_append, List.mem_append, List.map_singleton, List.mem_singleton] at hm'
    rcases hm' with hm' | rfl
    · exact Nat.lt_of_lt_of_le (hroom m' hm' i hi hmax) hle'
    · exact hroom' i hi hmax

/-- **The entry of a client** after set-up and the messages that follow. -/
theorem peer_of_connects
    (h₀ : ivshmemCommonRealize ⟨shm, .init x vectors bars requesterId, []⟩ masterOn env msgs =
      .ok (.ok (c₀, rest))) {l : List (Msg × Env)} (h : exec Ctx.receive c₀ l = .ok c) {i : ℕ}
    (hi : (i : ℤ) ≤ ivshmemMaxPeers)
    (hno : ∀ m ∈ setupMsgs msgs rest ++ l.map Prod.fst, ¬ Disconnects c₀.dev m i) :
    c.dev.peer i = .ofFds vectors (fdsOf i (setupMsgs msgs rest ++ l.map Prod.fst)) := by
  obtain ⟨-, -, hvec, cs, t, c₁, hset, hmsgs, hempty, hvec', hid, -, -, hc⟩ :=
    connects_of_realize h₀
  obtain ⟨hdev, -⟩ := realizeRegs_frame (ivshmemSetupInterrupts c₁)
  obtain ⟨t', ht', hl⟩ := receives_of_exec h
  have hset' : c₀.dev.peer i = .ofFds c₀.dev.vectors (fdsOf i (setupMsgs msgs rest)) := by
    have hnot : ∀ e ∈ t, ¬ Disconnects cs.dev e.2 i := by
      intro e he hd
      refine hno e.2 (List.mem_append_left _ (hmsgs ▸ List.mem_map_of_mem he)) ?_
      unfold Disconnects at hd ⊢
      rw [← hid]
      exact hd
    have hstart : cs.dev.peer i = .ofFds cs.dev.vectors [] := by
      rw [hempty, hvec', Peer.ofFds_nil]
    obtain ⟨-, -, hpeer⟩ := peer_run hset hi hstart hnot
    rw [hvec', List.nil_append, hmsgs] at hpeer
    rw [hvec, ← hpeer, hc, hdev]
    rfl
  have hnot : ∀ e ∈ t', ¬ Disconnects c₀.dev e.2 i := by
    intro e he
    exact hno e.2 (List.mem_append_right _ (hl ▸ List.mem_map_of_mem he))
  obtain ⟨-, -, hpeer⟩ := peer_run ht' hi hset' hnot
  rw [hpeer, hvec, hl, ← fdsOf_append]

/-- Messages that are handled find the table as the connects have made it. -/
theorem demuxed_of_exec
    (h₀ : ivshmemCommonRealize ⟨shm, .init x vectors bars requesterId, []⟩ masterOn env msgs =
      .ok (.ok (c₀, rest))) {l : List (Msg × Env)} (h : exec Ctx.receive c₀ l = .ok c) :
    Demuxed c₀ vectors l (setupMsgs msgs rest ++ l.map Prod.fst) c := by
  obtain ⟨-, -, hvec₀, cs, t, c₁, hset, hmsgs, -, -, -, -, -, hc⟩ := connects_of_realize h₀
  obtain ⟨t', ht', hl⟩ := receives_of_exec h
  obtain ⟨-, hvec, -⟩ := freed_receives ht'
  have hnb₀ : c₀.dev.nbPeers = c₁.dev.nbPeers := by
    obtain ⟨hdev, -⟩ := realizeRegs_frame (ivshmemSetupInterrupts c₁)
    rw [hc, hdev]
    rfl
  refine ⟨fun i hi hno => ?_, fun i hi hno k hk => ?_, fun i hi hno hfull fd env => ?_, ?_, ?_⟩
  · rw [IVShmemState.nbEventfds_natCast, peer_of_connects h₀ h hi hno]
    rfl
  · exact notifier_ofFds (peer_of_connects h₀ h hi hno) hk
  · have hnb : c.dev.vectors ≤ (c.dev.peer i).nbEventfds := by
      rw [peer_of_connects h₀ h hi hno, hvec, hvec₀]
      exact le_min hfull le_rfl
    rw [← hvec₀, ← hvec]
    exact processMsg_full fd env hi hnb
  · obtain ⟨-, hroom⟩ := nbPeers_run hset
    obtain ⟨hle, hroom'⟩ := nbPeers_run ht'
    intro m hm i hmi hmax
    rcases List.mem_append.1 hm with hm | hm
    · rw [← hmsgs] at hm
      exact Nat.lt_of_lt_of_le (hroom m hm i hmi hmax) (hnb₀ ▸ hle)
    · rw [← hl] at hm
      exact hroom' m hm i hmi hmax
  · rintro l₁ l₂ c₂ rfl h₁
    rw [exec_append, h₁] at h
    obtain ⟨t₂, ht₂, -⟩ := receives_of_exec h
    exact (nbPeers_run ht₂).1

/-- **Connects are demultiplexed by counting**, whatever comes in between: the messages after
    realize are handled, and fill the table so, exactly if none is about a client that was
    disconnected before. -/
theorem demuxed_iff
    (h₀ : ivshmemCommonRealize ⟨shm, .init x vectors bars requesterId, []⟩ masterOn env msgs =
      .ok (.ok (c₀, rest))) (l : List (Msg × Env)) :
    (∃ c, exec Ctx.receive c₀ l = .ok c ∧
      Demuxed c₀ vectors l (setupMsgs msgs rest ++ l.map Prod.fst) c) ↔
    vectors = 0 ∨ NoRevival c₀.dev (setupMsgs msgs rest ++ l.map Prod.fst) := by
  rw [← handled_iff h₀]
  exact ⟨fun ⟨c, h, _⟩ => ⟨c, h⟩, fun ⟨c, h⟩ => ⟨c, h, demuxed_of_exec h₀ h⟩⟩

end

/-- Two clients connect in turn; one goes away, and the other has one connect too many. -/
def interleaved : List (Msg × Env) :=
  [(⟨1, some ⟨1, 0⟩⟩, eventfdEnv), (⟨2, some ⟨2, 0⟩⟩, eventfdEnv), (⟨1, some ⟨1, 1⟩⟩, eventfdEnv),
    (⟨2, none⟩, eventfdEnv), (⟨1, some ⟨1, 2⟩⟩, eventfdEnv)]

theorem demuxed_interleaved : ∃ c, exec Ctx.receive firstUp interleaved = .ok c ∧
    Demuxed firstUp 2 interleaved (setupMsgs (hello 0) [] ++ interleaved.map Prod.fst) c :=
  (demuxed_iff firstUp_realized interleaved).2 (Or.inr (by decide))

/-- A client goes away, another one makes the table grow, and the first one's id is used again. -/
def revived : List (Msg × Env) :=
  [(⟨1, none⟩, eventfdEnv), (⟨16, some ⟨16, 0⟩⟩, eventfdEnv), (⟨1, some ⟨1, 0⟩⟩, eventfdEnv)]

/-- **A connect of an id that was disconnected stores into a freed array**, which may be the one of
    the entry that was added since. -/
theorem revived_client : ¬ ∀ l, ∃ c, exec Ctx.receive firstUp l = .ok c ∧
    Demuxed firstUp 2 l (setupMsgs (hello 0) [] ++ l.map Prod.fst) c := by
  intro hall
  obtain ⟨c, hc, -⟩ := hall revived
  have hbad : exec Ctx.receive firstUp revived = .error .badPointer := rfl
  rw [hbad] at hc
  cases hc

end IdtNtb
