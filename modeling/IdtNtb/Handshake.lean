/-
  The two machines learn each other's ids.

  The second machine reads the id of the first one when it announces its own,
  and signals EVENTFD_VM_ID; the first machine reads when the signal arrives.
  Nobody asks again, so the handshake depends on who came first:

  * `ids_agree`: when the first machine joined, and announced its id, before the
    second one did, each holds the id of the other as soon as no EVENTFD_VM_ID
    event is pending, however often the second machine has come and gone;
  * `second_machine_first` is a run in which the second machine joins first.

  The order of the joins carries over to the queue of the second machine
  (`Client.Behind`): its own connects, with which it announces its id, wait
  behind those of the first machine.
-/
import IdtNtb.Server

namespace IdtNtb

open Function (update)
open Runs

/-! ## What has happened -/

/-- The step in which a device of machine `x` joins. -/
def Joins (x : Vm) (e : Net × NetAct) : Prop :=
  match e.2 with
  | .join y _ => y = x
  | _ => False

instance (x : Vm) : DecidablePred (Joins x) := fun e => by
  unfold Joins
  split <;> infer_instance

/-- The step in which the device of machine `x` runs `init_vm_ids`. -/
def RunsInit (x : Vm) (e : Net × NetAct) : Prop :=
  match e.2 with
  | .recv y env =>
    y = x ∧ ∃ c ∈ e.1.client x, ∃ m ∈ c.queue.head?, Inits c.dev m.value m.fd env
  | _ => False

instance (x : Vm) : DecidablePred (RunsInit x) := fun e => by
  unfold RunsInit
  split <;> infer_instance

/-- The device that is there has run `init_vm_ids`. -/
def HasInit (x : Vm) : List (Net × NetAct) → Prop := Since (RunsInit x) (Joins x)

instance (x : Vm) : DecidablePred (HasInit x) := decidableSince

namespace Net

/-- No EVENTFD_VM_ID event is pending. -/
def Quiet (s : Net) : Prop :=
  ∀ x, ∀ c ∈ s.client x, s.pending ⟨c.id, eventfdVmId⟩ = false

instance (s : Net) : Decidable s.Quiet := decidable_of_iff _ Vm.forall_iff.symm

/-- Each device holds the id of the other one. -/
def Agree (s : Net) : Prop :=
  ∀ c₁ ∈ s.client .vm1, ∀ c₂ ∈ s.client .vm2,
    c₁.dev.otherVmId = c₂.dev.vmId ∧ c₂.dev.otherVmId = c₁.dev.vmId

instance (s : Net) : Decidable s.Agree :=
  inferInstanceAs (Decidable (∀ c₁ ∈ s.client .vm1, ∀ c₂ ∈ s.client .vm2, _ ∧ _))

/-- The second machine knows the first one, which knows it in turn or will be told. -/
def Told (s : Net) : Prop :=
  ∀ c₁ ∈ s.client .vm1, ∀ c₂ ∈ s.client .vm2, c₁.Inited → c₂.Inited → c₂.dev.otherVmId = c₁.id ∧
    (c₁.dev.otherVmId = c₂.id ∨ s.pending ⟨c₁.id, eventfdVmId⟩ = true)

end Net

/-! ## Behind the first machine's connects -/

/-- The own connects of the device wait behind the messages about client `p`. -/
structure Client.Behind {x : Vm} (c : Client x) (p : ℕ) : Prop where
  order : c.backlog.Pairwise fun (m m' : Msg) => m.value = c.id → m'.value ≠ p
  done : 0 < (c.dev.peer c.id).nbEventfds → ∀ m ∈ c.backlog, m.value ≠ p

section
variable {n : ℕ} {s s' : Net} {x y : Vm} {env : Env}

/-- The queue of a newcomer: the connects of the device that is there, then its own. -/
theorem behind_join {id : ℕ} (hok : s.Ok n) (h : NetStep n s (.join x id) s') {c : Client x}
    {d : Client x.other} (hc : s'.client x = some c) (hd : s'.client x.other = some d) :
    c.Behind d.id := by
  have hid := (ok_join hok h).distinct hc hd (Vm.ne_other x)
  rcases client_join h hc with ⟨hx, rfl⟩ | ⟨hx, -⟩
  · rcases client_join h hd with ⟨hx', -⟩ | ⟨-, d₀, hd₀, rfl⟩
    · exact absurd hx' (Vm.other_ne x)
    · refine ⟨?_, fun h0 => absurd h0 (Nat.lt_irrefl 0)⟩
      have hback : (Client.fresh x n id (s.present n x.other ++ connects n id)).backlog =
          connects n d₀.id ++ connects n id := by
        unfold Net.present
        rw [hd₀]
        rfl
      show List.Pairwise _ (Client.backlog _)
      rw [hback, List.pairwise_append]
      have hne : ((id : ℕ) : ℤ) ≠ d₀.id := fun he => hid (Nat.cast_inj.1 he)
      refine ⟨?_, ?_, ?_⟩
      · refine List.pairwise_of_forall_mem_list fun m hm m' _ he => ?_
        rw [Client.mem_connects hm] at he
        exact absurd he.symm hne
      · refine List.pairwise_of_forall_mem_list fun m _ m' hm' _ => ?_
        rw [Client.mem_connects hm']
        exact hne
      · intro m hm m' hm' _
        rw [Client.mem_connects hm']
        exact hne
  · exact absurd hx (Vm.ne_other x)

/-- A newcomer that has its own notifiers has those of the device that was there before it. -/
theorem Client.Behind.notifier {used : List ℕ} {c : Client x} {p : ℕ} (hok : c.Ok n used)
    (hf : c.Feed n p) (hb : c.Behind p) (hi : c.Inited) :
    c.dev.notifier p eventfdVmId = .ok (some ⟨p, eventfdVmId⟩) := by
  have hown : 1 < (c.dev.peer c.id).nbEventfds := by
    unfold Client.Inited Connected at hi
    rw [IVShmemState.nbEventfds_natCast] at hi
    exact hi
  have hnone : c.backlog.filter (Msg.about p) = [] := by
    refine List.filter_eq_nil_iff.2 fun m hm => ?_
    rw [Msg.about_iff]
    exact hb.done (Nat.lt_trans Nat.zero_lt_one hown) m hm
  have hall : n ≤ (c.dev.peer p).nbEventfds := by
    have hlen := congrArg List.length (hnone.symm.trans hf.todo)
    simp only [List.length_nil, List.length_drop, connects, List.length_map,
      List.length_range] at hlen
    omega
  have hvec : (c.dev.peer c.id).nbEventfds ≤ n := by
    have hbound := (hok.table c.id).bound
    rw [hok.vectors] at hbound
    exact hbound
  obtain ⟨-, -, fd, hfd⟩ := hok.table.notifier (i := p) (k := eventfdVmId) (by
    rw [IVShmemState.nbEventfds_natCast]
    show 0 < (c.dev.peer p).nbEventfds
    omega)
  rw [hfd, hf.slots _ _ (IVShmemState.notifier_ok hfd)]

theorem behind_recv {c : Client x} {shm : IdtIvshmemShmStorage} {m : Msg} {queue : List Msg}
    {r : Ctx x} {err : Option MsgError} {p : ℕ} (hr : c.dev.realized = true)
    (hq : c.queue = m :: queue)
    (h : processMsg (c.ctx shm) m.value m.fd env = .ok (r, err)) (hb : c.Behind p) :
    ({ c with dev := r.dev, queue := queue } : Client x).Behind p := by
  obtain ⟨hpeer, hframe, -, -⟩ := processMsg_spec h
  have hr' : r.dev.realized = true := hframe.realized.trans hr
  have hback : c.backlog = m :: queue := (Client.backlog_realized hr).trans hq
  have hback' : ({ c with dev := r.dev, queue := queue } : Client x).backlog = queue :=
    Client.backlog_realized hr'
  have horder := hb.order
  rw [hback, List.pairwise_cons] at horder
  refine ⟨by rw [hback']; exact horder.2, ?_⟩
  intro h0 m' hm'
  rw [hback'] at hm'
  by_cases hm : m.value = c.id
  · exact horder.1 m' hm' hm
  · refine hb.done ?_ m' (by rw [hback]; exact List.mem_cons_of_mem m hm')
    have h0' : 0 < (r.dev.peer c.id).nbEventfds := h0
    rw [hpeer, entryAfter_of_ne hm] at h0'
    exact h0'

end

/-! ## One step -/

/-- An id that fits is read back as it was written. -/
theorem toInt_ofInt {id : ℕ} (h : (id : ℤ) ≤ ivshmemMaxPeers) : (BitVec.ofInt 32 id).toInt = id := by
  unfold ivshmemMaxPeers at h
  rw [BitVec.toInt_ofInt]
  exact Int.bmod_eq_of_le (by omega) (by omega)

section
variable {n : ℕ} {s s' : Net} {x y : Vm} {env : Env}

theorem Client.Ok.realized {used : List ℕ} {c : Client x} (hok : c.Ok n used) (hi : c.Inited) :
    c.dev.realized = true := by
  by_contra hr
  exact hok.not_inited (by simpa using hr) hi

theorem runsInit_iff {c : Client x} {m : Msg} {queue : List Msg} (hc : s.client x = some c)
    (hq : c.queue = m :: queue) :
    RunsInit x (s, .recv x env) ↔ Inits c.dev m.value m.fd env := by
  constructor
  · rintro ⟨-, c', hc', m', hm', hi⟩
    have hc' : s.client x = some c' := hc'
    rw [hc, Option.some_inj] at hc'
    subst hc'
    rw [hq, List.head?_cons, Option.mem_def, Option.some_inj] at hm'
    exact hm' ▸ hi
  · intro hi
    refine ⟨rfl, c, hc, m, ?_, hi⟩
    rw [hq]
    rfl

/-- In eventfd mode the message that announces the id is the one with which the own notifiers are
    complete. -/
theorem inited_recv (hok : s.Ok n) (he : env.msiViaIrqfd = false)
    (h : NetStep n s (.recv x env) s') {c c' : Client x} (hc : s.client x = some c)
    (hc' : s'.client x = some c') : c'.Inited ↔ RunsInit x (s, .recv x env) ∨ c.Inited := by
  obtain ⟨d, d', m, queue, r, err, hgoes, hr, hq, hm, rfl, -, -⟩ := goes_recv h
  rw [hgoes.client, Option.some_inj] at hc
  rw [hgoes.self, Option.some_inj] at hc'
  subst hc hc'
  have hid : d.dev.vmId = d.id := (hok.client hgoes.client).vmId hr
  have hiff := connected_own_iff he hm
  rw [runsInit_iff hgoes.client hq]
  unfold Client.Inited
  show Connected r.dev d.id ↔ _ ∨ Connected d.dev d.id
  rw [← hid]
  exact hiff

/-- **The second machine announces its id**: it has learnt the id of the first one, which has an
    event pending. -/
theorem told_init (hok : s.Ok n) (han : s.Announced) (h : NetStep n s (.recv .vm2 env) s')
    (hb : ∀ c₁ ∈ s.client .vm1, ∀ c₂ ∈ s.client .vm2, c₂.Behind c₁.id)
    (hi : RunsInit .vm2 (s, .recv .vm2 env)) : s'.Told := by
  intro c₁ hc₁ c₂ hc₂ hi₁ hi₂
  have hok' := ok_step hok h
  obtain ⟨c, c', m, queue, r, err, hgoes, hr, hq, hm, rfl, -, hpend⟩ := goes_recv h
  have hc₂' : s'.client .vm2 = some c₂ := hc₂
  rw [hgoes.self, Option.some_inj] at hc₂'
  subst hc₂'
  have hc₁' : s.client .vm1 = some c₁ := by
    rw [← hgoes.of_ne (by decide)]
    exact hc₁
  have hmax := (hok.client hc₁').max
  -- the first machine's connects are in the table
  have hbehind := behind_recv hr hq hm (hb c₁ hc₁' c hgoes.client)
  have hfd : r.dev.notifier c₁.id eventfdVmId = .ok (some ⟨c₁.id, eventfdVmId⟩) :=
    hbehind.notifier (hok'.client hc₂) (hok'.feed hc₂ hc₁) hi₂
  -- what it reads is the first machine's id
  have hid : (c.ctx s.shm).peerId = c₁.id := by
    show (s.shm.vm .vm1).id.toInt = c₁.id
    rw [han.blockId hc₁' hi₁, toInt_ofInt hmax]
  obtain ⟨-, -, hlearns, -⟩ := processMsg_spec hm
  rcases hlearns with ⟨-, hann⟩ | ⟨hn, -⟩
  · refine ⟨?_, Or.inr ?_⟩
    · show r.dev.otherVmId = c₁.id
      rw [hann.otherVmId, if_pos rfl, hid]
    · have hsig : r.out.filterMap Effect.signal? = [((c₁.id : ℤ), eventfdVmId)] := by
        have hsig' := hann.signals
        rw [if_pos rfl, hid] at hsig'
        exact hsig'
      have hset : deliver r.dev s.pending (.eventSet c₁.id eventfdVmId) =
          .ok (update s.pending ⟨c₁.id, eventfdVmId⟩ true) := by
        simp only [deliver, hfd]
        rfl
      rw [foldlM_deliver, hsig, List.foldlM_cons, hset] at hpend
      obtain ⟨p, h1, h2⟩ := bind_ok.1 hpend
      cases h1
      rw [← Except.ok.inj h2, Function.update_self]
  · exact absurd ((runsInit_iff hgoes.client hq).1 hi) hn

/-- Other messages teach nothing. -/
theorem told_recv (hok : s.Ok n) (he : env.msiViaIrqfd = false)
    (h : NetStep n s (.recv x env) s') (hn : ¬ RunsInit x (s, .recv x env)) (ht : s.Told) :
    s'.Told := by
  obtain ⟨c, c', m, queue, r, err, hgoes, hr, hq, hm, hc', -, hpend⟩ := goes_recv h
  obtain ⟨-, -, hlearns, -⟩ := processMsg_spec hm
  rcases hlearns with ⟨hi, -⟩ | ⟨-, hsil⟩
  · exact absurd ((runsInit_iff hgoes.client hq).2 hi) hn
  have hsig : r.out.filterMap Effect.signal? = [] := hsil.signals
  rw [foldlM_deliver, hsig] at hpend
  have hpend' : s'.pending = s.pending := (Except.ok.inj hpend).symm
  -- an announced device had announced its id before, and knows what it knew
  have hold : ∀ {y : Vm} {d : Client y}, s'.client y = some d → d.Inited →
      ∃ d₀, s.client y = some d₀ ∧ d₀.id = d.id ∧ d₀.dev.otherVmId = d.dev.otherVmId ∧
        d₀.Inited := by
    intro y d hd hi
    rcases eq_or_ne y x with rfl | hy
    · rcases (inited_recv hok he h hgoes.client hd).1 hi with hrun | hi₀
      · exact absurd hrun hn
      · rw [hgoes.self, Option.some_inj] at hd
        subst hd
        rw [hc'] at *
        exact ⟨c, hgoes.client, rfl, hsil.otherVmId.symm, hi₀⟩
    · rw [hgoes.of_ne hy] at hd
      exact ⟨d, hd, rfl, rfl, hi⟩
  intro c₁ hc₁ c₂ hc₂ hi₁ hi₂
  obtain ⟨d₁, hd₁, hid₁, ho₁, hi₁⟩ := hold hc₁ hi₁
  obtain ⟨d₂, hd₂, hid₂, ho₂, hi₂⟩ := hold hc₂ hi₂
  rw [← hid₁, ← hid₂, ← ho₁, ← ho₂, hpend']
  exact ht d₁ hd₁ d₂ hd₂ hi₁ hi₂

/-- The first machine looks at one of its notifiers. -/
theorem told_notify_vm1 {vector : ℕ} (hok : s.Ok n) (han : s.Announced)
    (h : NetStep n s (.notify .vm1 vector) s') (ht : s.Told) : s'.Told := by
  intro c₁ hc₁ c₂ hc₂ hi₁ hi₂
  obtain ⟨c, c', fd, hgoes, -, hslot, -, hpend, rfl⟩ := goes_notify hok h
  have hc₁' : s'.client .vm1 = some c₁ := hc₁
  rw [hgoes.self, Option.some_inj] at hc₁'
  subst hc₁'
  have hc₂' : s.client .vm2 = some c₂ := by
    rw [← hgoes.of_ne (by decide)]
    exact hc₂
  obtain ⟨hother, hknow⟩ := ht c hgoes.client c₂ hc₂' hi₁ hi₂
  refine ⟨hother, ?_⟩
  dsimp only
  by_cases hev : fd.any s.pending = true ∧ vector = eventfdVmId
  · left
    rw [if_pos hev]
    show (s.shm.vm .vm2).id.toInt = c₂.id
    rw [han.blockId hc₂' hi₂, toInt_ofInt (hok.client hc₂').max]
  · rw [if_neg hev]
    refine hknow.imp id fun hp => ?_
    rw [hpend, Net.testAndClear_of_notMem]
    · exact hp
    · -- this event is not the one that was taken
      intro hmem
      obtain rfl := (Fd.mk.inj (hslot _ hmem)).2
      obtain rfl : fd = some _ := hmem
      exact hev ⟨hp, rfl⟩

theorem told_notify_vm2 {vector : ℕ} (hok : s.Ok n) (han : s.Announced)
    (h : NetStep n s (.notify .vm2 vector) s') (ht : s.Told) : s'.Told := by
  intro c₁ hc₁ c₂ hc₂ hi₁ hi₂
  obtain ⟨c, c', fd, hgoes, -, hslot, -, hpend, rfl⟩ := goes_notify hok h
  have hc₂' : s'.client .vm2 = some c₂ := hc₂
  rw [hgoes.self, Option.some_inj] at hc₂'
  subst hc₂'
  have hc₁' : s.client .vm1 = some c₁ := by
    rw [← hgoes.of_ne (by decide)]
    exact hc₁
  obtain ⟨hother, hknow⟩ := ht c₁ hc₁' c hgoes.client hi₁ hi₂
  refine ⟨?_, hknow.imp id fun hp => ?_⟩
  · dsimp only
    split_ifs
    · show (s.shm.vm .vm1).id.toInt = c₁.id
      rw [han.blockId hc₁' hi₁, toInt_ofInt (hok.client hc₁').max]
    · exact hother
  · rw [hpend, Net.testAndClear_of_notMem]
    · exact hp
    · intro hmem
      exact hok.distinct hc₁' hgoes.client (by decide) (Fd.mk.inj (hslot _ hmem)).1

end

/-! ## Whole runs -/

section
variable {n : ℕ} {s s' : Net} {x : Vm} {a : NetAct} {t : List (Net × NetAct)} {env : Env}

/-- Only a message makes a device run `init_vm_ids`. -/
theorem RunsInit.recv (h : RunsInit x (s, a)) : ∃ env, a = .recv x env := by
  cases a with
  | recv y env =>
    obtain rfl : y = x := h.1
    exact ⟨env, rfl⟩
  | _ => exact h.elim

theorem not_runsInit {y : Vm} (h : ∀ env, a ≠ .recv y env) : ¬ RunsInit y (s, a) := fun hi =>
  let ⟨env, ha⟩ := hi.recv
  h env ha

/-- A device that did not just join was there before; it has announced its id if it does so now, or
    had done so. -/
theorem client_back (hok : s.Ok n) (he : a.Eventfd) (h : NetStep n s a s') {c : Client x}
    (hc : s'.client x = some c) (hj : ¬ Joins x (s, a)) :
    ∃ d, s.client x = some d ∧ d.id = c.id ∧ (c.Inited ↔ RunsInit x (s, a) ∨ d.Inited) := by
  have hother : ∀ {y : Vm} {d d' : Client y}, s.Goes s' d d' → x ≠ y → (∀ env, a ≠ .recv x env) →
      ∃ d, s.client x = some d ∧ d.id = c.id ∧ (c.Inited ↔ RunsInit x (s, a) ∨ d.Inited) := by
    intro y d d' hgoes hx ha
    rw [hgoes.of_ne hx] at hc
    exact ⟨c, hc, rfl, (or_iff_right (not_runsInit ha)).symm⟩
  cases a with
  | join y id =>
    rcases client_join h hc with ⟨hx, -⟩ | ⟨-, d, hd, rfl⟩
    · exact absurd hx.symm hj
    · exact ⟨d, hd, rfl, (or_iff_right (not_runsInit (by nofun))).symm⟩
  | leave y =>
    obtain ⟨-, -, d, -, hd, rfl⟩ := client_leave h hc
    exact ⟨d, hd, rfl, (or_iff_right (not_runsInit (by nofun))).symm⟩
  | realize y env =>
    obtain ⟨d, d', hgoes, hr, -, -, hid, -, hpeer, -⟩ := goes_realize hok h
    rcases eq_or_ne x y with rfl | hx
    · rw [hgoes.self, Option.some_inj] at hc
      subst hc
      refine ⟨d, hgoes.client, hgoes.id.symm, ?_⟩
      rw [or_iff_right (not_runsInit (by nofun))]
      unfold Client.Inited Connected
      rw [IVShmemState.nbEventfds_natCast, IVShmemState.nbEventfds_natCast, (hpeer _).1,
        (hpeer _).2]
    · exact hother hgoes hx nofun
  | recv y env =>
    obtain ⟨d, d', -, -, -, -, hgoes, -⟩ := goes_recv h
    rcases eq_or_ne x y with rfl | hx
    · refine ⟨d, hgoes.client, ?_, inited_recv hok he h hgoes.client hc⟩
      rw [hgoes.self, Option.some_inj] at hc
      rw [← hc, hgoes.id]
    · exact hother hgoes hx fun _ ha => hx (NetAct.recv.inj ha).1.symm
  | notify y vector =>
    obtain ⟨d, d', fd, hgoes, -, -, -, -, rfl⟩ := goes_notify hok h
    rcases eq_or_ne x y with rfl | hx
    · rw [hgoes.self, Option.some_inj] at hc
      subst hc
      exact ⟨d, hgoes.client, rfl, (or_iff_right (not_runsInit (by nofun))).symm⟩
    · exact hother hgoes hx nofun

/-- A device that has just joined or been realized has not announced its id. -/
theorem not_inited_join {id : ℕ} (hok : s.Ok n) (h : NetStep n s (.join x id) s') {c : Client x}
    (hc : s'.client x = some c) : ¬ c.Inited := by
  rcases client_join h hc with ⟨hx, rfl⟩ | ⟨hx, -⟩
  · exact ((ok_join hok h).client hc).not_inited rfl
  · exact absurd hx (Vm.ne_other x)

theorem not_inited_realize (hok : s.Ok n) (h : NetStep n s (.realize x env) s') {c : Client x}
    (hc : s'.client x = some c) : ¬ c.Inited := by
  obtain ⟨d, d', hgoes, -, -, -, -, -, hpeer, -⟩ := goes_realize hok h
  rw [hgoes.self, Option.some_inj] at hc
  subst hc
  unfold Client.Inited Connected
  rw [IVShmemState.nbEventfds_natCast, (hpeer _).1]
  exact Nat.not_lt_zero _

/-- If one of the two has not announced its id, there is nothing to know. -/
theorem told_of_not_inited (h : ∀ c ∈ s.client x, ¬ c.Inited) : s.Told := by
  intro c₁ hc₁ c₂ hc₂ hi₁ hi₂
  cases x with
  | vm1 => exact absurd hi₁ (h c₁ hc₁)
  | vm2 => exact absurd hi₂ (h c₂ hc₂)

/-- What a run has led to. -/
structure Follows (t : List (Net × NetAct)) (s : Net) : Prop where
  inited : ∀ x, ∀ c ∈ s.client x, HasInit x t → c.Inited
  behind : Since (Joins .vm2) (Joins .vm1) t →
    ∀ c₁ ∈ s.client .vm1, ∀ c₂ ∈ s.client .vm2, c₂.Behind c₁.id
  told : Since (Joins .vm2) (Joins .vm1) t → Since (RunsInit .vm2) (RunsInit .vm1) t → s.Told

theorem inited_step (hok : s.Ok n) (he : a.Eventfd) (hf : Follows t s) (h : NetStep n s a s') :
    ∀ x, ∀ c ∈ s'.client x, HasInit x (t ++ [(s, a)]) → c.Inited := by
  intro x c hc hi
  rcases since_snoc.1 hi with hrun | ⟨hi, hj⟩
  · have hj : ¬ Joins x (s, a) := by
      obtain ⟨env, rfl⟩ := hrun.recv
      exact id
    obtain ⟨d, -, -, hiff⟩ := client_back hok he h hc hj
    exact hiff.2 (Or.inl hrun)
  · obtain ⟨d, hd, -, hiff⟩ := client_back hok he h hc hj
    exact hiff.2 (Or.inr (hf.inited x d hd hi))

theorem behind_goes {c c' : Client x} (hgoes : s.Goes s' c c')
    (hkeep : ∀ p, c.Behind p → c'.Behind p)
    (hb : ∀ c₁ ∈ s.client .vm1, ∀ c₂ ∈ s.client .vm2, c₂.Behind c₁.id) :
    ∀ c₁ ∈ s'.client .vm1, ∀ c₂ ∈ s'.client .vm2, c₂.Behind c₁.id := by
  intro c₁ hc₁ c₂ hc₂
  obtain ⟨d₁, hd₁, hid⟩ := hgoes.back hc₁
  rw [← hid]
  rcases eq_or_ne Vm.vm2 x with rfl | hx
  · have hc₂' : s'.client .vm2 = some c₂ := hc₂
    rw [hgoes.self, Option.some_inj] at hc₂'
    subst hc₂'
    exact hkeep _ (hb d₁ hd₁ c hgoes.client)
  · have hc₂' : s'.client .vm2 = some c₂ := hc₂
    rw [hgoes.of_ne hx] at hc₂'
    exact hb d₁ hd₁ c₂ hc₂'

theorem behind_step (hok : s.Ok n) (hf : Follows t s) (h : NetStep n s a s')
    (hj : Since (Joins .vm2) (Joins .vm1) (t ++ [(s, a)])) :
    ∀ c₁ ∈ s'.client .vm1, ∀ c₂ ∈ s'.client .vm2, c₂.Behind c₁.id := by
  rw [since_snoc] at hj
  cases a with
  | join x id =>
    intro c₁ hc₁ c₂ hc₂
    cases x with
    | vm1 =>
      rcases hj with hj | ⟨-, hj⟩
      · exact absurd hj nofun
      · exact absurd rfl hj
    | vm2 => exact behind_join hok h hc₂ hc₁
  | leave x =>
    intro c₁ hc₁ c₂ hc₂
    obtain ⟨hx₁, -⟩ := client_leave h hc₁
    obtain ⟨hx₂, -⟩ := client_leave h hc₂
    exact absurd (hx₁.trans hx₂.symm) nofun
  | realize x env =>
    have hb := hf.behind (hj.resolve_left id).1
    obtain ⟨c, c', hgoes, -, -, hback, -, -, hpeer, -⟩ := goes_realize hok h
    refine behind_goes hgoes (fun p hb => ⟨?_, ?_⟩) hb
    · rw [hback, hgoes.id]
      exact hb.order
    · rw [(hpeer _).1]
      exact fun h0 => absurd h0 (Nat.lt_irrefl 0)
  | recv x env =>
    have hb := hf.behind (hj.resolve_left id).1
    obtain ⟨c, c', m, queue, r, err, hgoes, hr, hq, hm, rfl, -⟩ := goes_recv h
    exact behind_goes hgoes (fun p hb => behind_recv hr hq hm hb) hb
  | notify x vector =>
    have hb := hf.behind (hj.resolve_left id).1
    obtain ⟨c, c', fd, hgoes, -, -, -, -, rfl⟩ := goes_notify hok h
    exact behind_goes hgoes (fun p hb => ⟨hb.order, hb.done⟩) hb

theorem told_step (hok : s.Ok n) (han : s.Announced) (he : a.Eventfd) (hf : Follows t s)
    (h : NetStep n s a s') (hj : Since (Joins .vm2) (Joins .vm1) (t ++ [(s, a)]))
    (hi : Since (RunsInit .vm2) (RunsInit .vm1) (t ++ [(s, a)])) : s'.Told := by
  rw [since_snoc] at hj hi
  cases a with
  | join x id => exact told_of_not_inited fun c hc => not_inited_join hok h hc
  | leave x =>
    intro c₁ hc₁ c₂ hc₂
    obtain ⟨hx₁, -⟩ := client_leave h hc₁
    obtain ⟨hx₂, -⟩ := client_leave h hc₂
    exact absurd (hx₁.trans hx₂.symm) nofun
  | realize x env => exact told_of_not_inited fun c hc => not_inited_realize hok h hc
  | recv x env =>
    have hjoined := (hj.resolve_left id).1
    by_cases hrun : RunsInit x (s, .recv x env)
    · cases x with
      | vm1 =>
        rcases hi with hi | ⟨-, hi⟩
        · exact absurd hi (not_runsInit (by nofun))
        · exact absurd hrun hi
      | vm2 => exact told_init hok han h (hf.behind hjoined) hrun
    · refine told_recv hok he h hrun (hf.told hjoined ?_)
      rcases hi with hi | ⟨hi, -⟩
      · obtain ⟨env', ha⟩ := hi.recv
        obtain ⟨rfl, rfl⟩ := NetAct.recv.inj ha
        exact absurd hi hrun
      · exact hi
  | notify x vector =>
    have ht := hf.told (hj.resolve_left id).1 (hi.resolve_left (not_runsInit (by nofun))).1
    cases x with
    | vm1 => exact told_notify_vm1 hok han h ht
    | vm2 => exact told_notify_vm2 hok han h ht

/-- **One step** of the history. -/
theorem follows_step (hok : s.Ok n) (han : s.Announced) (he : a.Eventfd) (hf : Follows t s)
    (h : NetStep n s a s') : Follows (t ++ [(s, a)]) s' :=
  ⟨inited_step hok he hf h, behind_step hok hf h, told_step hok han he hf h⟩

theorem follows_start (shm : IdtIvshmemShmStorage) : Follows [] (Net.start shm) :=
  ⟨fun _ _ _ hi => absurd hi since_nil, fun hj => absurd hj since_nil, fun hj => absurd hj since_nil⟩

theorem follows_run {shm : IdtIvshmemShmStorage} (h : Run (NetStep n) (Net.start shm) t s)
    (he : ∀ e ∈ t, e.2.Eventfd) : Follows t s := by
  induction h with
  | nil => exact follows_start shm
  | @snoc t s a s' hrun hst ih =>
    have he' : ∀ e ∈ t, e.2.Eventfd := fun e hm => he e (by simp [hm])
    exact follows_step (ok_run hrun) (announced_run hrun he') (he (s, a) (by simp)) (ih he') hst

/-- **The devices agree on each other's id**, if the first machine's device joined, and announced
    its id, before the second one's did. -/
theorem ids_agree {shm : IdtIvshmemShmStorage} (h : Run (NetStep n) (Net.start shm) t s)
    (he : ∀ e ∈ t, e.2.Eventfd) (hinit : ∀ x, HasInit x t) (hquiet : s.Quiet)
    (hjoin : Since (Joins .vm2) (Joins .vm1) t) (hrun : Since (RunsInit .vm2) (RunsInit .vm1) t) :
    s.Agree := by
  have hok := ok_run h
  have hf := follows_run h he
  intro c₁ hc₁ c₂ hc₂
  have hi₁ := hf.inited .vm1 c₁ hc₁ (hinit .vm1)
  have hi₂ := hf.inited .vm2 c₂ hc₂ (hinit .vm2)
  have hv₁ := (hok.client hc₁).vmId ((hok.client hc₁).realized hi₁)
  have hv₂ := (hok.client hc₂).vmId ((hok.client hc₂).realized hi₂)
  obtain ⟨hother, hknow⟩ := hf.told hjoin hrun c₁ hc₁ c₂ hc₂ hi₁ hi₂
  rw [hv₁, hv₂]
  refine ⟨hknow.resolve_right ?_, hother⟩
  rw [hquiet .vm1 c₁ hc₁]
  nofun

end

/-! ## The two orders -/

/-- The actions of a device that joins: it is realized, and handles `k` messages. -/
def comesUp (x : Vm) (id k : ℕ) : List NetAct :=
  .join x id :: .realize x eventfdEnv :: List.replicate k (.recv x eventfdEnv)

/-- The first machine comes up and then the second one, whose signal the first one handles. -/
def inOrder : List NetAct := comesUp .vm1 0 2 ++ comesUp .vm2 1 4 ++ [.notify .vm1 eventfdVmId]

theorem ids_agree_in_order : ∃ s, Run (NetStep 2) (Net.start default)
    (trace (Net.next 2) (Net.start default) inOrder) s ∧
      (s.client .vm1).isSome ∧ (s.client .vm2).isSome ∧ s.Agree := by
  obtain ⟨s, hs, h₁, h₂, hquiet⟩ : ∃ s, exec (Net.next 2) (Net.start default) inOrder = .ok s ∧
      (s.client .vm1).isSome = true ∧ (s.client .vm2).isSome = true ∧ s.Quiet :=
    ⟨_, rfl, by decide, by decide, by decide⟩
  have hrun : Run (NetStep 2) (Net.start default) _ s := Run.of_exec hs
  exact ⟨s, hrun, h₁, h₂, ids_agree hrun (by decide) (Vm.forall_iff.2 (by decide)) hquiet
    (by decide) (by decide)⟩

/-- The second machine comes up, and handles its own event; then the first one comes up. -/
def secondFirst : List NetAct :=
  comesUp .vm2 0 2 ++ [.notify .vm2 eventfdVmId] ++ comesUp .vm1 1 4 ++
    [.recv .vm2 eventfdEnv, .recv .vm2 eventfdEnv]

/-- **If the second machine is first, nobody learns anything**: it holds its own id, and the first
    one none. -/
theorem second_machine_first : ¬ ∀ (n : ℕ) (shm : IdtIvshmemShmStorage) (t : List (Net × NetAct))
    (s : Net), 2 ≤ n → Run (NetStep n) (Net.start shm) t s → (∀ e ∈ t, e.2.Eventfd) →
      (∀ x, HasInit x t) → s.Quiet → s.Agree := by
  intro hall
  obtain ⟨s, hs, hquiet, hagree⟩ : ∃ s, exec (Net.next 2) (Net.start default) secondFirst = .ok s ∧
      s.Quiet ∧ ¬ s.Agree := ⟨_, rfl, by decide, by decide⟩
  have hrun : Run (NetStep 2) (Net.start default) _ s := Run.of_exec hs
  exact hagree (hall 2 default _ s le_rfl hrun (by decide) (Vm.forall_iff.2 (by decide)) hquiet)

/-- The second machine joins later, but announces its id first: it reads an id that is not yet
    there. -/
def readsEarly : List NetAct :=
  [.join .vm1 5, .realize .vm1 eventfdEnv] ++ comesUp .vm2 1 4 ++
    [.recv .vm1 eventfdEnv, .recv .vm1 eventfdEnv]

/-- The second machine joins first, but announces its id later: it signals a notifier that is not
    yet there. -/
def signalsUnconnected : List NetAct :=
  [.join .vm2 0, .realize .vm2 eventfdEnv] ++ comesUp .vm1 1 4 ++
    [.recv .vm2 eventfdEnv, .recv .vm2 eventfdEnv]

/-- Neither order is enough without the other. -/
theorem either_order_short :
    (∃ t s, Run (NetStep 2) (Net.start default) t s ∧ (∀ e ∈ t, e.2.Eventfd) ∧
      (∀ x, HasInit x t) ∧ s.Quiet ∧ ¬ s.Agree ∧ Since (Joins .vm2) (Joins .vm1) t) ∧
    ∃ t s, Run (NetStep 2) (Net.start default) t s ∧ (∀ e ∈ t, e.2.Eventfd) ∧
      (∀ x, HasInit x t) ∧ s.Quiet ∧ ¬ s.Agree ∧ Since (RunsInit .vm2) (RunsInit .vm1) t := by
  constructor
  · obtain ⟨s, hs, hquiet, hagree⟩ : ∃ s, exec (Net.next 2) (Net.start default) readsEarly = .ok s ∧
        s.Quiet ∧ ¬ s.Agree := ⟨_, rfl, by decide, by decide⟩
    exact ⟨_, s, Run.of_exec hs, by decide, Vm.forall_iff.2 (by decide), hquiet, hagree,
      by decide⟩
  · obtain ⟨s, hs, hquiet, hagree⟩ : ∃ s,
        exec (Net.next 2) (Net.start default) signalsUnconnected = .ok s ∧ s.Quiet ∧ ¬ s.Agree :=
      ⟨_, rfl, by decide, by decide⟩
    exact ⟨_, s, Run.of_exec hs, by decide, Vm.forall_iff.2 (by decide), hquiet, hagree,
      by decide⟩

end IdtNtb
