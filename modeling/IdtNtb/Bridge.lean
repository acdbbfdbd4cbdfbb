/-
  The whole bridge: the server, the devices on it, and the guests that use them.

  `Net` has the server and the devices but no guest, and `Sys` two started
  devices but no server.  A `Bridge` is both: devices join, are realized, handle
  their messages and events, and leave, while the guests place the BARs, access
  BAR 0 and the windows.

  * `Bridge.sys` is the view in which an access of a guest is a step of `Sys`
    (`bridge_access`), whatever the other machine is doing;
  * to the server and the devices an access is a `Tuning`: it leaves the tables,
    the queues and the ids alone, as long as it stays inside the peer's BAR
    entries and memory file (`Inbounds`), where it touches nothing else that the
    process has mapped (`Inbounds.mapped`);
  * so `Net.Ok` holds in every state that the bridge reaches (`bridge_ok`), and in
    eventfd mode (`Tame`) what `Follows` from the messages (`bridge_follows`).

  In irqfd mode the events are taken by KVM, which is no part of the bridge, nor
  is a guest that enables MSI-X or resets its device (see `Irqfd`): whatever is
  said of events is said of eventfd mode.
-/
import IdtNtb.Interrupts
import IdtNtb.Handshake
import IdtNtb.Mapping
import IdtNtb.Signals

namespace IdtNtb

open Function (update)
open Runs

/-! ## The bridge -/

structure Bridge where
  net : Net
  /-- The memory files of the machines. -/
  ram : Vm → Ram

inductive BridgeAct where
  | net (a : NetAct)
  /-- The guest of `x` programs its BARs, and the PCI core maps the windows there. -/
  | place (x : Vm) (bars : Fin 6 → BusAddr)
  /-- A guest accesses BAR 0 or a window. -/
  | access (a : Act)

namespace Bridge

/-- The two devices, with an untouched one in the place of a device that is not there. -/
def sys (n : ℕ) (s : Bridge) : Sys where
  shm := s.net.shm
  dev x := ((s.net.client x).map Client.dev).getD (.init x n (fun _ => default) 0)
  pending := s.net.pending
  ram := s.ram

/-- Take over what a handler left. -/
def resume (s : Bridge) (u : Sys) : Bridge where
  net := { s.net with
    shm := u.shm
    client := fun x => (s.net.client x).map fun c => { c with dev := u.dev x }
    pending := u.pending }
  ram := u.ram

/-- One action; the server and the devices have `n` vectors.  A guest sees its device once it is
    realized. -/
def next (n : ℕ) (s : Bridge) : BridgeAct → Except Halt Bridge
  | .net a => do
    let net ← s.net.next n a
    pure { s with net := net }
  | .place x bars =>
    match s.net.client x with
    | some c =>
      if c.dev.realized then
        .ok (s.resume { s.sys n with
          dev := update (s.sys n).dev x { (s.sys n).dev x with bars := bars } })
      else .error .disabled
    | none => .error .disabled
  | .access a =>
    match a.guest with
    | some x =>
      match s.net.client x with
      | some c =>
        if c.dev.realized then do
          let u ← ((s.sys n).next a).mapError Halt.fault
          pure (s.resume u)
        else .error .disabled
      | none => .error .disabled
    | none => .error .disabled

/-- Nobody has joined yet; the memory and the files may hold anything. -/
def start (shm : IdtIvshmemShmStorage) (ram : Vm → Ram) : Bridge := ⟨.start shm, ram⟩

end Bridge

/-- One step of the bridge. -/
def BridgeStep (n : ℕ) (s : Bridge) (a : BridgeAct) (s' : Bridge) : Prop := s.next n a = .ok s'

/-- A guest's access stays inside what it is meant for: the out-of-spec selector is below 6 where it
    is used, and a window access is refused or inside the peer's memory file. -/
structure Inbounds (n : ℕ) (e : Bridge × BridgeAct) : Prop where
  selector : ∀ a, e.2 = .access a → (e.1.sys n).SelFor a
  memory : ∀ a, e.2 = .access a → (e.1.sys n).InMemory a

/-- The access stays inside, and the devices are in eventfd mode. -/
structure Tame (n : ℕ) (e : Bridge × BridgeAct) : Prop extends Inbounds n e where
  eventfd : ∀ b, e.2 = .net b → b.Eventfd

/-- What is not an access is in bounds. -/
theorem inbounds_of_not_access {n : ℕ} {e : Bridge × BridgeAct} (h : ∀ a, e.2 ≠ .access a) :
    Inbounds n e :=
  ⟨fun a ha => absurd ha (h a), fun a ha => absurd ha (h a)⟩

namespace Bridge

/-- The action touches nothing but mapped memory. -/
def Mapped (n behind : ℕ) (s : Bridge) : BridgeAct → Prop
  | .access a => (s.sys n).Mapped behind a
  | _ => True

instance {n behind : ℕ} {s : Bridge} : (a : BridgeAct) → Decidable (s.Mapped n behind a)
  | .access a => inferInstanceAs (Decidable ((s.sys n).Mapped behind a))
  | .net _ | .place _ _ => isTrue trivial

/-- One action, in processes that have mapped the files and the shared memory, and nothing behind
    them. -/
def nextMapped (n behind : ℕ) (s : Bridge) (a : BridgeAct) : Except Halt Bridge := do
  let s' ← s.next n a
  if s.Mapped n behind a then .ok s' else .error (.fault .badPointer)

variable {n behind : ℕ} {s s' : Bridge} {a : BridgeAct}

theorem nextMapped_of_mapped (h : s.Mapped n behind a) : s.nextMapped n behind a = s.next n a := by
  unfold nextMapped
  cases s.next n a with
  | error e => rfl
  | ok s' => exact if_pos h

end Bridge

instance (n : ℕ) : (e : Bridge × BridgeAct) → Decidable (Inbounds n e)
  | (s, .access a) => decidable_of_iff ((s.sys n).SelFor a ∧ (s.sys n).InMemory a)
      ⟨fun h => ⟨fun _ ha => BridgeAct.access.inj ha ▸ h.1,
        fun _ ha => BridgeAct.access.inj ha ▸ h.2⟩,
        fun h => ⟨h.selector a rfl, h.memory a rfl⟩⟩
  | (_, .net _) | (_, .place _ _) =>
    isTrue (inbounds_of_not_access fun _ ha => BridgeAct.noConfusion ha)

/-- **An access in bounds** touches nothing but mapped memory, whatever lies behind the
    structure. -/
theorem Inbounds.mapped {n : ℕ} {s : Bridge} {a : BridgeAct} (h : Inbounds n (s, a)) (behind : ℕ) :
    s.Mapped n behind a := by
  cases a with
  | access a => exact ⟨h.memory a rfl, (h.selector a rfl).inShm behind⟩
  | _ => trivial

/-! ## The view of the two devices -/

section
variable {n : ℕ} {s s' : Bridge} {x y : Vm}

theorem Bridge.sys_dev {c : Client x} (hc : s.net.client x = some c) :
    (s.sys n).dev x = c.dev := by
  simp [Bridge.sys, hc]

@[simp] theorem Bridge.sys_shm (s : Bridge) : (s.sys n).shm = s.net.shm := rfl

@[simp] theorem Bridge.sys_pending (s : Bridge) : (s.sys n).pending = s.net.pending := rfl

@[simp] theorem Bridge.sys_ram (s : Bridge) : (s.sys n).ram = s.ram := rfl

/-- What a handler leaves of the two devices is what is viewed afterwards. -/
theorem Bridge.sys_resume {u : Sys} (h : ∀ y, s.net.client y = none → u.dev y = (s.sys n).dev y) :
    (s.resume u).sys n = u := by
  have hdev : ((s.resume u).sys n).dev = u.dev := by
    funext y
    cases hc : s.net.client y with
    | none => rw [h y hc]; simp [Bridge.sys, Bridge.resume, hc]
    | some c => simp [Bridge.sys, Bridge.resume, hc]
  obtain ⟨shm, dev, pending, ram⟩ := u
  exact congrArg (fun d => (⟨shm, d, pending, ram⟩ : Sys)) hdev

/-- **An access of a guest** is a step of the two devices. -/
theorem bridge_access {a : Act} (h : BridgeStep n s (.access a) s') :
    ∃ x c, a.guest = some x ∧ s.net.client x = some c ∧ c.dev.realized = true ∧
      Step (s.sys n) a (s'.sys n) ∧ s' = s.resume (s'.sys n) := by
  unfold BridgeStep Bridge.next at h
  dsimp only at h
  cases hx : a.guest with
  | none => rw [hx] at h; cases h
  | some x =>
    rw [hx] at h
    dsimp only at h
    cases hc : s.net.client x with
    | none => rw [hc] at h; cases h
    | some c =>
      rw [hc] at h
      dsimp only at h
      split_ifs at h with hr
      obtain ⟨u, hu, h⟩ := bind_ok.1 h
      cases h
      have hst : Step (s.sys n) a u := mapError_ok.1 hu
      have hsys : (s.resume u).sys n = u := by
        refine Bridge.sys_resume fun y hy => step_guest_other hx hst ?_
        rintro rfl
        rw [hc] at hy
        cases hy
      exact ⟨x, c, rfl, hc, hr, by rwa [hsys], by rw [hsys]⟩

/-- The BARs of one device are placed. -/
theorem bridge_place {bars : Fin 6 → BusAddr} (h : BridgeStep n s (.place x bars) s') :
    ∃ c, s.net.client x = some c ∧ c.dev.realized = true ∧ s'.ram = s.ram ∧
      s'.net.shm = s.net.shm ∧ s'.net.pending = s.net.pending ∧ s'.net.used = s.net.used ∧
      s'.net.client =
        update s.net.client x (some { c with dev := { c.dev with bars := bars } }) := by
  unfold BridgeStep Bridge.next at h
  dsimp only at h
  cases hc : s.net.client x with
  | none => rw [hc] at h; cases h
  | some c =>
    rw [hc] at h
    dsimp only at h
    split_ifs at h with hr
    cases h
    refine ⟨c, rfl, hr, rfl, rfl, rfl, rfl, ?_⟩
    funext y
    rcases eq_or_ne y x with rfl | hy
    · simp [Bridge.resume, Bridge.sys, hc]
    · simp only [Bridge.resume, Function.update_of_ne hy]
      cases hd : s.net.client y with
      | none => rfl
      | some d => simp [Bridge.sys, hd]

theorem bridge_of_net {a : NetAct} {net : Net} (h : NetStep n s.net a net) :
    BridgeStep n s (.net a) { s with net := net } :=
  bind_ok.2 ⟨net, h, rfl⟩

theorem bridge_net {a : NetAct} (h : BridgeStep n s (.net a) s') :
    NetStep n s.net a s'.net ∧ s'.ram = s.ram := by
  obtain ⟨net, h₁, h⟩ := bind_ok.1 h
  cases h
  exact ⟨h₁, rfl⟩

end

/-! ## What an access means to the server and the devices -/

/-- Of one realized device only the local registers, the mapping of the peer's memory and the
    places of its BARs have changed, and no event was taken back. -/
structure Tuning (s s' : Net) {x : Vm} (c c' : Client x) : Prop where
  goes : s.Goes s' c c'
  realized : c.dev.realized = true
  client : ∃ l m b, c' = { c with dev := { c.dev with lregs := l, peerMem := m, bars := b } }
  id : ∀ y, (s'.shm.vm y).id = (s.shm.vm y).id
  pending : ∀ fd, s.pending fd = true → s'.pending fd = true

section
variable {n : ℕ} {s s' : Bridge} {x y : Vm}

theorem tuning_access {a : Act} (hin : Inbounds n (s, .access a))
    (h : BridgeStep n s (.access a) s') : ∃ x, ∃ c c' : Client x, Tuning s.net s'.net c c' := by
  obtain ⟨x, c, hx, hc, hr, hst, hs'⟩ := bridge_access h
  have hsel : (s.sys n).SelFor a := hin.selector a rfl
  obtain ⟨l, i, m, hdev, hid, -⟩ := step_dev hst x
  have hother : i = c.dev.otherVmId := by
    rw [hid (guest_ne_notify hx x eventfdVmId), Bridge.sys_dev hc]
  have hdev' : (s'.sys n).dev x = { c.dev with lregs := l, peerMem := m } := by
    rw [hdev, Bridge.sys_dev hc, hother]
  refine ⟨x, c, { c with dev := (s'.sys n).dev x }, ⟨⟨hc, ?_, ?_, rfl⟩, hr, ?_, ?_, ?_⟩⟩
  · have hclient := congrArg (fun s => s.net.client) hs'
    refine hclient.trans ?_
    funext y
    rcases eq_or_ne y x with rfl | hy
    · simp [Bridge.resume, hc]
    · rw [Function.update_of_ne hy]
      cases hd : s.net.client y with
      | none => simp [Bridge.resume, hd]
      | some d =>
        have hsame := step_guest_other hx hst hy
        rw [Bridge.sys_dev hd] at hsame
        simp [Bridge.resume, hd, hsame]
  · rw [hs']
    rfl
  · exact ⟨l, m, c.dev.bars, by rw [hdev']⟩
  · exact step_id hsel hst
  · intro fd hp
    have hp' : (s.sys n).pending fd = true := hp
    exact step_guest_pending hx hst hp'

theorem tuning_place {bars : Fin 6 → BusAddr} (h : BridgeStep n s (.place x bars) s') :
    ∃ c c' : Client x, Tuning s.net s'.net c c' := by
  obtain ⟨c, hc, hr, -, hshm, hpend, hused, hclient⟩ := bridge_place h
  refine ⟨c, _, ⟨hc, hclient, hused, rfl⟩, hr, ⟨c.dev.lregs, c.dev.peerMem, bars, rfl⟩, ?_, ?_⟩
  · rw [hshm]
    exact fun _ => rfl
  · rw [hpend]
    exact fun _ hp => hp

end

/-! ## What holds in every state -/

section
variable {n : ℕ} {s s' : Net} {x : Vm} {c c' : Client x}

/-- A tuned device is the same to the server. -/
theorem Tuning.dev (h : Tuning s s' c c') : c'.dev.peers = c.dev.peers ∧
    c'.dev.vectors = c.dev.vectors ∧ c'.dev.realized = c.dev.realized ∧
    c'.dev.vmId = c.dev.vmId ∧ c'.dev.otherVmId = c.dev.otherVmId ∧
    c'.dev.msiVectors = c.dev.msiVectors ∧ c'.queue = c.queue := by
  obtain ⟨l, m, b, rfl⟩ := h.client
  exact ⟨rfl, rfl, rfl, rfl, rfl, rfl, rfl⟩

theorem Tuning.peer (h : Tuning s s' c c') (i : ℕ) : c'.dev.peer i = c.dev.peer i := by
  obtain ⟨l, m, b, rfl⟩ := h.client
  rfl

theorem Tuning.backlog (h : Tuning s s' c c') : c'.backlog = c.backlog := by
  obtain ⟨l, m, b, rfl⟩ := h.client
  rfl

theorem Tuning.inited (h : Tuning s s' c c') : c'.Inited ↔ c.Inited := by
  obtain ⟨l, m, b, rfl⟩ := h.client
  exact Iff.rfl

theorem Tuning.ok (h : Tuning s s' c c') (hok : s.Ok n) : s'.Ok n := by
  have hcok := hok.client h.goes.client
  obtain ⟨-, hvec, hreal, hvm, -⟩ := h.dev
  refine hok.go h.goes ?_ ?_
  · refine ⟨?_, ?_, ?_, ?_, hvec.trans hcok.vectors, ?_, ?_, ?_⟩
    · rw [h.goes.id]
      exact hcok.given
    · rw [h.goes.id]
      exact hcok.max
    · rw [hreal, h.realized]
      nofun
    · rw [hreal, hvm, h.goes.id]
      exact hcok.vmId
    · intro i
      rw [h.peer, hvec]
      exact hcok.table i
    · rw [h.backlog]
      exact hcok.queued
    · intro i hi
      rw [h.peer]
      exact hcok.unknown i hi
  · intro p _ hf
    constructor
    · rw [h.backlog, h.peer]
      exact hf.todo
    · intro k fd hk
      rw [h.peer] at hk
      exact hf.slots k fd hk

theorem Tuning.announced (h : Tuning s s' c c') (han : s.Announced) : s'.Announced := by
  refine han.go h.goes ?_ (h.id _)
  rw [h.inited, h.id]
  exact han.blockId h.goes.client

/-- The clients of after a tuning, traced back. -/
theorem Tuning.back (h : Tuning s s' c c') {y : Vm} {d : Client y} (hd : s'.client y = some d) :
    ∃ d₀, s.client y = some d₀ ∧ d₀.id = d.id ∧ d₀.dev.otherVmId = d.dev.otherVmId ∧
      (d₀.Inited ↔ d.Inited) ∧ (∀ p, d₀.Behind p → d.Behind p) := by
  rcases eq_or_ne y x with rfl | hy
  · rw [h.goes.self, Option.some_inj] at hd
    subst hd
    refine ⟨c, h.goes.client, h.goes.id.symm, h.dev.2.2.2.2.1.symm, h.inited.symm, fun p hb => ?_⟩
    constructor
    · rw [h.backlog, h.goes.id]
      exact hb.order
    · rw [h.peer, h.backlog, h.goes.id]
      exact hb.done
  · rw [h.goes.of_ne hy] at hd
    exact ⟨d, hd, rfl, rfl, Iff.rfl, fun _ hb => hb⟩

theorem Tuning.follows (h : Tuning s s' c c') {t : List (Net × NetAct)} (hf : Follows t s) :
    Follows t s' where
  inited y d hd hi := by
    obtain ⟨d₀, hd₀, -, -, hinit, -⟩ := h.back hd
    exact hinit.1 (hf.inited y d₀ hd₀ hi)
  behind hj c₁ hc₁ c₂ hc₂ := by
    obtain ⟨d₁, hd₁, hid, -⟩ := h.back hc₁
    obtain ⟨d₂, hd₂, -, -, -, hb⟩ := h.back hc₂
    rw [← hid]
    exact hb _ (hf.behind hj d₁ hd₁ d₂ hd₂)
  told hj hi c₁ hc₁ c₂ hc₂ h₁ h₂ := by
    obtain ⟨d₁, hd₁, hid₁, ho₁, hi₁, -⟩ := h.back hc₁
    obtain ⟨d₂, hd₂, hid₂, ho₂, hi₂, -⟩ := h.back hc₂
    obtain ⟨hother, hknow⟩ := hf.told hj hi d₁ hd₁ d₂ hd₂ (hi₁.2 h₁) (hi₂.2 h₂)
    rw [← hid₁, ← hid₂, ← ho₁, ← ho₂]
    exact ⟨hother, hknow.imp (fun he => he) (h.pending _)⟩

end

section
variable {n : ℕ} {s s' s₀ : Bridge} {a : BridgeAct} {t : List (Bridge × BridgeAct)}
  {shm : IdtIvshmemShmStorage} {ram : Vm → Ram}

/-- **One step**: the server and the devices do something, or one device is tuned. -/
theorem bridge_cases (hin : Inbounds n (s, a)) (h : BridgeStep n s a s') :
    (∃ b, a = .net b ∧ NetStep n s.net b s'.net) ∨
      ((∀ b, a ≠ .net b) ∧ ∃ x, ∃ c c' : Client x, Tuning s.net s'.net c c') := by
  cases a with
  | net b => exact Or.inl ⟨b, rfl, (bridge_net h).1⟩
  | place x bars =>
    obtain ⟨c, c', ht⟩ := tuning_place h
    exact Or.inr ⟨fun b hb => (by cases hb), x, c, c', ht⟩
  | access b => exact Or.inr ⟨fun b hb => (by cases hb), tuning_access hin h⟩

theorem bridge_ok_step (hin : Inbounds n (s, a)) (hok : s.net.Ok n) (h : BridgeStep n s a s') :
    s'.net.Ok n := by
  rcases bridge_cases hin h with ⟨b, -, hb⟩ | ⟨-, x, c, c', ht⟩
  · exact ok_step hok hb
  · exact ht.ok hok

/-- **The queues and the tables stay together**, whatever the guests do and the calls out of the
    devices answer. -/
theorem bridge_ok (h : Run (BridgeStep n) (.start shm ram) t s) (hin : ∀ e ∈ t, Inbounds n e) :
    s.net.Ok n :=
  h.inv_of (fun s => s.net.Ok n) (Inbounds n) (ok_start n shm)
    (fun _ _ _ hok hin hst => bridge_ok_step hin hok hst) hin

theorem bridge_announced_step (ht : Tame n (s, a)) (hok : s.net.Ok n) (han : s.net.Announced)
    (h : BridgeStep n s a s') : s'.net.Announced := by
  rcases bridge_cases ht.toInbounds h with ⟨b, hb, hst⟩ | ⟨-, x, c, c', htune⟩
  · exact announced_step hok han (ht.eventfd b hb) hst
  · exact htune.announced han

/-- **In eventfd mode** the ids are where the peers look for them. -/
theorem bridge_announced (h : Run (BridgeStep n) (.start shm ram) t s) (ht : ∀ e ∈ t, Tame n e) :
    s.net.Announced := by
  refine (h.inv_of (fun s => s.net.Ok n ∧ s.net.Announced) (Tame n)
    ⟨ok_start n shm, announced_start shm⟩ ?_ ht).2
  rintro s a s' ⟨hok, han⟩ ht hst
  exact ⟨bridge_ok_step ht.toInbounds hok hst, bridge_announced_step ht hok han hst⟩

/-- What the server and the devices have done in a run. -/
def netTrace (t : List (Bridge × BridgeAct)) : List (Net × NetAct) := t.filterMap fun e =>
  match e.2 with
  | .net a => some (e.1.net, a)
  | _ => none

theorem netTrace_net (t : List (Bridge × BridgeAct)) (s : Bridge) (b : NetAct) :
    netTrace (t ++ [(s, .net b)]) = netTrace t ++ [(s.net, b)] := by
  simp [netTrace]

theorem netTrace_of_not_net (t : List (Bridge × BridgeAct)) (ha : ∀ b, a ≠ .net b) :
    netTrace (t ++ [(s, a)]) = netTrace t := by
  cases a with
  | net b => exact absurd rfl (ha b)
  | place x bars => simp [netTrace]
  | access b => simp [netTrace]

/-- **The history of the handshake** is that of the server and the devices alone. -/
theorem bridge_follows (h : Run (BridgeStep n) (.start shm ram) t s)
    (ht : ∀ e ∈ t, Tame n e) : Follows (netTrace t) s.net := by
  induction h with
  | nil => exact follows_start shm
  | @snoc t s a s' hrun hst ih =>
    have ht' : ∀ e ∈ t, Tame n e := fun e he => ht e (by simp [he])
    have hlast : Tame n (s, a) := ht (s, a) (by simp)
    rcases bridge_cases hlast.toInbounds hst with ⟨b, rfl, hb⟩ | ⟨hne, x, c, c', htune⟩
    · rw [netTrace_net]
      exact follows_step (bridge_ok hrun fun e he => (ht' e he).toInbounds)
        (bridge_announced hrun ht') (hlast.eventfd b rfl) (ih ht') hb
    · rw [netTrace_of_not_net t hne]
      exact htune.follows (ih ht')

end

end IdtNtb
