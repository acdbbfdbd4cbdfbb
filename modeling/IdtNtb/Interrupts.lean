/-
  Interrupts of the receiving machine.

  A doorbell or a message that arrives makes the receiver's EVENTFD_INTERRUPT_HOST
  eventfd pending if the masks let it through, and `ivshmem_vector_notify` turns
  a pending event into an MSI.  The eventfd coalesces events but does not drop
  them (`pending_step`), so an arrival that was let through is pending until the
  MSI is raised (`arrival_delivered`).  The masks are only looked at on arrival:
  nothing is caught up when they are cleared (`unmask_no_interrupt`).
-/
import IdtNtb.Messages

namespace IdtNtb

open Runs

variable {s s' s₀ : Sys} {a : Act} {t : List (Sys × Act)} {x y : Vm} {fd : Fd} {n : Fin 4}

/-! ## Live notifiers -/

/-- `fd` is the eventfd that tells `y` of its peer's doorbells and messages: it is in the slot that
    the peer signals, and `y` finds it behind its vector EVENTFD_INTERRUPT_HOST and behind no other
    vector. -/
structure Live (y : Vm) (fd : Fd) (s : Sys) : Prop where
  known : (s.dev y.other).otherVmId ≠ -1
  signalled : (s.dev y.other).notifier (s.dev y.other).otherVmId eventfdInterruptHost = .ok (some fd)
  heard : (s.dev y).notifier (s.dev y).vmId eventfdInterruptHost = .ok (some fd)
  only : ∀ x vector, (s.dev x).notifier (s.dev x).vmId vector = .ok (some fd) →
    x = y ∧ vector = eventfdInterruptHost

/-- Notifiers stay alive while the peer's id is not read again. -/
theorem Live.step (hl : Live y fd s) (h : Step s a s') (ha : a ≠ .notify y.other eventfdVmId) :
    Live y fd s' := by
  have hpeers : ∀ x posn vector,
      (s'.dev x).notifier posn vector = (s.dev x).notifier posn vector := fun x =>
    notifier_congr (step_peers h x).1
  have hid : ∀ x, (s'.dev x).vmId = (s.dev x).vmId := fun x => (step_peers h x).2.1
  have hother := step_otherVmId h ha
  refine ⟨?_, ?_, ?_, ?_⟩
  · rw [hother]
    exact hl.known
  · rw [hpeers, hother]
    exact hl.signalled
  · rw [hpeers, hid]
    exact hl.heard
  · intro x vector hx
    rw [hpeers, hid] at hx
    exact hl.only x vector hx

theorem Live.run (hl : Live y fd s₀) (h : Run Step s₀ t s) (hq : Quiet y.other t) : Live y fd s := by
  refine Run.inv_of (Live y fd) (fun e => e.2 ≠ Act.notify y.other eventfdVmId) hl ?_ h hq
  intro s a s' hi ha hst
  exact hi.step hst ha

/-! ## The eventfd -/

/-- An event is pending on the EVENTFD_INTERRUPT_HOST notifier of `y`. -/
def EventPending (y : Vm) (s : Sys) : Prop :=
  ∃ fd, (s.dev y).notifier (s.dev y).vmId eventfdInterruptHost = .ok (some fd) ∧
    s.pending fd = true

/-- `ivshmem_vector_notify` raises an MSI on `y`. -/
def RaisesMsi (y : Vm) (e : Sys × Act) : Prop :=
  e.2 = .notify y eventfdInterruptHost ∧
    ∃ s' out, e.1.handle e.2 = .ok (s', out) ∧ Effect.msiNotify 0 ∈ out

/-- A notification does not take back another one. -/
theorem deliver_mono {d : IVShmemState x} {p p' : Fd → Bool} {e : Effect}
    (h : deliver d p e = .ok p') (hp : p fd = true) : p' fd = true := by
  cases e with
  | eventSet posn vector =>
    obtain ⟨n, -, h⟩ := bind_ok.1 h
    cases n with
    | none => cases h; exact hp
    | some fd' =>
      cases h
      by_cases hfd : fd = fd'
      · simp [hfd]
      · simp [hfd, hp]
  | _ => cases h; exact hp

theorem deliverAll_mono {d : IVShmemState x} : ∀ {out : List Effect} {p p' : Fd → Bool},
    out.foldlM (deliver d) p = .ok p' → p fd = true → p' fd = true
  | [], p, p', h, hp => by
    cases h
    exact hp
  | e :: out, p, p', h, hp => by
    rw [List.foldlM_cons] at h
    obtain ⟨p₁, h1, h2⟩ := bind_ok.1 h
    exact deliverAll_mono h2 (deliver_mono h1 hp)

theorem finish_mono {c : Ctx x} {out : List Effect} (h : s.finish c = .ok (s', out))
    (hp : s.pending fd = true) : s'.pending fd = true := by
  obtain ⟨pending, h1, rfl, -⟩ := Sys.finish_ok.1 h
  exact deliverAll_mono h1 hp

/-- **A pending event stays pending until it becomes an MSI.** -/
theorem pending_step (hl : Live y fd s) (h : Step s a s') (hp : s.pending fd = true) :
    s'.pending fd = true ∨ RaisesMsi y (s, a) := by
  obtain ⟨out, h⟩ := Sys.next_ok.1 h
  cases a with
  | write x addr v =>
    obtain ⟨c, -, hf⟩ := bind_ok.1 h
    exact Or.inl (finish_mono hf hp)
  | read x addr =>
    cases h
    exact Or.inl hp
  | notify x vector =>
    have hhandle := h
    obtain ⟨n, hn, h⟩ := bind_ok.1 h
    obtain ⟨c, hc, hf⟩ := bind_ok.1 h
    have hslot : (s.dev x).notifier (s.dev x).vmId vector = .ok n := by
      obtain ⟨entry, -, hn⟩ := bind_ok.1 hn
      split_ifs at hn with hp
      exact hn
    by_cases hfd : n = some fd
    · -- the event is taken, so this is the receiver's own interrupt vector
      subst hfd
      obtain ⟨rfl, rfl⟩ := hl.only x vector hslot
      refine Or.inr ⟨rfl, s', out, hhandle, ?_⟩
      obtain ⟨pending, -, -, rfl⟩ := Sys.finish_ok.1 hf
      have hne : ¬ eventfdInterruptHost = eventfdVmId := by decide
      simp only [Option.any_some, hp, ivshmemVectorNotify, if_true, if_neg hne] at hc
      cases hc
      simp [interruptNotify]
    · refine Or.inl (finish_mono hf ?_)
      cases n with
      | none => exact hp
      | some fd' =>
        have hne : fd ≠ fd' := fun he => hfd (he ▸ rfl)
        simpa [Sys.testAndClear, hne] using hp
  | barRead x w addr size map =>
    obtain ⟨r, -, hf⟩ := bind_ok.1 h
    exact Or.inl (finish_mono hf hp)
  | barWrite x w addr value size map =>
    obtain ⟨r, -, hf⟩ := bind_ok.1 h
    exact Or.inl (finish_mono hf hp)

/-! ## Arrivals -/

/-- A doorbell write of the peer, made while the DBELL bit of NTINTMSK is clear. -/
def DoorbellArrives (y : Vm) (e : Sys × Act) : Prop :=
  (∃ v, e.2 = .write y.other ConfigReg.outdbellset.addr v) ∧
    e.1.shm.gregs.ntIntMask.getLsbD 1 = false

/-- A message that is accepted while the MSG bit of NTINTMSK and bit 16+n of the receiver's
    MSGSTSMSK are clear. -/
def MessageArrives (y : Vm) (n : Fin 4) (e : Sys × Act) : Prop :=
  (∃ v, e.2 = .write y.other (ConfigReg.outmsg n).addr v) ∧ ¬ Full y n e.1 ∧
    e.1.shm.gregs.ntIntMask.getLsbD 0 = false ∧
    (e.1.regs y).msgstsMask.getLsbD (16 + n) = false

theorem doorbellArmed_iff : (s.ctx x).DoorbellArmed ↔ s.shm.gregs.ntIntMask.getLsbD 1 = false := by
  have h := Bits.and_mask_ne_zero (w := 32) (n := 32) (k := 1) (by omega) (by omega)
    (~~~s.shm.gregs.ntIntMask)
  simpa [Ctx.DoorbellArmed, ntintstsDbell] using h

theorem messageArmed_iff : (s.ctx y.other).MessageArmed n ↔
    (s.regs y).msgstsMask.getLsbD (16 + n) = false ∧ s.shm.gregs.ntIntMask.getLsbD 0 = false := by
  have h := Bits.and_mask_ne_zero (w := 32) (n := 32) (k := 0) (by omega) (by omega)
    (~~~s.shm.gregs.ntIntMask)
  have hn : 16 + n.val < 64 := by omega
  unfold Ctx.MessageArmed
  rw [fldInmsgsts_ne_zero n.isLt]
  refine and_congr ?_ ?_
  · simp [hn]
  · simpa [ntintstsMsg] using h

/-- A signal to the receiver makes its eventfd pending. -/
theorem signal_pending {c : Ctx y.other} {out : List Effect} (hl : Live y fd s)
    (hdev : c.dev = s.dev y.other)
    (hout : c.out = [.eventSet (s.dev y.other).otherVmId eventfdInterruptHost])
    (h : s.finish c = .ok (s', out)) : s'.pending fd = true := by
  obtain ⟨pending, hp, rfl, -⟩ := Sys.finish_ok.1 h
  rw [hout, List.foldlM_cons] at hp
  obtain ⟨p, h1, h2⟩ := bind_ok.1 hp
  cases h2
  rw [hdev] at h1
  simp only [deliver, hl.signalled] at h1
  cases h1
  simp

/-- **An arrival that the masks let through makes the eventfd pending.** -/
theorem arrival_step (hl : Live y fd s) (h : Step s a s')
    (ha : DoorbellArrives y (s, a) ∨ ∃ n, MessageArrives y n (s, a)) : s'.pending fd = true := by
  obtain ⟨out, h⟩ := Sys.next_ok.1 h
  rcases ha with ⟨⟨v, rfl⟩, harmed⟩ | ⟨n, ⟨v, rfl⟩, hf, hmask, hmsg⟩
  · obtain ⟨c, hc, hfin⟩ := bind_ok.1 h
    have hok : (s.ctx y.other).dev.otherVmId ≠ -1 ∧ (s.ctx y.other).DoorbellArmed :=
      ⟨hl.known, doorbellArmed_iff.2 harmed⟩
    rw [ivshmemIoWrite_addr, writeReg_outdbellset] at hc
    cases hc
    refine signal_pending hl ?_ ?_ hfin
    · simp
    · rw [Ctx.emitIf_out, if_pos hok]
      simp
  · obtain ⟨c, hc, hfin⟩ := bind_ok.1 h
    have hfull : ¬ (s.ctx y.other).PeerFull n := by
      unfold Ctx.PeerFull
      simpa [full_iff] using hf
    have harmed : (s.ctx y.other).MessageArmed n := messageArmed_iff.2 ⟨hmsg, hmask⟩
    simp only [ivshmemIoWrite_addr, writeReg] at hc
    rw [writeOutboundMsg_accepted _ n _ hfull hl.known] at hc
    cases hc
    refine signal_pending hl ?_ ?_ hfin
    · simp
    · rw [Ctx.emitIf_out, if_pos harmed]
      simp

/-- **No arrival that the masks let through is lost**: since then an event is pending, or an MSI was
    raised. -/
theorem arrival_delivered (h : Run Step s₀ t s) (hl : Live y fd s₀) (hq : Quiet y.other t)
    {t₁ t₂ : List (Sys × Act)} {e : Sys × Act} (ht : t = t₁ ++ e :: t₂)
    (ha : DoorbellArrives y e ∨ ∃ n, MessageArrives y n e) :
    EventPending y s ∨ ∃ e' ∈ t₂, RaisesMsi y e' := by
  subst ht
  obtain ⟨h1, s₁, h2, h3⟩ := h.split
  have hq₁ : Quiet y.other t₁ := fun e he => hq e (by simp [he])
  have hq₂ : Quiet y.other t₂ := fun e he => hq e (by simp [he])
  have hl₁ : Live y fd e.1 := hl.run h1 hq₁
  have hl₂ : Live y fd s₁ := hl₁.step h2 (hq e (by simp))
  have hpend : s₁.pending fd = true := arrival_step hl₁ h2 ha
  have hkept : s.pending fd = true ∨ ∃ e' ∈ t₂, RaisesMsi y e' := by
    clear h
    induction h3 with
    | nil => exact Or.inl hpend
    | @snoc t₂ s a s' h3 hst ih =>
      have hq₃ : Quiet y.other t₂ := fun e he => hq₂ e (by simp [he])
      rcases ih (fun e' he => hq e' (by simp at he ⊢; tauto)) hq₃ with hp | ⟨e', he, hm⟩
      · rcases pending_step (hl₂.run h3 hq₃) hst hp with hp | hm
        · exact Or.inl hp
        · exact Or.inr ⟨_, by simp, hm⟩
      · exact Or.inr ⟨e', by simp [he], hm⟩
  rcases hkept with hp | hm
  · refine Or.inl ⟨fd, ?_, hp⟩
    exact (hl₂.run h3 hq₂).heard
  · exact Or.inr hm

theorem started_live : Live .vm2 ⟨1, 1⟩ Sys.started where
  known := by decide
  signalled := rfl
  heard := rfl
  only x vector h := by
    cases x with
    | vm1 =>
      rcases vector with _ | _ | k
      · exact absurd h (by decide)
      · exact absurd h (by decide)
      · cases h
    | vm2 =>
      rcases vector with _ | _ | k
      · exact absurd h (by decide)
      · exact ⟨rfl, rfl⟩
      · cases h

/-- Unmask, ring, and let the second machine look at its notifier. -/
def ringUnmasked : List Act :=
  [.write .vm1 ConfigReg.ntintmsk.addr 0, .write .vm1 ConfigReg.outdbellset.addr 1,
    .notify .vm2 eventfdInterruptHost]

theorem arrival_delivered_started : ∃ s,
    Run Step Sys.started (trace Sys.next Sys.started ringUnmasked) s ∧
      (EventPending .vm2 s ∨
        ∃ e' ∈ (trace Sys.next Sys.started ringUnmasked).drop 2, RaisesMsi .vm2 e') := by
  have hrun : Run Step Sys.started (trace Sys.next Sys.started ringUnmasked) _ := Run.of_exec rfl
  have hq : Quiet Vm.vm2.other (trace Sys.next Sys.started ringUnmasked) := by decide
  have hsplit : trace Sys.next Sys.started ringUnmasked =
      (trace Sys.next Sys.started ringUnmasked).take 1 ++
        ((trace Sys.next Sys.started ringUnmasked).drop 1).head (by decide) ::
          (trace Sys.next Sys.started ringUnmasked).drop 2 := rfl
  refine ⟨_, hrun, arrival_delivered hrun started_live hq hsplit (Or.inl ?_)⟩
  exact ⟨⟨1, rfl⟩, rfl⟩

/-- Ring while everything is masked, and unmask. -/
def ringMasked : List Act :=
  [.write .vm1 ConfigReg.outdbellset.addr 1, .write .vm2 ConfigReg.ntintmsk.addr 0]

/-- **Nothing is caught up when the mask is cleared**: the doorbell is pending and unmasked, but no
    event and no MSI tells of it. -/
theorem unmask_no_interrupt : Live .vm2 ⟨1, 1⟩ Sys.started ∧ ¬ ∀ t s, Run Step Sys.started t s →
    Quiet .vm1 t → ∀ b, (s.regs .vm2).db.getLsbD b = true → (s.regs .vm2).dbMask.getLsbD b = false →
      s.shm.gregs.ntIntMask.getLsbD 1 = false →
      EventPending .vm2 s ∨ ∃ e ∈ t, RaisesMsi .vm2 e := by
  refine ⟨started_live, fun hall => ?_⟩
  rcases hall _ _ (Run.of_exec (l := ringMasked) rfl) (by decide) 0 (by decide) (by decide)
    (by decide) with ⟨fd, hfd, hp⟩ | ⟨e, he, hm, -⟩
  · cases hfd
    exact absurd hp (by decide)
  · have hacts : ∀ e ∈ trace Sys.next Sys.started ringMasked,
        e.2 ≠ .notify .vm2 eventfdInterruptHost := by decide
    exact hacts e he hm

end IdtNtb
