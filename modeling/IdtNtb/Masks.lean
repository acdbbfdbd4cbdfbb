/-
  The masks of the receiver's interrupts.

  A write that has something to report sets a bit of NTINTSTS and sends a
  notification, or does neither (`Reports`).  What the masks say about it, and
  what the device looks at:

  * INDBELLMSK is stored and never looked at, so a doorbell whose bits are all
    masked still interrupts (`doorbell_mask_iff`);
  * MSGSTSMSK is honoured when a message is accepted.  When one is refused, the
    device looks at all bits of the mask but the one that belongs to the message
    (`message_mask_iff`).
-/
import IdtNtb.Interrupts

namespace IdtNtb

open Runs

variable {s s' s₀ : Sys} {t : List (Sys × Act)} {x : Vm} {n : Fin 4} {v : BitVec 32}
  {out : List Effect}

/-! ## Reports -/

/-- A bit of NTINTSTS is set and `e` is sent if `p`, and otherwise neither of them happens. -/
def Reports (p : Prop) (bit : ℕ) (r r' : IdtSharedRegisters) (e : Effect) (out : List Effect) :
    Prop :=
  (p → r'.intsts.getLsbD bit = true ∧ e ∈ out) ∧ (¬ p → r'.intsts = r.intsts ∧ e ∉ out)

/-- A report made when `q` is one made when `p` if the two agree. -/
theorem reports_iff {p q : Prop} [Decidable q] {bit : ℕ} {r r' : IdtSharedRegisters} {e : Effect}
    {m : BitVec 64} (hm : m.getLsbD bit = true)
    (hr : r'.intsts = if q then r.intsts ||| m else r.intsts) (he : e ∈ out ↔ q) :
    Reports p bit r r' e out ↔ (p ↔ q) := by
  constructor
  · rintro ⟨hp, hn⟩
    constructor
    · intro h
      exact he.1 (hp h).2
    · intro hq
      by_contra h
      exact (hn h).2 (he.2 hq)
  · intro hpq
    refine ⟨fun hp => ⟨?_, he.2 (hpq.1 hp)⟩, fun hp => ⟨?_, fun h => hp (hpq.2 (he.1 h))⟩⟩
    · rw [hr, if_pos (hpq.1 hp)]
      simp [hm]
    · rw [hr, if_neg fun hq => hp (hpq.2 hq)]

/-- What the handler of a register write leaves. -/
theorem handle_write {r : ConfigReg} (h : s.handle (.write x r.addr v) = .ok (s', out)) :
    ∃ c, writeReg (s.ctx x) r (v.setWidth 64) = .ok c ∧ s'.regs x = c.regs ∧
      s'.regs x.other = c.peerRegs ∧ out = c.out := by
  obtain ⟨c, hc, hf⟩ := bind_ok.1 h
  rw [ivshmemIoWrite_addr] at hc
  obtain ⟨pending, -, rfl, rfl⟩ := Sys.finish_ok.1 hf
  exact ⟨c, hc, rfl, rfl, rfl⟩

/-! ## Doorbells -/

/-- The doorbell write of `x` is meant to interrupt its peer: the DBELL bit of NTINTMSK is clear,
    and the value sets a bit that is clear in the peer's INDBELLMSK. -/
def DoorbellUnmasked (x : Vm) (s : Sys) (v : BitVec 32) : Prop :=
  s.shm.gregs.ntIntMask.getLsbD 1 = false ∧ v &&& ~~~(s.regs x.other).dbMask ≠ 0

/-- The peer is told of the doorbell if `p`, and otherwise not. -/
def ReportsDoorbell (p : Prop) (x : Vm) (s s' : Sys) (out : List Effect) : Prop :=
  Reports p 1 (s.regs x.other) (s'.regs x.other)
    (.eventSet (s.dev x).otherVmId eventfdInterruptHost) out

/-- **A doorbell write of a connected machine** is reported if NTINTMSK lets it through. -/
theorem reportsDoorbell_iff (hid : (s.dev x).otherVmId ≠ -1)
    (h : s.handle (.write x ConfigReg.outdbellset.addr v) = .ok (s', out)) (p : Prop) :
    ReportsDoorbell p x s s' out ↔ (p ↔ s.shm.gregs.ntIntMask.getLsbD 1 = false) := by
  obtain ⟨c, hc, -, hpeer, rfl⟩ := handle_write h
  rw [writeReg_outdbellset] at hc
  cases hc
  rw [← doorbellArmed_iff (x := x)]
  refine reports_iff (m := ntintstsDbell.setWidth 64) (by decide) ?_ ?_
  · rw [hpeer]
    simp [hid]
  · rw [Sys.ctx_dev, Ctx.mem_emitIf_out]
    simp [hid]

/-- INDBELLMSK is not looked at. -/
theorem doorbell_mask_iff (hid : (s.dev x).otherVmId ≠ -1)
    (h : s.handle (.write x ConfigReg.outdbellset.addr v) = .ok (s', out)) :
    ReportsDoorbell (DoorbellUnmasked x s v) x s s' out ↔
      s.shm.gregs.ntIntMask.getLsbD 1 = true ∨ v &&& ~~~(s.regs x.other).dbMask ≠ 0 := by
  rw [reportsDoorbell_iff hid h]
  unfold DoorbellUnmasked
  cases s.shm.gregs.ntIntMask.getLsbD 1 <;> simp

/-- The device of `x` signals its peer's interrupt notifier because of a doorbell. -/
def DoorbellInterrupts (x : Vm) (e : Sys × Act) : Prop :=
  ∃ v s' out, e.2 = .write x ConfigReg.outdbellset.addr v ∧ e.1.handle e.2 = .ok (s', out) ∧
    Effect.eventSet (e.1.dev x).otherVmId eventfdInterruptHost ∈ out

theorem doorbellInterrupts_iff {e : Sys × Act} (hst : Step e.1 e.2 s') : DoorbellInterrupts x e ↔
    (∃ v, e.2 = .write x ConfigReg.outdbellset.addr v) ∧ (e.1.dev x).otherVmId ≠ -1 ∧
      e.1.shm.gregs.ntIntMask.getLsbD 1 = false := by
  rw [← doorbellArmed_iff (x := x)]
  constructor
  · rintro ⟨v, s', out, ha, h, hmem⟩
    refine ⟨⟨v, ha⟩, ?_⟩
    rw [ha] at h
    obtain ⟨c, hc, -, -, rfl⟩ := handle_write h
    rw [writeReg_outdbellset] at hc
    cases hc
    rw [Sys.ctx_dev, Ctx.mem_emitIf_out] at hmem
    simpa using hmem
  · rintro ⟨⟨v, ha⟩, hok⟩
    obtain ⟨out, h⟩ := Sys.next_ok.1 hst
    refine ⟨v, s', out, ha, h, ?_⟩
    rw [ha] at h
    obtain ⟨c, hc, -, -, rfl⟩ := handle_write h
    rw [writeReg_outdbellset] at hc
    cases hc
    rw [Sys.ctx_dev, Ctx.mem_emitIf_out]
    exact Or.inl hok

/-- **INDBELLMSK**: a doorbell is reported as the masks say if NTINTMSK masks it or one of its bits
    is not masked, and a machine that masks all bits is left alone by the doorbells of a run if
    NTINTMSK masks them. -/
theorem doorbell_mask (x : Vm) :
    (∀ s v s' out, (s.dev x).otherVmId ≠ -1 →
      s.handle (.write x ConfigReg.outdbellset.addr v) = .ok (s', out) →
      (ReportsDoorbell (DoorbellUnmasked x s v) x s s' out ↔
        s.shm.gregs.ntIntMask.getLsbD 1 = true ∨ v &&& ~~~(s.regs x.other).dbMask ≠ 0)) ∧
    ∀ s₀ t s, Run Step s₀ t s → (∀ e ∈ t, (e.1.regs x.other).dbMask = BitVec.allOnes 32) →
      ((∀ e ∈ t, ¬ DoorbellInterrupts x e) ↔
        ∀ e ∈ t, ∀ v, e.2 = .write x ConfigReg.outdbellset.addr v →
          (e.1.dev x).otherVmId = -1 ∨ e.1.shm.gregs.ntIntMask.getLsbD 1 = true) := by
  refine ⟨fun s v s' out hid h => doorbell_mask_iff hid h, fun s₀ t s h _ => ?_⟩
  refine forall₂_congr fun e he => ?_
  obtain ⟨-, -, s₁, -, -, hst⟩ := h.fired he
  rw [doorbellInterrupts_iff hst]
  cases e.1.shm.gregs.ntIntMask.getLsbD 1 with
  | true => simp
  | false =>
    simp only [and_true, not_and, not_not, Bool.false_eq_true, or_false]
    exact ⟨fun hn v hv => hn ⟨v, hv⟩, fun hn ⟨v, hv⟩ => hn v hv⟩

/-- The second machine unmasks its doorbell interrupt, and masks some of the doorbell's bits. -/
def maskDoorbells (m : BitVec 32) : List Act :=
  [.write .vm2 ConfigReg.ntintmsk.addr 0, .write .vm2 ConfigReg.indbellmsk.addr m]

theorem doorbell_mask_started :
    ∃ s s' out, exec Sys.next Sys.started (maskDoorbells 1) = .ok s ∧
      s.handle (.write .vm1 ConfigReg.outdbellset.addr 3) = .ok (s', out) ∧
      ReportsDoorbell (DoorbellUnmasked .vm1 s 3) .vm1 s s' out ∧
      ∃ e, exec Sys.next Sys.started (maskDoorbells (BitVec.allOnes 32)) = .ok e.1 ∧
        e.2 = .write .vm1 ConfigReg.outdbellset.addr 3 ∧ DoorbellInterrupts .vm1 e := by
  obtain ⟨s, hs, hid, hmask⟩ : ∃ s, exec Sys.next Sys.started (maskDoorbells 1) = .ok s ∧
      (s.dev .vm1).otherVmId ≠ -1 ∧ (3 : BitVec 32) &&& ~~~(s.regs .vm2).dbMask ≠ 0 :=
    ⟨_, rfl, by decide, by decide⟩
  obtain ⟨u, hu, hall, hopen, huid⟩ : ∃ u,
      exec Sys.next Sys.started (maskDoorbells (BitVec.allOnes 32)) = .ok u ∧
      (u.regs .vm2).dbMask = BitVec.allOnes 32 ∧ u.shm.gregs.ntIntMask.getLsbD 1 = false ∧
      (u.dev .vm1).otherVmId ≠ -1 := ⟨_, rfl, by decide, by decide, by decide⟩
  obtain ⟨⟨s', out⟩, h⟩ : ∃ r, s.handle (.write .vm1 ConfigReg.outdbellset.addr 3) = .ok r := by
    cases hs
    exact ⟨_, rfl⟩
  obtain ⟨u', hst⟩ : ∃ u', Step u (.write .vm1 ConfigReg.outdbellset.addr 3) u' := by
    cases hu
    exact ⟨_, rfl⟩
  refine ⟨s, s', out, hs, h, ((doorbell_mask .vm1).1 s 3 s' out hid h).2 (Or.inr hmask),
    (u, .write .vm1 ConfigReg.outdbellset.addr 3), hu, rfl, ?_⟩
  -- a run of one step in which the mask covers all bits
  have hrun := (doorbell_mask .vm1).2 u _ u' (Run.snoc .nil hst) (by simpa [Vm.other] using hall)
  by_contra hno
  have := hrun.1 (by simpa using hno) _ (List.mem_singleton_self _) 3 rfl
  rcases this with h1 | h1
  · exact huid h1
  · rw [hopen] at h1
    cases h1

/-- **A machine that masks all its doorbells is interrupted all the same.** -/
theorem doorbell_mask_ignored : ¬ ∀ t s v s' out, Run Step Sys.started t s →
    s.handle (.write .vm1 ConfigReg.outdbellset.addr v) = .ok (s', out) →
    ReportsDoorbell (DoorbellUnmasked .vm1 s v) .vm1 s s' out := by
  intro hall
  obtain ⟨s, s', out, hs, h, hmask, hmem⟩ : ∃ s s' out,
      exec Sys.next Sys.started (maskDoorbells (BitVec.allOnes 32)) = .ok s ∧
      s.handle (.write .vm1 ConfigReg.outdbellset.addr 1) = .ok (s', out) ∧
      (1 : BitVec 32) &&& ~~~(s.regs .vm2).dbMask = 0 ∧
      Effect.eventSet (s.dev .vm1).otherVmId eventfdInterruptHost ∈ out :=
    ⟨_, _, _, rfl, rfl, by decide, by decide⟩
  exact ((hall _ s 1 s' out (Run.of_exec hs) h).2 fun hu => hu.2 hmask).2 hmem

/-! ## Messages -/

/-- The message write of `x` is meant to interrupt its peer if it is accepted: bit 16+n of the
    peer's MSGSTSMSK and the MSG bit of NTINTMSK are clear. -/
def MessageUnmasked (x : Vm) (n : Fin 4) (s : Sys) : Prop :=
  (s.regs x.other).msgstsMask.getLsbD (16 + n) = false ∧ s.shm.gregs.ntIntMask.getLsbD 0 = false

/-- It is meant to interrupt `x` if it is refused: bit n of the own MSGSTSMSK is clear instead. -/
def FailureUnmasked (x : Vm) (n : Fin 4) (s : Sys) : Prop :=
  (s.regs x).msgstsMask.getLsbD n = false ∧ s.shm.gregs.ntIntMask.getLsbD 0 = false

/-- The receiver is told of an accepted message, and the sender of a refused one, as the masks
    say. -/
def ReportsMessage (x : Vm) (n : Fin 4) (s s' : Sys) (out : List Effect) : Prop :=
  (¬ Full x.other n s → Reports (MessageUnmasked x n s) 0 (s.regs x.other) (s'.regs x.other)
    (.eventSet (s.dev x).otherVmId eventfdInterruptHost) out) ∧
  (Full x.other n s → Reports (FailureUnmasked x n s) 0 (s.regs x) (s'.regs x) (.msiNotify 0) out)

/-- A refused message is reported if any bit of the mask but the n-th is set. -/
theorem failureArmed_iff : (s.ctx x).FailureArmed n ↔
    (∃ k < 32, k ≠ n.val ∧ (s.regs x).msgstsMask.getLsbD k = true) ∧
      s.shm.gregs.ntIntMask.getLsbD 0 = false := by
  have h := Bits.and_mask_ne_zero (w := 32) (n := 32) (k := 0) (by omega) (by omega)
    (~~~s.shm.gregs.ntIntMask)
  unfold Ctx.FailureArmed fldOutmsgsts
  rw [Bits.and_not_mask_ne_zero (by omega) (by omega)]
  refine and_congr Iff.rfl ?_
  simpa [ntintstsMsg] using h

/-- **An accepted message** is reported as the masks say. -/
theorem accepted_reports (hid : (s.dev x).otherVmId ≠ -1) (hf : ¬ Full x.other n s)
    (h : s.handle (.write x (ConfigReg.outmsg n).addr v) = .ok (s', out)) :
    Reports (MessageUnmasked x n s) 0 (s.regs x.other) (s'.regs x.other)
      (.eventSet (s.dev x).otherVmId eventfdInterruptHost) out := by
  obtain ⟨c, hc, -, hpeer, rfl⟩ := handle_write h
  have hfull : ¬ (s.ctx x).PeerFull n := by
    unfold Ctx.PeerFull
    rwa [Sys.ctx_peerRegs, ← full_iff]
  have hid' : (s.ctx x).dev.otherVmId ≠ -1 := hid
  rw [writeReg, writeOutboundMsg_accepted _ n _ hfull hid'] at hc
  cases hc
  have harmed : (s.ctx x).MessageArmed n ↔ MessageUnmasked x n s := by
    have := messageArmed_iff (s := s) (y := x.other) (n := n)
    rwa [Vm.other_other] at this
  refine (reports_iff (m := ntintstsMsg.setWidth 64) (by decide) ?_ ?_).2 harmed.symm
  · rw [hpeer]
    simp
  · rw [Sys.ctx_dev, Ctx.mem_emitIf_out]
    simp

/-- **A refused message** is reported as the rest of the mask says. -/
theorem refused_reports (hf : Full x.other n s)
    (h : s.handle (.write x (ConfigReg.outmsg n).addr v) = .ok (s', out)) (p : Prop) :
    Reports p 0 (s.regs x) (s'.regs x) (.msiNotify 0) out ↔ (p ↔ (s.ctx x).FailureArmed n) := by
  obtain ⟨c, hc, hown, -, rfl⟩ := handle_write h
  have hfull : (s.ctx x).PeerFull n := by
    unfold Ctx.PeerFull
    rwa [Sys.ctx_peerRegs, ← full_iff]
  rw [writeReg, writeOutboundMsg_refused _ n _ hfull] at hc
  cases hc
  refine reports_iff (m := ntintstsMsg.setWidth 64) (by decide) ?_ ?_
  · rw [hown]
    simp
  · rw [Ctx.mem_emitIf_out]
    simp

/-- **MSGSTSMSK**: a message write is reported as the masks say if it is accepted, if NTINTMSK masks
    it, or if its bit of the sender's mask is clear exactly when another one is set. -/
theorem message_mask_iff (hid : (s.dev x).otherVmId ≠ -1)
    (h : s.handle (.write x (ConfigReg.outmsg n).addr v) = .ok (s', out)) :
    ReportsMessage x n s s' out ↔
      ¬ Full x.other n s ∨ s.shm.gregs.ntIntMask.getLsbD 0 = true ∨
        ((s.regs x).msgstsMask.getLsbD n = false ↔
          ∃ k < 32, k ≠ n.val ∧ (s.regs x).msgstsMask.getLsbD k = true) := by
  unfold ReportsMessage
  by_cases hf : Full x.other n s
  · rw [refused_reports hf h, failureArmed_iff]
    unfold FailureUnmasked
    cases s.shm.gregs.ntIntMask.getLsbD 0 <;> simp [hf]
  · simp [hf, accepted_reports hid hf h]

/-- The first machine masks some of its message bits, and sends two messages without waiting. -/
def sendTwice (m : BitVec 32) : List Act :=
  [.write .vm2 ConfigReg.ntintmsk.addr 0, .write .vm1 ConfigReg.msgstsmsk.addr m,
    .write .vm1 (ConfigReg.outmsg 0).addr 5]

theorem message_mask_started : ∃ s s' out,
    exec Sys.next Sys.started (sendTwice 0x2) = .ok s ∧ Full .vm2 0 s ∧
      s.handle (.write .vm1 (ConfigReg.outmsg 0).addr 6) = .ok (s', out) ∧
      ReportsMessage .vm1 0 s s' out := by
  obtain ⟨s, s', out, hs, hf, h, hid, hmask⟩ : ∃ s s' out,
      exec Sys.next Sys.started (sendTwice 0x2) = .ok s ∧ Full .vm2 0 s ∧
      s.handle (.write .vm1 (ConfigReg.outmsg 0).addr 6) = .ok (s', out) ∧
      (s.dev .vm1).otherVmId ≠ -1 ∧ ((s.regs .vm1).msgstsMask.getLsbD 0 = false ∧
        (s.regs .vm1).msgstsMask.getLsbD 1 = true) :=
    ⟨_, _, _, rfl, by decide, rfl, by decide, by decide⟩
  refine ⟨s, s', out, hs, hf, h, (message_mask_iff hid h).2 (Or.inr (Or.inr ?_))⟩
  exact iff_of_true hmask.1 ⟨1, by omega, by decide, hmask.2⟩

/-- **A sender that masks nothing is not told of a refused message.** -/
theorem refused_unreported : ¬ ∀ t s v s' out, Run Step Sys.started t s →
    s.handle (.write .vm1 (ConfigReg.outmsg 0).addr v) = .ok (s', out) →
    ReportsMessage .vm1 0 s s' out := by
  intro hall
  obtain ⟨s, s', out, hs, hf, h, hmask, hno⟩ : ∃ s s' out,
      exec Sys.next Sys.started (sendTwice 0) = .ok s ∧ Full .vm2 0 s ∧
      s.handle (.write .vm1 (ConfigReg.outmsg 0).addr 6) = .ok (s', out) ∧
      ((s.regs .vm1).msgstsMask.getLsbD 0 = false ∧ s.shm.gregs.ntIntMask.getLsbD 0 = false) ∧
      Effect.msiNotify 0 ∉ out :=
    ⟨_, _, _, rfl, by decide, rfl, by decide, by decide⟩
  exact hno (((hall _ s 6 s' out (Run.of_exec hs) h).2 hf).1 hmask).2

end IdtNtb
