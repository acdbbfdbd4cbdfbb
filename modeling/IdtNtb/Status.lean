/-
  The interrupt status NTINTSTS and what it reports.

  NTINTSTS is a latch: what is reported sets a bit of it, and only the machine's
  own writes to NTINTSTS clear bits.  INDBELLSTS and MSGSTS, which hold the
  sources, are cleared on their own, and clearing the last source leaves the
  status as it is (`status_outlives_source`):

  * `dbell_step` and `msg_step` say what one step does to the two bits;
  * `dbell_source` and `msg_source` relate a bit that is set to its source;
  * `status_latched` puts them together for whole runs.
-/
import IdtNtb.Doorbell
import IdtNtb.Isolation
import IdtNtb.Masks

namespace IdtNtb

open Runs

variable {s s' s₀ : Sys} {a : Act} {t : List (Sys × Act)} {x y : Vm}

/-! ## Events -/

/-- A doorbell write of the peer, which knows `y`, while the DBELL bit of NTINTMSK is clear. -/
def DoorbellReported (y : Vm) (e : Sys × Act) : Prop :=
  (∃ v, e.2 = .write y.other ConfigReg.outdbellset.addr v) ∧
    (e.1.dev y.other).otherVmId ≠ -1 ∧ e.1.shm.gregs.ntIntMask.getLsbD 1 = false

/-- A message of the peer that is accepted while the masks let it through. -/
def MessageReported (y : Vm) (e : Sys × Act) : Prop :=
  (e.1.dev y.other).otherVmId ≠ -1 ∧ ∃ n, MessageArrives y n e

/-- A message of `y` that is refused and reported. -/
def FailureReported (y : Vm) (e : Sys × Act) : Prop :=
  ∃ n v, e.2 = .write y (ConfigReg.outmsg n).addr v ∧ Full y.other n e.1 ∧
    (e.1.ctx y).FailureArmed n

/-- A global signal of the peer that is reported. -/
def SignalReported (y : Vm) (e : Sys × Act) : Prop :=
  (∃ v, e.2 = .write y.other ConfigReg.ntgsignal.addr v) ∧ (e.1.ctx y.other).SignalArmed

/-- What sets bit `b` of the NTINTSTS of `y`. -/
def StatusRaised (b : ℕ) (y : Vm) (e : Sys × Act) : Prop :=
  (b = 0 ∧ (MessageReported y e ∨ FailureReported y e)) ∨ (b = 1 ∧ DoorbellReported y e) ∨
    (b = 3 ∧ SignalReported y e)

/-- `y` clears bit `b` of its NTINTSTS. -/
def StatusCleared (b : ℕ) (y : Vm) (e : Sys × Act) : Prop :=
  ∃ v, e.2 = .write y ConfigReg.ntintsts.addr v ∧ v.getLsbD b = true

/-! ## One step -/

/-- Of a machine's own writes, those to NTINTSTS and to the outbound messages reach its status. -/
theorem regsAfter_intsts (c : Ctx x) {r : ConfigReg} (hr : r ≠ .ntintsts) (hm : ∀ n, r ≠ .outmsg n)
    (v : BitVec 64) : (c.regsAfter r v).intsts = c.regs.intsts := by
  unfold Ctx.regsAfter
  cases r with
  | ntintsts => exact absurd rfl hr
  | outmsg n => exact absurd rfl (hm n)
  | gasadata => dsimp only; split <;> rfl
  | _ => rfl

/-- The status bits, tested after one of them was set if `p`. -/
theorem getLsbD_status {b k : ℕ} {p : Prop} [Decidable p] (hk : k < 32) (v : BitVec 64) :
    (if p then v ||| (1#32 <<< k).setWidth 64 else v).getLsbD b = true ↔
      (b = k ∧ p) ∨ v.getLsbD b = true := by
  by_cases hp : p
  · rw [if_pos hp, Bits.getLsbD_or_mask hk (by omega)]
    simp [hp, or_comm]
  · rw [if_neg hp]
    simp [hp]

/-- Clearing bits with a 32-bit write. -/
theorem getLsbD_cleared {b : ℕ} (hb : b < 32) (m : BitVec 64) (v : BitVec 32) :
    (m &&& ~~~v.setWidth 64).getLsbD b = (m.getLsbD b && !v.getLsbD b) := by
  have hb64 : b < 64 := by omega
  simp [hb64]

/-- A machine's own writes clear bits of its status, and a refused message sets one. -/
theorem status_own {b : ℕ} (hb : b < 32) {r : ConfigReg} {v : BitVec 32} :
    ((s.ctx y).regsAfter r (v.setWidth 64)).intsts.getLsbD b = true ↔
      StatusRaised b y (s, .write y r.addr v) ∨
        ((s.regs y).intsts.getLsbD b = true ∧ ¬ StatusCleared b y (s, .write y r.addr v)) := by
  have hraised : StatusRaised b y (s, .write y r.addr v) ↔
      b = 0 ∧ FailureReported y (s, .write y r.addr v) := by
    simp [StatusRaised, MessageReported, MessageArrives, DoorbellReported, SignalReported]
  rw [hraised]
  by_cases hr : r = .ntintsts
  · subst hr
    simp only [Ctx.regsAfter, Sys.ctx_regs, getLsbD_cleared hb]
    simp [StatusCleared, FailureReported]
  by_cases hm : ∃ n, r = .outmsg n
  · obtain ⟨n, rfl⟩ := hm
    have hfull : Full y.other n s ↔ (s.ctx y).PeerFull n := full_iff
    have hmsg : ntintstsMsg = 1#32 <<< 0 := rfl
    have hfail : FailureReported y (s, .write y (ConfigReg.outmsg n).addr v) ↔
        (s.ctx y).PeerFull n ∧ (s.ctx y).FailureArmed n := by
      simp [FailureReported, hfull]
    rw [hfail]
    unfold Ctx.regsAfter
    by_cases hf : (s.ctx y).PeerFull n
    · simp only [if_pos hf, hmsg, getLsbD_status (show 0 < 32 by omega)]
      simp [hf, StatusCleared]
    · simp [hf, StatusCleared]
  · have hm' : ∀ n, r ≠ .outmsg n := fun n hn => hm ⟨n, hn⟩
    rw [regsAfter_intsts _ hr hm']
    simp [StatusCleared, FailureReported, hr, hm']

/-- Of the peer's writes, only the outbound ones reach the status. -/
theorem peerRegsAfter_intsts (c : Ctx x) {r : ConfigReg} (hr : ¬ Outbound r) (v : BitVec 64) :
    (c.peerRegsAfter r v).intsts = c.peerRegs.intsts := by
  unfold Ctx.peerRegsAfter
  cases r with
  | outmsg n | outdbellset | ntgsignal => exact absurd trivial hr
  | _ => rfl

/-- The peer's writes set bits of the status. -/
theorem status_peer (b : ℕ) {r : ConfigReg} {v : BitVec 32} :
    ((s.ctx y.other).peerRegsAfter r (v.setWidth 64)).intsts.getLsbD b = true ↔
      StatusRaised b y (s, .write y.other r.addr v) ∨ (s.regs y).intsts.getLsbD b = true := by
  have hpeer : (s.ctx y.other).peerRegs = s.regs y := by rw [Sys.ctx_peerRegs, Vm.other_other]
  have hdev : (s.ctx y.other).dev = s.dev y.other := rfl
  by_cases hr : Outbound r
  · cases r with
    | outmsg n =>
      have hraised : StatusRaised b y (s, .write y.other (ConfigReg.outmsg n).addr v) ↔
          b = 0 ∧ (s.dev y.other).otherVmId ≠ -1 ∧ ¬ (s.ctx y.other).PeerFull n ∧
            (s.ctx y.other).MessageArmed n := by
        have hfull : Full y n s ↔ (s.ctx y.other).PeerFull n := by
          rw [Ctx.PeerFull, hpeer, full_iff]
        simp [StatusRaised, MessageReported, MessageArrives, DoorbellReported, SignalReported,
          FailureReported, messageArmed_iff, hfull, and_comm]
      have hmsg : ntintstsMsg = 1#32 <<< 0 := rfl
      rw [hraised]
      unfold Ctx.peerRegsAfter
      rw [hpeer, hdev]
      by_cases hf : (s.ctx y.other).PeerFull n
      · simp [hf]
      by_cases hid : (s.dev y.other).otherVmId = -1
      · simp [hf, hid]
      simp only [if_neg hf, if_neg hid, hmsg, getLsbD_status (show 0 < 32 by omega)]
      simp [hf, hid]
    | outdbellset =>
      have hraised : StatusRaised b y (s, .write y.other ConfigReg.outdbellset.addr v) ↔
          b = 1 ∧ (s.dev y.other).otherVmId ≠ -1 ∧ (s.ctx y.other).DoorbellArmed := by
        simp [StatusRaised, MessageReported, MessageArrives, DoorbellReported, SignalReported,
          FailureReported, doorbellArmed_iff]
      have hmsg : ntintstsDbell = 1#32 <<< 1 := rfl
      rw [hraised]
      unfold Ctx.peerRegsAfter
      rw [hpeer, hdev]
      simp only [hmsg, getLsbD_status (show 1 < 32 by omega)]
    | ntgsignal =>
      have hraised : StatusRaised b y (s, .write y.other ConfigReg.ntgsignal.addr v) ↔
          b = 3 ∧ (s.ctx y.other).SignalArmed := by
        simp [StatusRaised, MessageReported, MessageArrives, DoorbellReported, SignalReported,
          FailureReported]
      have hmsg : ntintstsSevent = 1#32 <<< 3 := rfl
      rw [hraised]
      unfold Ctx.peerRegsAfter
      rw [hpeer]
      simp only [hmsg, getLsbD_status (show 3 < 32 by omega)]
    | _ => exact hr.elim
  · rw [peerRegsAfter_intsts _ hr, hpeer]
    have hne : ∀ q, Outbound q → r ≠ q := fun q hq he => hr (he ▸ hq)
    have h1 : r ≠ .outdbellset := hne _ trivial
    have h2 : r ≠ .ntgsignal := hne _ trivial
    have h3 : ∀ n, r ≠ .outmsg n := fun n => hne (.outmsg n) trivial
    simp [StatusRaised, MessageReported, MessageArrives, DoorbellReported, SignalReported,
      FailureReported, h1, h2, h3]

/-- **One step of the status**: a bit is set by what it reports, and cleared by its machine. -/
theorem status_step {b : ℕ} (hb : b < 32) (hs : s.SelFor a) (h : Step s a s') :
    (s'.regs y).intsts.getLsbD b = true ↔ StatusRaised b y (s, a) ∨
      ((s.regs y).intsts.getLsbD b = true ∧ ¬ StatusCleared b y (s, a)) := by
  rcases step_block hs h y with ⟨r, v, rfl, hr, -⟩ | ⟨r, v, rfl, hr, -⟩ | ⟨ha, hr, -⟩
  · rw [hr]
    exact status_own hb
  · rw [hr, status_peer]
    simp [StatusCleared]
  · have hw : ∀ x (r : ConfigReg) v, a ≠ .write x r.addr v := ha
    rw [hr]
    simp [StatusRaised, MessageReported, MessageArrives, DoorbellReported, SignalReported,
      FailureReported, StatusCleared, hw]

/-! ## The sources -/

/-- The doorbell of `y` is emptied: by its own INDBELLSTS write, or by a ring without a bit. -/
def DoorbellEmptied (y : Vm) (e : Sys × Act) : Prop :=
  (∃ v, e.2 = .write y ConfigReg.indbellsts.addr v) ∨
    e.2 = .write y.other ConfigReg.outdbellset.addr 0

/-- A ring with some bit. -/
def DoorbellFilled (y : Vm) (e : Sys × Act) : Prop :=
  ∃ v, e.2 = .write y.other ConfigReg.outdbellset.addr v ∧ v ≠ 0

/-- `y` clears bits of its MSGSTS. -/
def MsgstsWritten (y : Vm) (e : Sys × Act) : Prop :=
  ∃ v, e.2 = .write y ConfigReg.msgsts.addr v

/-- Some message status bit of `y` is set. -/
def MsgstsPending (y : Vm) (s : Sys) : Prop :=
  ∃ n : Fin 4, (s.regs y).msgsts.getLsbD n = true ∨ (s.regs y).msgsts.getLsbD (16 + n) = true

/-- A doorbell that is reported is one that was just emptied, or has been before. -/
theorem dbell_source (hs : s.SelOk) (h : Step s a s') (hp : (s'.regs y).intsts.getLsbD 1 = true)
    (hr : (s'.regs y).db = 0) : DoorbellEmptied y (s, a) ∨
      ((s.regs y).intsts.getLsbD 1 = true ∧ (s.regs y).db = 0 ∧ ¬ DoorbellFilled y (s, a)) := by
  rcases step_db hs h y with ⟨v, rfl, -⟩ | ⟨v, rfl, hd⟩ | ⟨-, hout, hd⟩
  · exact Or.inl (Or.inl ⟨v, rfl⟩)
  · obtain rfl : v = 0 := hd.symm.trans hr
    exact Or.inl (Or.inr rfl)
  · refine Or.inr ⟨?_, hd.symm.trans hr, fun ⟨v, hv, _⟩ => hout v hv⟩
    rcases (status_step (by omega) (hs.selFor a) h).1 hp with hraised | ⟨hbit, -⟩
    · rcases hraised with ⟨h0, -⟩ | ⟨-, ⟨v, hv⟩, -⟩ | ⟨h3, -⟩
      · cases h0
      · exact absurd hv (hout v)
      · cases h3
    · exact hbit

/-- Only a machine's own MSGSTS writes clear its message status. -/
theorem msgsts_kept (hs : s.SelFor a) (h : Step s a s') (ha : ¬ MsgstsWritten y (s, a)) {j : ℕ}
    (hj : (s.regs y).msgsts.getLsbD j = true) : (s'.regs y).msgsts.getLsbD j = true := by
  rcases step_block hs h y with ⟨r, v, rfl, hr, -⟩ | ⟨r, v, rfl, hr, -⟩ | ⟨-, hr, -⟩
  · rw [hr]
    unfold Ctx.regsAfter
    cases r with
    | msgsts => exact absurd ⟨v, rfl⟩ ha
    | outmsg n => dsimp only; split_ifs <;> simp [hj]
    | gasadata => dsimp only; split <;> simpa using hj
    | _ => exact hj
  · rw [hr]
    unfold Ctx.peerRegsAfter
    cases r with
    | outmsg n => dsimp only; split_ifs <;> simp [hj]
    | _ => simpa using hj
  · rw [hr]
    exact hj

/-- A message that is reported leaves its bit in MSGSTS. -/
theorem msgsts_of_reported (hs : s.SelFor a) (h : Step s a s')
    (hrep : MessageReported y (s, a) ∨ FailureReported y (s, a)) : MsgstsPending y s' := by
  rcases hrep with ⟨hid, n, ⟨v, rfl⟩, -⟩ | ⟨n, v, rfl, hf, -⟩
  · exact ⟨n, Or.inr (full_iff.1 ((step_full hs h).2 (Or.inr ⟨⟨v, rfl⟩, hid⟩)))⟩
  · have href := @refused_step s s' y.other n v hf
    rw [Vm.other_other] at href
    have hbit := (href h).2.2.2
    rw [Sys.read_addr] at hbit
    exact ⟨n, Or.inl hbit⟩

theorem msg_source (hs : s.SelOk) (h : Step s a s') (hp : (s'.regs y).intsts.getLsbD 0 = true)
    (hr : ¬ MsgstsPending y s') : MsgstsWritten y (s, a) ∨
      ((s.regs y).intsts.getLsbD 0 = true ∧ ¬ MsgstsPending y s ∧
        ¬ (MessageReported y (s, a) ∨ FailureReported y (s, a))) := by
  by_cases hw : MsgstsWritten y (s, a)
  · exact Or.inl hw
  have hrep : ¬ (MessageReported y (s, a) ∨ FailureReported y (s, a)) := fun hrep =>
    hr (msgsts_of_reported (hs.selFor a) h hrep)
  refine Or.inr ⟨?_, ?_, hrep⟩
  · rcases (status_step (by omega) (hs.selFor a) h).1 hp with hraised | ⟨hbit, -⟩
    · rcases hraised with ⟨-, hrep'⟩ | ⟨h1, -⟩ | ⟨h3, -⟩
      · exact absurd hrep' hrep
      · cases h1
      · cases h3
    · exact hbit
  · rintro ⟨n, hn | hn⟩
    · exact hr ⟨n, Or.inl (msgsts_kept (hs.selFor a) h hw hn)⟩
    · exact hr ⟨n, Or.inr (msgsts_kept (hs.selFor a) h hw hn)⟩

/-! ## Runs -/

/-- A bit of the status along a run. -/
theorem status_run {b : ℕ} (hb : b < 32) (h : Run Step s₀ t s) (h0 : (s₀.regs y).intsts = 0)
    (hsel : ∀ e ∈ t, e.1.SelOk) : (s.regs y).intsts.getLsbD b = true ↔
      Since (StatusRaised b y) (StatusCleared b y) t := by
  refine Run.latch (fun s => (s.regs y).intsts.getLsbD b = true) ?_ h ?_
  · rw [h0]
    simp
  · intro e he s' hst
    exact status_step hb ((hsel e he).selFor _) hst

/-- A doorbell write of the peer that the masks let through. -/
def DoorbellDue (y : Vm) (e : Sys × Act) : Prop :=
  ∃ v, e.2 = .write y.other ConfigReg.outdbellset.addr v ∧ (e.1.dev y.other).otherVmId ≠ -1 ∧
    DoorbellUnmasked y.other e.1 v

/-- A message of `y` that is refused. -/
def MessageRefused (y : Vm) (e : Sys × Act) : Prop :=
  ∃ n v, e.2 = .write y (ConfigReg.outmsg n).addr v ∧ Full y.other n e.1

/-- **The status is a latch.**  What it reports has happened since the machine cleared the bit, and
    what the masks let through is reported until then; a bit without its source is left over from a
    source that was emptied later than it was last filled. -/
theorem status_latched (h : Run Step s₀ t s) (h0 : (s₀.regs y).intsts = 0)
    (hsel : ∀ e ∈ t, e.1.SelOk) :
    -- the DBELL bit
    ((s.regs y).intsts.getLsbD 1 = true → Since (DoorbellReported y) (StatusCleared 1 y) t) ∧
    (Since (DoorbellDue y) (StatusCleared 1 y) t → (s.regs y).intsts.getLsbD 1 = true) ∧
    ((s.regs y).intsts.getLsbD 1 = true → (s.regs y).db ≠ 0 ∨
      Since (DoorbellEmptied y) (DoorbellFilled y) t) ∧
    -- the MSG bit
    ((s.regs y).intsts.getLsbD 0 = true →
      Since (fun e => MessageReported y e ∨ MessageRefused y e) (StatusCleared 0 y) t) ∧
    (Since (MessageReported y) (StatusCleared 0 y) t → (s.regs y).intsts.getLsbD 0 = true) ∧
    ((s.regs y).intsts.getLsbD 0 = true → MsgstsPending y s ∨
      Since (MsgstsWritten y) (MessageReported y) t) := by
  have hfirst : ∀ b, ¬ (s₀.regs y).intsts.getLsbD b = true := by
    intro b
    rw [h0]
    simp
  refine ⟨fun hp => ?_, fun hd => ?_, fun hp => ?_, fun hp => ?_, fun hm => ?_, fun hp => ?_⟩
  · refine ((status_run (by omega) h h0 hsel).1 hp).mono fun e _ hr => ?_
    rcases hr with ⟨hb, -⟩ | ⟨-, hr⟩ | ⟨hb, -⟩
    · cases hb
    · exact hr
    · cases hb
  · refine (status_run (by omega) h h0 hsel).2 (hd.mono fun e _ hr => ?_)
    obtain ⟨v, hv, hid, hmask⟩ := hr
    exact Or.inr (Or.inl ⟨rfl, ⟨v, hv⟩, hid, hmask.1⟩)
  · refine or_iff_not_imp_left.2 fun hdb => ?_
    refine Run.source (fun s => (s.regs y).intsts.getLsbD 1 = true) (fun s => (s.regs y).db ≠ 0)
      (hfirst 1) h ?_ hp hdb
    intro e he s' hst hp' hr'
    simpa using dbell_source (hsel e he) hst hp' (not_not.1 hr')
  · refine ((status_run (by omega) h h0 hsel).1 hp).mono fun e _ hr => ?_
    rcases hr with ⟨-, hr⟩ | ⟨hb, -⟩ | ⟨hb, -⟩
    · refine hr.imp id ?_
      rintro ⟨n, v, hv, hf, -⟩
      exact ⟨n, v, hv, hf⟩
    · cases hb
    · cases hb
  · refine (status_run (by omega) h h0 hsel).2 (hm.mono fun e _ hr => ?_)
    exact Or.inl ⟨rfl, Or.inl hr⟩
  · refine or_iff_not_imp_left.2 fun hms => ?_
    refine Run.source (fun s => (s.regs y).intsts.getLsbD 0 = true) (MsgstsPending y)
      (hfirst 0) h ?_ hp hms
    intro e he s' hst hp' hr'
    refine (msg_source (hsel e he) hst hp' hr').imp id ?_
    rintro ⟨h1, h2, h3⟩
    exact ⟨h1, h2, fun h => h3 (Or.inl h)⟩

/-- The first machine rings while the doorbell is unmasked, and the second clears its doorbell. -/
def ringAndClear : List Act :=
  [.write .vm2 ConfigReg.ntintmsk.addr 0, .write .vm1 ConfigReg.outdbellset.addr 1,
    .write .vm2 ConfigReg.indbellsts.addr 1]

theorem status_latched_started : ∃ s,
    Run Step Sys.started (trace Sys.next Sys.started ringAndClear) s ∧
      Since (DoorbellEmptied .vm2) (DoorbellFilled .vm2) (trace Sys.next Sys.started ringAndClear) := by
  obtain ⟨s, hs, hbit, hdb⟩ : ∃ s, exec Sys.next Sys.started ringAndClear = .ok s ∧
      (s.regs .vm2).intsts.getLsbD 1 = true ∧ (s.regs .vm2).db = 0 := ⟨_, rfl, by decide, by decide⟩
  have hlatch := status_latched (y := .vm2) (Run.of_exec hs) rfl (by decide)
  exact ⟨s, Run.of_exec hs, (hlatch.2.2.1 hbit).resolve_left fun hne => hne hdb⟩

/-- **The status outlives its source.** -/
theorem status_outlives_source : (Sys.started.regs .vm2).intsts = 0 ∧
    ¬ ∀ t s, Run Step Sys.started t s → (∀ e ∈ t, e.1.SelOk) →
      ((s.regs .vm2).intsts.getLsbD 1 = true → (s.regs .vm2).db ≠ 0) ∧
      ((s.regs .vm2).intsts.getLsbD 0 = true → MsgstsPending .vm2 s) := by
  refine ⟨rfl, fun hall => ?_⟩
  obtain ⟨s, hs, hbit, hdb⟩ : ∃ s, exec Sys.next Sys.started ringAndClear = .ok s ∧
      (s.regs .vm2).intsts.getLsbD 1 = true ∧ (s.regs .vm2).db = 0 := ⟨_, rfl, by decide, by decide⟩
  exact (hall _ s (Run.of_exec hs) (by decide)).1 hbit hdb

end IdtNtb
