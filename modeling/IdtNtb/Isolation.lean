/-
  What one machine's configuration means to the other.

  A register write that is not meant for the peer (`Outward`) leaves what the
  peer reads alone, and changes no decision to interrupt it, with two exceptions
  that are registers of the switch and not of a machine: NTINTMSK and the entry
  behind NTMTBLDATA, which both machines read and write.

  * `read_after_local` is the frame of one write;
  * `interrupts_iff` reads a decision to interrupt off an `Alarm`, and
    `mask_alarm` says what a write to NTINTMSK does to those of both machines;
  * `alike_step` and `alike_run` are the two-run argument for later interrupts:
    an `Alarm` also depends on the id that the sender takes over with an
    EVENTFD_VM_ID event, which no access makes or takes back (`step_vmIdEvent`);
  * `local_isolated` puts them together.
-/
import IdtNtb.Config
import IdtNtb.Messages
import IdtNtb.Signals

namespace IdtNtb

open Runs

variable {s s' u u' s₀ : Sys} {a : Act} {t : List (Sys × Act)} {x y : Vm}

/-! ## Registers -/

/-- The outbound registers. -/
def Outbound : ConfigReg → Prop
  | .outmsg _ | .outdbellset | .ntgsignal => True
  | _ => False

/-- The registers meant for the peer: the outbound ones, and the out-of-spec window registers. -/
def Outward : ConfigReg → Prop
  | .outmsg _ | .outdbellset | .ntgsignal | .oofTpart | .oofLutoff | .oofLdata | .oofHdata
  | .oofLlimit | .oofHlimit => True
  | _ => False

/-! ## What the peer reads -/

/-- What a guest reads, GASADATA aside, is its own block, its own device and two global words. -/
theorem read_congr (hblock : s'.shm.vm y = s.shm.vm y) (hdev : s'.dev y = s.dev y)
    {addr : BitVec 64} (ha : addr ≠ ConfigReg.gasadata.addr)
    (hmask : addr ≠ ConfigReg.ntintmsk.addr ∨ s'.shm.gregs.ntIntMask = s.shm.gregs.ntIntMask)
    (htbl : addr ≠ ConfigReg.ntmtbldata.addr ∨ s'.shm.gregs.ntmtbl0 = s.shm.gregs.ntmtbl0) :
    s'.read y addr = s.read y addr := by
  unfold Sys.read ivshmemIoRead
  cases hd : ConfigReg.decode addr with
  | none => rfl
  | some r =>
    obtain rfl := ConfigReg.decode_eq_some.1 hd
    have hregs : s'.regs y = s.regs y := congrArg _ hblock
    have hbars : s'.barConfig y = s.barConfig y := congrArg _ hblock
    cases r with
    | gasadata => exact absurd rfl ha
    | ntintmsk =>
      have hm := hmask.resolve_left (fun h => h rfl)
      simp [readReg, hm]
    | ntmtbldata =>
      have ht := htbl.resolve_left (fun h => h rfl)
      show getNtMtbData (s'.ctx y) = getNtMtbData (s.ctx y)
      unfold getNtMtbData
      rw [Sys.ctx_dev, Sys.ctx_gregs, hdev, ht]
      rfl
    | _ => simp [readReg, hregs, hbars, hdev]

/-- A write that is not meant for the peer leaves the peer's block alone. -/
theorem writeReg_local {c c' : Ctx x} {r : ConfigReg} {v : BitVec 64} (hr : ¬ Outward r)
    (h : writeReg c r v = .ok c') : c'.shm.vm x.other = c.shm.vm x.other := by
  cases r with
  | outmsg | outdbellset | ntgsignal | oofTpart | oofLutoff | oofLdata | oofHdata | oofLlimit
  | oofHlimit => exact absurd trivial hr
  | gasadata =>
    cases h
    simp only [writeGasadata]
    split <;> simp [Ctx.modRegs, Ctx.modGregs]
  | ntmtbldata =>
    cases h
    simp only [setNtMtbData]
    split_ifs <;> simp [Ctx.modGregs]
  | _ =>
    cases h
    simp [Ctx.modRegs, Ctx.modGregs, Ctx.modLregs, Ctx.setBar]

/-- The value that a step stores into NTINTMSK. -/
def maskStored (e : Sys × Act) : Option (BitVec 32) :=
  match e.2 with
  | .write _ addr v => if addr = ConfigReg.ntintmsk.addr then some v else none
  | _ => none

/-- The value that a step stores into the mapping table: NTMTBLADDR names its first entry. -/
def tableStored (e : Sys × Act) : Option (BitVec 32) :=
  match e.2 with
  | .write x addr v =>
    if addr = ConfigReg.ntmtbldata.addr ∧ (e.1.lregs x).ntMtbAddr = 0 then some v else none
  | _ => none

theorem maskStored_noWrite (ha : a.NoWrite) : maskStored (s, a) = none := by
  unfold maskStored
  cases a with
  | write x addr v => exact if_neg fun h => ha x .ntintmsk v (by rw [h])
  | _ => rfl

theorem tableStored_noWrite (ha : a.NoWrite) : tableStored (s, a) = none := by
  unfold tableStored
  cases a with
  | write x addr v => exact if_neg fun h => ha x .ntmtbldata v (by rw [h.1])
  | _ => rfl

/-- NTINTMSK after a step. -/
theorem step_mask (h : Step s a s') :
    s'.shm.gregs.ntIntMask = (maskStored (s, a)).getD s.shm.gregs.ntIntMask := by
  rcases step_gregs h with ⟨x, r, v, rfl, hg⟩ | ⟨ha, hg⟩
  · rw [hg]
    unfold Ctx.gregsAfter maskStored
    cases r with
    | gasadata => dsimp only; split <;> simp
    | ntmtbldata => dsimp only; split_ifs <;> simp_all
    | _ => simp
  · rw [hg, maskStored_noWrite ha]
    rfl

/-- The mapping table after a step. -/
theorem step_table (h : Step s a s') :
    s'.shm.gregs.ntmtbl0 = (tableStored (s, a)).getD s.shm.gregs.ntmtbl0 := by
  rcases step_gregs h with ⟨x, r, v, rfl, hg⟩ | ⟨ha, hg⟩
  · rw [hg]
    unfold Ctx.gregsAfter tableStored
    cases r with
    | gasadata => dsimp only; split <;> simp
    | ntmtbldata =>
      by_cases h0 : (s.lregs x).ntMtbAddr = 0
      · have h0' : (s.ctx x).dev.lregs.ntMtbAddr = 0 := h0
        dsimp only
        rw [if_pos h0', if_pos ⟨rfl, h0⟩]
        simp
      · have h0' : ¬ (s.ctx x).dev.lregs.ntMtbAddr = 0 := h0
        dsimp only
        rw [if_neg h0', if_neg fun h => h0 h.2]
        rfl
    | _ => simp
  · rw [hg, tableStored_noWrite ha]
    rfl

/-- A write that is not meant for the peer leaves the peer's block alone. -/
theorem local_block {addr : BitVec 64} {v : BitVec 32} (h : Step s (.write x addr v) s')
    (haddr : ∀ r : ConfigReg, addr = r.addr → ¬ Outward r) :
    s'.shm.vm x.other = s.shm.vm x.other := by
  rcases next_cases h with ⟨z, r, w, c, ha, hc, hshm, -⟩ | ⟨-, hshm, -⟩
  · simp only [Act.write.injEq] at ha
    obtain ⟨rfl, rfl, rfl⟩ := ha
    rw [hshm, writeReg_local (haddr r rfl) hc]
    rfl
  · rw [hshm]

/-- **The frame of one write**: what the peer reads is unchanged, except through the two global
    registers. -/
theorem read_after_local {addr : BitVec 64} {v : BitVec 32} (h : Step s (.write x addr v) s')
    (haddr : ∀ r : ConfigReg, addr = r.addr → ¬ Outward r) {addr' : BitVec 64}
    (ha : addr' ≠ ConfigReg.gasadata.addr)
    (hmask : addr' = ConfigReg.ntintmsk.addr → addr ≠ ConfigReg.ntintmsk.addr)
    (htbl : addr' = ConfigReg.ntmtbldata.addr → addr ≠ ConfigReg.ntmtbldata.addr) :
    s'.read x.other addr' = s.read x.other addr' := by
  have hguest : (Act.write x addr v).guest = some x := rfl
  refine read_congr (local_block h haddr) (step_guest_other hguest h (Vm.other_ne x)) ha ?_ ?_
  · by_cases hm : addr' = ConfigReg.ntintmsk.addr
    · refine Or.inr ?_
      rw [step_mask h]
      simp [maskStored, hmask hm]
    · exact Or.inl hm
  · by_cases hm : addr' = ConfigReg.ntmtbldata.addr
    · refine Or.inr ?_
      rw [step_table h]
      simp [tableStored, htbl hm]
    · exact Or.inl hm

/-! ## What interrupts the peer -/

/-- What decides whether an outbound write interrupts the peer, now and later. -/
structure Alarm where
  /-- NTINTMSK -/
  mask : BitVec 32
  /-- INMSGSTSn of the peer -/
  full : Fin 4 → Bool
  /-- MSGSTSMSK of the peer -/
  msgMask : BitVec 64
  /-- the peer's id, as the sender knows it -/
  peer : ℤ
  /-- the id in the peer's block, which the sender takes over with an EVENTFD_VM_ID event -/
  peerId : BitVec 32

def alarm (x : Vm) (s : Sys) : Alarm where
  mask := s.shm.gregs.ntIntMask
  full n := (s.regs x.other).msgsts.getLsbD (16 + n)
  msgMask := (s.regs x.other).msgstsMask
  peer := (s.dev x).otherVmId
  peerId := (s.shm.vm x.other).id

/-- An outbound write signals the peer. -/
def Alarm.Rings (A : Alarm) (r : ConfigReg) (v : BitVec 32) : Prop :=
  match r with
  | .outmsg n => ¬ A.full n = true ∧ A.peer ≠ -1 ∧
      ~~~A.msgMask &&& (fldInmsgsts n).setWidth 64 ≠ 0 ∧ ~~~A.mask &&& ntintstsMsg ≠ 0
  | .outdbellset => A.peer ≠ -1 ∧ ~~~A.mask &&& ntintstsDbell ≠ 0
  | .ntgsignal => v.setWidth 64 = (1 : BitVec 64) ∧ ~~~A.mask &&& ntintstsSevent ≠ 0
  | _ => False

/-- The device of `x` signals its peer's interrupt notifier when its guest writes `v` to `r`. -/
def Interrupts (x : Vm) (s : Sys) (r : ConfigReg) (v : BitVec 32) : Prop :=
  ∃ c, ivshmemIoWrite (s.ctx x) r.addr (v.setWidth 64) = .ok c ∧
    Effect.eventSet (s.dev x).otherVmId eventfdInterruptHost ∈ c.out

theorem interrupts_iff {r : ConfigReg} (hr : Outbound r) (v : BitVec 32) :
    Interrupts x s r v ↔ (alarm x s).Rings r v := by
  unfold Interrupts
  simp only [ivshmemIoWrite_addr]
  cases r with
  | outmsg n =>
    have hrings : (alarm x s).Rings (.outmsg n) v ↔ ¬ (s.ctx x).PeerFull n ∧
        (s.ctx x).dev.otherVmId ≠ -1 ∧ (s.ctx x).MessageArmed n := Iff.rfl
    rw [hrings]
    simp only [writeReg, Except.ok.injEq, exists_eq_left']
    by_cases hf : (s.ctx x).PeerFull n
    · rw [writeOutboundMsg_refused _ n _ hf]
      simp [hf]
    by_cases hid : (s.ctx x).dev.otherVmId = -1
    · rw [writeOutboundMsg_lost _ n _ hf hid]
      simp only [Sys.ctx_dev] at hid
      simp [hid]
    · rw [writeOutboundMsg_accepted _ n _ hf hid, Sys.ctx_dev, Ctx.mem_emitIf_out]
      simp only [Sys.ctx_dev] at hid
      simp [hf, hid]
  | outdbellset =>
    have hrings : (alarm x s).Rings .outdbellset v ↔
        (s.ctx x).dev.otherVmId ≠ -1 ∧ (s.ctx x).DoorbellArmed := Iff.rfl
    rw [hrings, writeReg_outdbellset]
    simp
  | ntgsignal =>
    have hrings : (alarm x s).Rings .ntgsignal v ↔
        v.setWidth 64 = (1 : BitVec 64) ∧ (s.ctx x).SignalArmed := Iff.rfl
    rw [hrings, writeReg_ntgsignal]
    by_cases hv : v.setWidth 64 = (1 : BitVec 64)
    · rw [if_pos hv]
      simp only [Except.ok.injEq, exists_eq_left', Sys.ctx_dev, Ctx.mem_emitIf_out]
      simp [hv]
    · rw [if_neg hv]
      constructor
      · rintro ⟨c, hc, -⟩
        cases hc
      · intro h
        exact absurd h.1 hv
  | _ => exact hr.elim

/-! ### Stores past the BAR entries

    A selector of 6 or more sends an out-of-spec store to some word of the shared structure: the
    same word, with the same value, in both of two states that are alike. -/

/-- The part of `alarm` that lies in the peer's block. -/
def watch (b : IdtIvshmemVmShmStorage) : BitVec 32 × (Fin 4 → Bool) × BitVec 64 :=
  (b.id, fun n => b.regs.msgsts.getLsbD (16 + n), b.regs.msgstsMask)

theorem setHalf_bit {v w : BitVec 64} (n : Fin 4) (high : Bool) (z : BitVec 32)
    (h : v.getLsbD (16 + n) = w.getLsbD (16 + n)) :
    (setHalf v high z).getLsbD (16 + n) = (setHalf w high z).getLsbD (16 + n) := by
  have hn : 16 + n.val < 32 := by omega
  have hlow : ∀ a b : BitVec 32, (a ++ b).getLsbD (16 + n) = b.getLsbD (16 + n) := by
    intro a b
    rw [BitVec.getLsbD_append]
    simp [hn]
  cases high with
  | false => exact (hlow _ _).trans (hlow _ _).symm
  | true =>
    refine (hlow _ _).trans (Eq.trans ?_ (hlow _ _).symm)
    simp [h]

theorem watch_storeRegs {b b' : IdtIvshmemVmShmStorage} (h : watch b = watch b') (k : ℕ)
    (z : BitVec 32) : watch { b with regs := b.regs.storeWord k z } =
      watch { b' with regs := b'.regs.storeWord k z } := by
  simp only [watch, Prod.mk.injEq] at h ⊢
  obtain ⟨hid, hfull, hmask⟩ := h
  refine ⟨hid, ?_⟩
  rcases k with _ | _ | _ | k
  · exact ⟨hfull, hmask⟩
  · exact ⟨hfull, hmask⟩
  · exact ⟨hfull, hmask⟩
  · simp only [IdtSharedRegisters.storeWord]
    split
    case h_2 => exact ⟨funext fun n => setHalf_bit n _ z (congrFun hfull n), hmask⟩
    case h_3 => exact ⟨hfull, by rw [hmask]⟩
    all_goals exact ⟨hfull, hmask⟩

theorem watch_storeBlock {b b' : IdtIvshmemVmShmStorage} (h : watch b = watch b') (k : ℕ)
    (z : BitVec 32) : watch (b.storeWord k z) = watch (b'.storeWord k z) := by
  unfold IdtIvshmemVmShmStorage.storeWord
  split_ifs
  · have hregs : (watch b).2 = (watch b').2 := congrArg Prod.snd h
    exact Prod.ext rfl hregs
  · exact watch_storeRegs h _ z
  · exact h

theorem watch_storeWord {m m' : IdtIvshmemShmStorage} (h : watch (m.vm y) = watch (m'.vm y))
    (k : ℕ) (z : BitVec 32) : watch ((m.storeWord k z).vm y) = watch ((m'.storeWord k z).vm y) := by
  have hmod : ∀ (x : Vm) (j : ℕ), watch ((m.modVm x (·.storeWord j z)).vm y) =
      watch ((m'.modVm x (·.storeWord j z)).vm y) := by
    intro x j
    by_cases hy : y = x
    · subst hy
      rw [IdtIvshmemShmStorage.modVm_self, IdtIvshmemShmStorage.modVm_self]
      exact watch_storeBlock h j z
    · rw [IdtIvshmemShmStorage.modVm_of_ne _ hy, IdtIvshmemShmStorage.modVm_of_ne _ hy]
      exact h
  unfold IdtIvshmemShmStorage.storeWord
  split_ifs
  · exact h
  · exact hmod _ _
  · exact hmod _ _
  · exact h

/-- The block of the peer, in as far as it decides about interrupts, after the same action. -/
theorem watch_step (h : Step s a s') (h' : Step u a u') (heq : alarm x s = alarm x u)
    (hsel : ∀ z, (s.lregs z).inboundMwBar = (u.lregs z).inboundMwBar) :
    watch (s'.shm.vm x.other) = watch (u'.shm.vm x.other) := by
  simp only [alarm, Alarm.mk.injEq] at heq
  obtain ⟨-, hfull, hmsg, hpeer, hid⟩ := heq
  by_cases hoof : ∃ z r v, a = .write z (ConfigReg.addr r) v ∧ OofData r
  · -- the same store in both states
    obtain ⟨z, r, v, rfl, hr⟩ := hoof
    obtain ⟨c, hc, hshm, -⟩ := step_write h
    obtain ⟨d, hd, hshm', -⟩ := step_write h'
    have hw : watch (s.shm.vm x.other) = watch (u.shm.vm x.other) :=
      Prod.ext hid (Prod.ext hfull hmsg)
    have hz : (s.dev z).lregs.inboundMwBar = (u.dev z).lregs.inboundMwBar := hsel z
    rw [hshm, hshm']
    cases r with
    | oofLdata | oofHdata | oofLlimit | oofHlimit =>
      cases hc
      cases hd
      simp only [Ctx.setPeerBar, IdtIvshmemShmStorage.storeBar, Sys.ctx_shm, Sys.ctx_dev, hz]
      exact watch_storeWord hw _ _
    | _ => exact hr.elim
  · have hnot : ∀ s : Sys, s.SelFor a := fun s z r v hw hr => absurd ⟨z, r, v, hw, hr⟩ hoof
    refine Prod.ext ?_ (Prod.ext (funext fun n => ?_) ?_)
    · show (s'.shm.vm x.other).id = (u'.shm.vm x.other).id
      rw [step_id (hnot s) h, step_id (hnot u) h', hid]
    · have hn := congrFun hfull n
      show (s'.regs x.other).msgsts.getLsbD (16 + n) = (u'.regs x.other).msgsts.getLsbD (16 + n)
      rw [Bool.eq_iff_iff, ← full_iff, ← full_iff] at hn ⊢
      rw [step_full (hnot s) h, step_full (hnot u) h', hn, Vm.other_other, hpeer]
    · have h1 := step_config (hnot s) h x.other .msgstsmsk
      have h2 := step_config (hnot u) h' x.other .msgstsmsk
      rw [read_plain, read_plain] at h1 h2
      have hst : stored x.other .msgstsmsk (s, a) = stored x.other .msgstsmsk (u, a) := by
        simp [stored, PlainReg.Selected]
      simp only [PlainReg.get, hst, hmsg] at h1 h2
      show (s'.regs x.other).msgstsMask = (u'.regs x.other).msgstsMask
      rw [h1, h2]

/-! ### EVENTFD_VM_ID events -/

/-- The slot `k` of an entry holds the descriptor of vector `k`, as the server sends them. -/
def Sys.Numbered (s : Sys) : Prop :=
  ∀ z posn k fd, (s.dev z).notifier posn k = .ok (some fd) → fd.vector = k

theorem Sys.Numbered.congr (hn : s.Numbered) (h : ∀ z, (u.dev z).peers = (s.dev z).peers) :
    u.Numbered := by
  intro z posn k fd hfd
  rw [notifier_congr (h z)] at hfd
  exact hn z posn k fd hfd

theorem Sys.Numbered.step (hn : s.Numbered) (h : Step s a s') : s'.Numbered :=
  hn.congr fun z => (step_peers h z).1

/-- A device looks at `fd`, which is one of its own notifiers. -/
def Sys.LooksAt (s : Sys) (fd : Fd) (a : Act) : Prop :=
  ∃ y vector, a = .notify y vector ∧ (s.dev y).notifier (s.dev y).vmId vector = .ok (some fd)

/-- What a device leaves of the events when it looks at one of its notifiers. -/
theorem step_notify {vector : ℕ} (h : Step s (.notify y vector) s') :
    ∃ n, (s.dev y).notifier (s.dev y).vmId vector = .ok n ∧
      s'.pending = (s.testAndClear n).pending ∧ (s'.dev y).otherVmId =
        if n.any s.pending = true ∧ vector = eventfdVmId then (s.shm.vm y.other).id.toInt
        else (s.dev y).otherVmId := by
  obtain ⟨out, h⟩ := Sys.next_ok.1 h
  obtain ⟨n, hn, h⟩ := bind_ok.1 h
  obtain ⟨c, hc, hf⟩ := bind_ok.1 h
  obtain ⟨entry, -, hn⟩ := bind_ok.1 hn
  split_ifs at hn with hpdev
  obtain ⟨-, hsig, hdev⟩ := ivshmemVectorNotify_spec hc
  refine ⟨n, hn, finish_silent hsig hf, ?_⟩
  obtain ⟨pending, -, rfl, -⟩ := Sys.finish_ok.1 hf
  simp only [Function.update_self, hdev]
  rfl

/-- **An EVENTFD_VM_ID event** is neither made nor taken back by an access: it is there until a device
    looks at it. -/
theorem step_vmIdEvent (hn : s.Numbered) (h : Step s a s') {fd : Fd} (hfd : fd.vector = eventfdVmId) :
    s'.pending fd = true ↔ s.pending fd = true ∧ ¬ s.LooksAt fd a := by
  cases ha : a.guest with
  | some z =>
    have hlooks : ¬ s.LooksAt fd a := by
      rintro ⟨y, vector, rfl, -⟩
      cases ha
    rw [and_iff_left hlooks]
    rcases access_delivers ha h with ⟨-, o, ho, ⟨-, hp⟩ | ⟨fd', rfl, hp⟩⟩ | ⟨-, hp⟩
    · rw [hp]
    · -- what is signalled is of another vector
      have hne : fd ≠ fd' := by
        rintro rfl
        have hvec := hn z _ _ _ ho
        rw [hfd] at hvec
        cases hvec
      rw [hp, Function.update_of_ne hne]
    · rw [hp]
  | none =>
    cases a with
    | notify y vector =>
      obtain ⟨n, hslot, hp, -⟩ := step_notify h
      have hlooks : s.LooksAt fd (.notify y vector) ↔ n = some fd := by
        constructor
        · rintro ⟨y', vector', hy, hslot'⟩
          simp only [Act.notify.injEq] at hy
          obtain ⟨rfl, rfl⟩ := hy
          exact Except.ok.inj (hslot.symm.trans hslot')
        · rintro rfl
          exact ⟨y, vector, rfl, hslot⟩
      rw [hp, hlooks]
      cases n with
      | none => simp [Sys.testAndClear]
      | some fd' =>
        rcases eq_or_ne fd fd' with rfl | hne
        · simp [Sys.testAndClear]
        · simp [Sys.testAndClear, hne, Ne.symm hne]
    | _ => cases ha

/-! ### Two runs -/

/-- Two states in which the same writes of `x` interrupt the peer, now and later. -/
structure Alike (x : Vm) (s u : Sys) : Prop where
  alarms : alarm x s = alarm x u
  selector : ∀ z, (s.lregs z).inboundMwBar = (u.lregs z).inboundMwBar
  table : ∀ z, (s.dev z).peers = (u.dev z).peers ∧ (s.dev z).vmId = (u.dev z).vmId
  event : ∀ fd : Fd, fd.vector = eventfdVmId → s.pending fd = u.pending fd

theorem Alike.notifier (heq : Alike x s u) (z : Vm) (vector : ℕ) :
    (s.dev z).notifier (s.dev z).vmId vector = (u.dev z).notifier (u.dev z).vmId vector := by
  rw [notifier_congr (heq.table z).1, (heq.table z).2]

theorem Alike.looksAt (heq : Alike x s u) (fd : Fd) : s.LooksAt fd a ↔ u.LooksAt fd a := by
  unfold Sys.LooksAt
  simp only [heq.notifier]

/-- The peer's id, as the sender knows it after the same action. -/
theorem Alike.otherVmId (heq : Alike x s u) (hn : s.Numbered) (h : Step s a s') (h' : Step u a u') :
    (s'.dev x).otherVmId = (u'.dev x).otherVmId := by
  have hpeer : (s.dev x).otherVmId = (u.dev x).otherVmId := congrArg Alarm.peer heq.alarms
  by_cases ha : a = .notify x eventfdVmId
  · subst ha
    obtain ⟨n, hslot, -, hid⟩ := step_notify h
    obtain ⟨n', hslot', -, hid'⟩ := step_notify h'
    obtain rfl : n = n' := Except.ok.inj (hslot.symm.trans ((heq.notifier x _).trans hslot'))
    have hany : n.any s.pending = n.any u.pending := by
      cases n with
      | none => rfl
      | some fd => exact heq.event fd (hn x _ _ fd hslot)
    have hblock : (s.shm.vm x.other).id = (u.shm.vm x.other).id := congrArg Alarm.peerId heq.alarms
    rw [hid, hid', hany, hblock, hpeer]
  · rw [step_otherVmId h ha, step_otherVmId h' ha, hpeer]

/-- **The same action keeps two states alike.** -/
theorem alike_step (hn : s.Numbered) (h : Step s a s') (h' : Step u a u') (heq : Alike x s u) :
    Alike x s' u' where
  alarms := by
    have hwatch := watch_step h h' heq.alarms heq.selector
    simp only [alarm, Alarm.mk.injEq]
    refine ⟨?_, congrArg (·.2.1) hwatch, congrArg (·.2.2) hwatch, heq.otherVmId hn h h',
      congrArg Prod.fst hwatch⟩
    have hmask : s.shm.gregs.ntIntMask = u.shm.gregs.ntIntMask := congrArg Alarm.mask heq.alarms
    rw [step_mask h, step_mask h', hmask]
    rfl
  selector z := by
    rw [step_selector h, step_selector h', heq.selector z]
  table z := by
    obtain ⟨hpeers, hid, -⟩ := step_peers h z
    obtain ⟨hpeers', hid', -⟩ := step_peers h' z
    rw [hpeers, hid, hpeers', hid']
    exact heq.table z
  event fd hfd := by
    have hn' : u.Numbered := hn.congr fun z => (heq.table z).1.symm
    rw [Bool.eq_iff_iff, step_vmIdEvent hn h hfd, step_vmIdEvent hn' h' hfd, heq.looksAt,
      heq.event fd hfd]

/-- Nothing is signalled by a write that is not outbound. -/
theorem local_pending {addr : BitVec 64} {v : BitVec 32} (h : Step s (.write x addr v) s')
    (haddr : ∀ r : ConfigReg, addr = r.addr → ¬ Outward r) : s'.pending = s.pending := by
  have hguest : (Act.write x addr v).guest = some x := rfl
  rcases access_delivers hguest h with ⟨⟨r, w, ha, halert⟩, -⟩ | ⟨-, hp⟩
  · simp only [Act.write.injEq] at ha
    refine absurd ?_ (haddr r ha.2.1)
    cases r with
    | outmsg | outdbellset | ntgsignal => trivial
    | _ => exact halert.elim
  · exact hp

/-- A write that is not meant for the peer, and not to NTINTMSK, keeps the state alike. -/
theorem alike_local {addr : BitVec 64} {v : BitVec 32} (h : Step s (.write x addr v) s')
    (haddr : ∀ r : ConfigReg, addr = r.addr → ¬ Outward r) (hmask : addr ≠ ConfigReg.ntintmsk.addr) :
    Alike x s s' where
  alarms := by
    have hblock : s'.shm.vm x.other = s.shm.vm x.other := local_block h haddr
    simp only [alarm, Alarm.mk.injEq, Sys.regs, hblock, true_and, and_true]
    refine ⟨?_, (step_otherVmId h fun ha => by cases ha).symm⟩
    rw [step_mask h]
    simp [maskStored, hmask]
  selector z := by
    rw [step_selector h, selAfter, if_neg]
    rintro ⟨-, ha⟩
    exact haddr _ ha trivial
  table z := ⟨(step_peers h z).1.symm, (step_peers h z).2.1.symm⟩
  event fd _ := by rw [local_pending h haddr]

theorem alike_run {t t' : List (Sys × Act)} (hn : s.Numbered) (heq : Alike x s u)
    (h : Run Step s t s') (h' : Run Step u t' u') (ht : t.map Prod.snd = t'.map Prod.snd) :
    Alike x s' u' := by
  refine (Run.unwind (R := fun s u => Alike x s u ∧ s.Numbered) ⟨heq, hn⟩ h h' ht ?_).1
  rintro e he e' - ha ⟨hal, hnum⟩ s₁ u₁ h1 h2
  exact ⟨alike_step hnum h1 (ha ▸ h2) hal, hnum.step h1⟩

/-! ### The mask of the switch -/

/-- **A mask written to NTINTMSK** is the one that decides about the interrupts of both machines. -/
theorem mask_alarm {v : BitVec 32} (h : Step s (.write x ConfigReg.ntintmsk.addr v) s') (y : Vm) :
    alarm y s' = { alarm y s with mask := v } := by
  obtain ⟨c, hc, hshm, hdev⟩ := step_write h
  cases hc
  have hblock : ∀ z, s'.shm.vm z = s.shm.vm z := fun z => by rw [hshm]; rfl
  simp only [alarm, Alarm.mk.injEq, Sys.regs, hblock, true_and, and_true]
  refine ⟨?_, step_otherVmId h fun ha => by cases ha⟩
  rw [step_mask h]
  simp [maskStored]

/-- **A machine's configuration does not reach the other**, apart from the two registers of the
    switch, which hold what either machine stored last. -/
theorem local_isolated {addr : BitVec 64} {v : BitVec 32} (h : Step s (.write x addr v) s')
    (haddr : ∀ r : ConfigReg, addr = r.addr → ¬ Outward r) :
    -- what the peer reads
    (∀ addr', addr' ≠ ConfigReg.gasadata.addr →
      (addr' = ConfigReg.ntintmsk.addr → addr ≠ ConfigReg.ntintmsk.addr) →
      (addr' = ConfigReg.ntmtbldata.addr → addr ≠ ConfigReg.ntmtbldata.addr) →
      s'.read x.other addr' = s.read x.other addr') ∧
    -- whether a later outbound write interrupts the peer
    (addr ≠ ConfigReg.ntintmsk.addr → s.Numbered → ∀ t t' u u', Run Step s t u → Run Step s' t' u' →
      t.map Prod.snd = t'.map Prod.snd → ∀ r, Outbound r → ∀ w,
      (Interrupts x u r w ↔ Interrupts x u' r w)) ∧
    -- the mask of the switch decides about the interrupts of both machines
    (addr = ConfigReg.ntintmsk.addr → ∀ y r, Outbound r → ∀ w,
      (Interrupts y s' r w ↔ { alarm y s with mask := v }.Rings r w)) ∧
    -- what the registers of the switch hold
    (∀ s₀ t u, Run Step s₀ t u → ∀ y,
      u.read y ConfigReg.ntintmsk.addr =
        ((t.filterMap maskStored).getLast?.getD s₀.shm.gregs.ntIntMask).setWidth 64 ∧
      u.read y ConfigReg.ntmtbldata.addr = if (u.lregs y).ntMtbAddr = 0 then
        ((t.filterMap tableStored).getLast?.getD s₀.shm.gregs.ntmtbl0).setWidth 64 else 0) := by
  refine ⟨fun addr' => read_after_local h haddr, ?_, ?_, ?_⟩
  · intro hmask hn t t' u u' hu hu' ht r hr w
    have hal := alike_run hn (alike_local h haddr hmask) hu hu' ht
    rw [interrupts_iff hr, interrupts_iff hr, hal.alarms]
  · rintro rfl y r hr w
    rw [interrupts_iff hr, mask_alarm h]
  · intro s₀ t u hu y
    constructor
    · have hm := Run.register maskStored (fun s => s.shm.gregs.ntIntMask) hu
        fun e _ s' hst => step_mask hst
      rw [Sys.read_addr, ← hm]
      rfl
    · have hm := Run.register tableStored (fun s => s.shm.gregs.ntmtbl0) hu
        fun e _ s' hst => step_table hst
      rw [Sys.read_addr, ← hm]
      rfl

theorem numbered_started : Sys.started.Numbered := by
  have hslot : ∀ (z : Vm) (i k : ℕ) (fd : Fd),
      (Sys.started.dev z).notifier i k = .ok (some fd) → fd.vector = k := by
    intro z i k fd h
    have hz : (Sys.started.dev z).notifier i k = (Sys.started.dev .vm1).notifier i k := by
      cases z <;> rfl
    rw [hz] at h
    rcases i with _ | _ | i <;> rcases k with _ | _ | k <;> cases h <;> rfl
  intro z posn k fd h
  cases posn with
  | ofNat i => exact hslot z i k fd h
  | negSucc i => cases h

/-- The first machine is told of an id again. -/
def toldAgain : List Act := [.notify .vm1 eventfdVmId, .write .vm1 (ConfigReg.outmsg 0).addr 3]

theorem local_isolated_started : ∃ s' u u',
    Step Sys.started (.write .vm1 ConfigReg.ntmtbldata.addr 9) s' ∧
    exec Sys.next Sys.started toldAgain = .ok u ∧ exec Sys.next s' toldAgain = .ok u' ∧
    s'.read .vm2 ConfigReg.ntintmsk.addr = Sys.started.read .vm2 ConfigReg.ntintmsk.addr ∧
    (Interrupts .vm1 u .outdbellset 1 ↔ Interrupts .vm1 u' .outdbellset 1) := by
  obtain ⟨s', u, u', hs, hu, hu'⟩ : ∃ s' u u',
      Step Sys.started (.write .vm1 ConfigReg.ntmtbldata.addr 9) s' ∧
      exec Sys.next Sys.started toldAgain = .ok u ∧ exec Sys.next s' toldAgain = .ok u' :=
    ⟨_, _, _, rfl, rfl, rfl⟩
  obtain ⟨hread, hlater, -⟩ := local_isolated hs fun r hr => by
    obtain rfl := ConfigReg.addr_injective hr
    exact not_false
  refine ⟨s', u, u', hs, hu, hu', hread _ (by decide) (by decide) (by decide), ?_⟩
  refine hlater (by decide) numbered_started _ _ u u' (Run.of_exec hu) (Run.of_exec hu') ?_
    .outdbellset trivial 1
  rw [map_snd_trace hu, map_snd_trace hu']

/-- **The interrupt mask is not a machine's own**: the first one masks the interrupts of the second
    and changes what it reads. -/
theorem ntintmsk_shared : ¬ ∀ s', Step Sys.started (.write .vm1 ConfigReg.ntintmsk.addr 0) s' →
    ∀ addr, addr ≠ ConfigReg.gasadata.addr → s'.read .vm2 addr = Sys.started.read .vm2 addr := by
  intro hall
  have := hall _ rfl ConfigReg.ntintmsk.addr (by decide)
  exact absurd this (by decide)

end IdtNtb
