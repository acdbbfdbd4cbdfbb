/-
  Message registers.

  OUTMSGn of one machine, INMSGn, INMSGSRCn and INMSGSTSn of the other are a
  one-place mailbox: its content is `slot`, and `mail` names what a step does to
  it.  `mail_step` is the simulation, and everything about the history of a box
  is then `Mailbox`'s:

  * `message_mailbox`: no accepted message is overwritten, lost, doubled or
    reordered, and a refused one leaves the receiver alone;
  * `outmsg_outcome`: a write is delivered or refused, except while the sender
    does not know its peer: then the value is lost (`outmsg_unconnected`).
-/
import IdtNtb.Lib.Mailbox
import IdtNtb.System

namespace IdtNtb

open Function (update)
open Runs Mailbox

variable {s s' s₀ : Sys} {a : Act} {t : List (Sys × Act)} {x y : Vm} {n : Fin 4}

/-! ## The mailbox of a message register -/

/-- INMSGSTSn, as the guest of `y` reads it. -/
def Full (y : Vm) (n : Fin 4) (s : Sys) : Prop :=
  (s.read y ConfigReg.msgsts.addr).getLsbD (16 + n) = true

instance (y : Vm) (n : Fin 4) (s : Sys) : Decidable (Full y n s) := inferInstanceAs (Decidable (_ = _))

/-- INMSGn and INMSGSRCn, as the guest of `y` reads them. -/
def inbox (y : Vm) (n : Fin 4) (s : Sys) : BitVec 64 × BitVec 64 :=
  (s.read y (ConfigReg.inmsg n).addr, s.read y (ConfigReg.inmsgsrc n).addr)

/-- The content of the mailbox. -/
def slot (y : Vm) (n : Fin 4) (s : Sys) : Option (BitVec 64 × BitVec 64) :=
  if Full y n s then some (inbox y n s) else none

/-- What a step does to the mailbox: an OUTMSGn write of the sender that finds it empty puts the
    value and the sender's partition, an INMSGn read of the receiver looks at it, and a MSGSTS write
    with bit 16+n releases it. -/
def mail (y : Vm) (n : Fin 4) (e : Sys × Act) : Ev (BitVec 64 × BitVec 64) :=
  match e.2 with
  | .read x addr =>
    if x = y ∧ addr = (ConfigReg.inmsg n).addr ∧ Full y n e.1 then .get (inbox y n e.1) else .skip
  | .write x addr v =>
    if x = y.other ∧ addr = (ConfigReg.outmsg n).addr ∧ ¬ Full y n e.1 then
      .put (v.setWidth 64, (e.1.regs y.other).inboundMwPart.setWidth 64)
    else if x = y ∧ addr = ConfigReg.msgsts.addr ∧ v.getLsbD (16 + n) = true ∧ Full y n e.1 then
      .release
    else .skip
  | _ => .skip

theorem full_iff : Full y n s ↔ (s.regs y).msgsts.getLsbD (16 + n) = true := by
  unfold Full
  rw [Sys.read_addr]
  rfl

/-- The part of a machine's registers that the mailbox is made of. -/
def box (n : Fin 4) (r : IdtSharedRegisters) : Bool × BitVec 64 × BitVec 64 :=
  (r.msgsts.getLsbD (16 + n), r.msg n, r.inbMsgSrc n)

theorem slot_eq : slot y n s =
    if (box n (s.regs y)).1 then some (box n (s.regs y)).2 else none := by
  unfold slot inbox
  simp only [full_iff, Sys.read_addr]
  rfl

theorem slot_of_box (h : box n (s'.regs y) = box n (s.regs y)) : slot y n s' = slot y n s := by
  rw [slot_eq, slot_eq, h]

/-! ## One step -/

/-- The device's own writes touch the mailbox only at MSGSTS. -/
theorem regsAfter_box (c : Ctx x) {r : ConfigReg} (hr : r ≠ .msgsts) (v : BitVec 64) :
    box n (c.regsAfter r v) = box n c.regs := by
  unfold Ctx.regsAfter box
  cases r with
  | msgsts => exact absurd rfl hr
  | outmsg i =>
    dsimp only
    by_cases hf : c.PeerFull i
    · rw [if_pos hf, getLsbD_or_fldOutmsgsts i.isLt]
      have hi : 16 + n.val ≠ i.val := by omega
      simp [hi]
    · rw [if_neg hf]
  | gasadata => dsimp only; split <;> rfl
  | _ => rfl

/-- The peer's writes touch it only at OUTMSGn. -/
theorem peerRegsAfter_box (c : Ctx x) {r : ConfigReg} (hr : r ≠ .outmsg n) (v : BitVec 64) :
    box n (c.peerRegsAfter r v) = box n c.peerRegs := by
  unfold Ctx.peerRegsAfter box
  cases r with
  | outmsg i =>
    have hi : n ≠ i := fun h => hr (h ▸ rfl)
    have hbit : n.val ≠ i.val := fun h => hi (Fin.ext h)
    dsimp only
    by_cases hf : c.PeerFull i
    · rw [if_pos hf]
    by_cases hid : c.dev.otherVmId = -1
    · rw [if_neg hf, if_pos hid]
      simp [hi]
    · rw [if_neg hf, if_neg hid]
      simp [hi, hbit, getLsbD_or_fldInmsgsts i.isLt]
  | _ => rfl

theorem mail_own (r : ConfigReg) (v : BitVec 32) : mail y n (s, .write y r.addr v) =
    if r = .msgsts ∧ v.getLsbD (16 + n) = true ∧ Full y n s then .release else .skip := by
  simp [mail]

theorem mail_peer (r : ConfigReg) (v : BitVec 32) : mail y n (s, .write y.other r.addr v) =
    if r = .outmsg n ∧ ¬ Full y n s then
      .put (v.setWidth 64, (s.regs y.other).inboundMwPart.setWidth 64)
    else .skip := by
  simp [mail]

theorem mail_noWrite (ha : a.NoWrite) : mail y n (s, a) = .skip ∨
    (Full y n s ∧ mail y n (s, a) = .get (inbox y n s)) := by
  unfold mail
  cases a with
  | read x addr =>
    dsimp only
    by_cases hr : x = y ∧ addr = (ConfigReg.inmsg n).addr ∧ Full y n s
    · rw [if_pos hr]
      exact Or.inr ⟨hr.2.2, rfl⟩
    · rw [if_neg hr]
      exact Or.inl rfl
  | write x addr v =>
    dsimp only
    rw [if_neg fun h => ha x (.outmsg n) v (by rw [h.2.1]),
      if_neg fun h => ha x .msgsts v (by rw [h.2.1])]
    exact Or.inl rfl
  | _ => exact Or.inl rfl

/-- The receiver's own write: a MSGSTS write with bit 16+n empties the mailbox. -/
theorem slot_own {r : ConfigReg} {v : BitVec 32}
    (hr : s'.regs y = (s.ctx y).regsAfter r (v.setWidth 64)) : slot y n s' =
      if r = .msgsts ∧ v.getLsbD (16 + n) = true then none else slot y n s := by
  by_cases hm : r = .msgsts
  · subst hm
    have hn : 16 + n.val < 64 := by omega
    have hbox : box n (s'.regs y) =
        ((box n (s.regs y)).1 && !v.getLsbD (16 + n), (box n (s.regs y)).2) := by
      rw [hr]
      simp [box, Ctx.regsAfter, hn]
    rw [slot_eq, slot_eq, hbox]
    cases v.getLsbD (16 + n) <;> simp
  · rw [if_neg fun h => hm h.1]
    apply slot_of_box
    rw [hr, regsAfter_box _ hm]
    rfl

/-- The sender's write: an OUTMSGn write fills the empty mailbox. -/
theorem slot_peer {r : ConfigReg} {v : BitVec 32} (hid : (s.dev y.other).otherVmId ≠ -1)
    (hr : s'.regs y = (s.ctx y.other).peerRegsAfter r (v.setWidth 64)) : slot y n s' =
      if r = .outmsg n ∧ ¬ Full y n s then
        some (v.setWidth 64, (s.regs y.other).inboundMwPart.setWidth 64)
      else slot y n s := by
  by_cases hm : r = .outmsg n
  · subst hm
    have hiff : (s.ctx y.other).PeerFull n ↔ Full y n s := by
      unfold Ctx.PeerFull
      simp [full_iff]
    by_cases hf : Full y n s
    · rw [if_neg fun h => h.2 hf]
      apply slot_of_box
      rw [hr, Ctx.peerRegsAfter, if_pos (hiff.2 hf)]
      simp
    · have hid' : ¬ (s.ctx y.other).dev.otherVmId = -1 := hid
      rw [if_pos ⟨rfl, hf⟩, slot_eq, hr, Ctx.peerRegsAfter, if_neg fun h => hf (hiff.1 h),
        if_neg hid']
      simp [box, getLsbD_or_fldInmsgsts n.isLt]
  · rw [if_neg fun h => hm h.1]
    apply slot_of_box
    rw [hr, peerRegsAfter_box _ hm]
    simp

/-- **Every step is a step of the mailbox**, as long as the sender knows its peer. -/
theorem mail_step (hs : s.SelFor a) (hid : (s.dev y.other).otherVmId ≠ -1) (h : Step s a s') :
    Ev.Step (slot y n s) (mail y n (s, a)) (slot y n s') := by
  have hfull : Full y n s → slot y n s = some (inbox y n s) := fun hf => if_pos hf
  have hempty : ¬ Full y n s → slot y n s = none := fun hf => if_neg hf
  rcases step_block hs h y with ⟨r, v, rfl, hr, -⟩ | ⟨r, v, rfl, hr, -⟩ | ⟨ha, hr, -⟩
  · rw [mail_own, slot_own hr]
    by_cases hm : r = .msgsts ∧ v.getLsbD (16 + n) = true
    · rw [if_pos hm]
      by_cases hf : Full y n s
      · rw [if_pos ⟨hm.1, hm.2, hf⟩, hfull hf]
        exact .release _
      · rw [if_neg fun h => hf h.2.2, hempty hf]
        exact .skip _
    · rw [if_neg hm, if_neg fun h => hm ⟨h.1, h.2.1⟩]
      exact .skip _
  · rw [mail_peer, slot_peer hid hr]
    by_cases hm : r = .outmsg n ∧ ¬ Full y n s
    · rw [if_pos hm, if_pos hm, hempty hm.2]
      exact .put _
    · rw [if_neg hm, if_neg hm]
      exact .skip _
  · have hslot : slot y n s' = slot y n s := slot_of_box (by rw [hr])
    rw [hslot]
    rcases mail_noWrite (y := y) (n := n) (s := s) ha with hm | ⟨hf, hm⟩
    · rw [hm]
      exact .skip _
    · rw [hm, hfull hf]
      exact .get _

/-- INMSGSTSn after a step: the receiver clears it, and a sender that knows its peer sets it. -/
theorem step_full (hs : s.SelFor a) (h : Step s a s') : Full y n s' ↔
    (Full y n s ∧ ∀ v, a = .write y ConfigReg.msgsts.addr v → ¬ v.getLsbD (16 + n) = true) ∨
      ((∃ v, a = .write y.other (ConfigReg.outmsg n).addr v) ∧ (s.dev y.other).otherVmId ≠ -1) := by
  have hbox : ∀ s, Full y n s ↔ (box n (s.regs y)).1 = true := fun s => full_iff
  rcases step_block hs h y with ⟨r, v, rfl, hr, -⟩ | ⟨r, v, rfl, hr, -⟩ | ⟨ha, hr, -⟩
  · by_cases hm : r = .msgsts
    · subst hm
      have hn : 16 + n.val < 64 := by omega
      rw [hbox, hbox, hr]
      simp [box, Ctx.regsAfter, hn]
    · rw [hbox, hbox, hr, regsAfter_box _ hm]
      simp [hm]
  · by_cases hm : r = .outmsg n
    · subst hm
      rw [hbox, hbox, hr]
      unfold Ctx.peerRegsAfter Ctx.PeerFull
      by_cases hf : (s.regs y).msgsts.getLsbD (16 + n) = true
      · simp [box, hf]
      by_cases hid : (s.dev y.other).otherVmId = -1
      · simp [box, hf, hid]
      · simp [box, hf, hid, getLsbD_or_fldInmsgsts n.isLt]
    · rw [hbox, hbox, hr, peerRegsAfter_box _ hm]
      simp [hm]
  · have h1 : ∀ v, a ≠ .write y ConfigReg.msgsts.addr v := ha y .msgsts
    have h2 : ∀ v, a ≠ .write y.other (ConfigReg.outmsg n).addr v := ha y.other (.outmsg n)
    rw [hbox, hbox, hr]
    simp [h1, h2]

/-- A refused message changes nothing of the receiver, and the sender's OUTMSGSTSn reports it. -/
theorem refused_step {v : BitVec 32} (hf : Full y n s)
    (h : Step s (.write y.other (ConfigReg.outmsg n).addr v) s') :
    s'.shm.vm y = s.shm.vm y ∧ s'.shm.gregs = s.shm.gregs ∧ s'.dev y = s.dev y ∧
      (s'.read y.other ConfigReg.msgsts.addr).getLsbD n = true := by
  rcases next_cases h with ⟨x, r, w, c, ha, hc, hshm, hdev⟩ | ⟨ha, -, -⟩
  · simp only [Act.write.injEq, ConfigReg.addr_inj] at ha
    obtain ⟨rfl, rfl, rfl⟩ := ha
    have hfull : (s.ctx y.other).PeerFull n := by
      unfold Ctx.PeerFull
      simpa using full_iff.1 hf
    simp only [writeReg, writeOutboundMsg_refused _ n _ hfull, Except.ok.injEq] at hc
    have hne : y ≠ y.other := Vm.ne_other y
    refine ⟨?_, ?_, ?_, ?_⟩
    · rw [hshm, ← hc]
      simp [Ctx.modRegs]
    · rw [hshm, ← hc]
      simp [Ctx.modRegs]
    · rw [hdev]
      simp [hne]
    · rw [Sys.read_addr]
      simp only [readReg, Sys.ctx_regs, Sys.regs, hshm, ← hc]
      simp [Ctx.modRegs, getLsbD_or_fldOutmsgsts n.isLt]
  · exact absurd rfl (ha _ _ _)

/-! ## Whole runs -/

/-- An OUTMSGn write to `y` that finds INMSGSTSn clear. -/
def Accepts (y : Vm) (n : Fin 4) (e : Sys × Act) : Prop :=
  (∃ v, e.2 = .write y.other (ConfigReg.outmsg n).addr v) ∧ ¬ Full y n e.1

theorem mail_of_accepts {e : Sys × Act} (h : Accepts y n e) : ∃ p, mail y n e = .put p := by
  obtain ⟨s, a⟩ := e
  obtain ⟨⟨v, rfl⟩, hf⟩ := h
  exact ⟨_, by rw [mail_peer, if_pos ⟨rfl, hf⟩]⟩

theorem msgsts_of_release {e : Sys × Act} (h : mail y n e = .release) :
    ∃ v, e.2 = .write y ConfigReg.msgsts.addr v ∧ v.getLsbD (16 + n) = true := by
  unfold mail at h
  split at h
  · split_ifs at h
  · next x addr v he =>
    split_ifs at h with h1 h2
    obtain ⟨rfl, rfl, hv, -⟩ := h2
    exact ⟨v, he, hv⟩
  · cases h

/-- The mailbox along a run in which the sender knows its peer. -/
theorem mail_run (h : Run Step s₀ t s) (h0 : (s₀.regs y).msgsts = 0)
    (hid : (s₀.dev y.other).otherVmId ≠ -1) (hq : Quiet y.other t) (hsel : ∀ e ∈ t, e.1.SelOk) :
    Run Ev.Step none (t.map fun e => (slot y n e.1, mail y n e)) (slot y n s) := by
  have hempty : slot y n s₀ = none := by
    refine if_neg fun hf => ?_
    rw [full_iff, h0] at hf
    simp at hf
  rw [← hempty]
  refine h.map (slot y n) (mail y n) ?_
  intro e he s' hst
  obtain ⟨t₁, t₂, s₁, rfl, h1, -⟩ := h.fired he
  refine mail_step ((hsel e he).selFor _) ?_ hst
  rw [Quiet.otherVmId (fun e he => hq e (by simp [he])) h1]
  exact hid

/-- **The message registers are a one-place mailbox.** -/
theorem message_mailbox (h : Run Step s₀ t s) (h0 : (s₀.regs y).msgsts = 0)
    (hid : (s₀.dev y.other).otherVmId ≠ -1) (hq : Quiet y.other t) (hsel : ∀ e ∈ t, e.1.SelOk)
    (n : Fin 4) :
    -- between two accepted writes the receiver has cleared INMSGSTSn
    (∀ t₁ e₁ t₂ e₂ t₃, t = t₁ ++ e₁ :: (t₂ ++ e₂ :: t₃) → Accepts y n e₁ → Accepts y n e₂ →
      ∃ e ∈ t₂, ∃ v, e.2 = .write y ConfigReg.msgsts.addr v ∧ v.getLsbD (16 + n) = true) ∧
    -- while INMSGSTSn is set, INMSGn and INMSGSRCn hold the last message accepted
    (Full y n s → (puts (t.map (mail y n))).getLast? = some (inbox y n s)) ∧
    -- a refused write changes nothing of the receiver and sets OUTMSGSTSn
    (∀ v s', Full y n s → Step s (.write y.other (ConfigReg.outmsg n).addr v) s' →
      s'.shm.vm y = s.shm.vm y ∧ s'.shm.gregs = s.shm.gregs ∧ s'.dev y = s.dev y ∧
        (s'.read y.other ConfigReg.msgsts.addr).getLsbD n = true) ∧
    -- the messages read, one for each clear, are the first of the messages accepted
    (LooksFirst (t.map (mail y n)) →
      (taken (t.map (mail y n))).map Prod.fst <+: (puts (t.map (mail y n))).map Prod.fst) := by
  have hrun := mail_run (n := n) h h0 hid hq hsel
  have hev : events (t.map fun e => (slot y n e.1, mail y n e)) = t.map (mail y n) := by
    simp [events, Function.comp_def]
  refine ⟨?_, ?_, ?_, ?_⟩
  · rintro t₁ e₁ t₂ e₂ t₃ rfl ha₁ ha₂
    obtain ⟨p, hp⟩ := mail_of_accepts ha₁
    obtain ⟨q, hq⟩ := mail_of_accepts ha₂
    simp only [List.map_append, List.map_cons, hp, hq] at hrun
    obtain ⟨m, hm, hrel⟩ := release_between hrun
    obtain ⟨e, he, rfl⟩ := List.mem_map.1 hm
    exact ⟨e, he, msgsts_of_release hrel⟩
  · intro hf
    have hslot : slot y n s = some (inbox y n s) := if_pos hf
    rw [← hev, ← hslot]
    exact last_put hrun (by simp [hslot])
  · intro v s' hf hst
    exact refused_step hf hst
  · intro hl
    rw [← hev] at hl ⊢
    exact List.IsPrefix.map _ (taken_initial hrun hl)

/-- A message taken, a second one, and a third one that is refused. -/
def messages : List Act :=
  [.write .vm1 (ConfigReg.outmsg 0).addr 5, .read .vm2 (ConfigReg.inmsg 0).addr,
    .write .vm2 ConfigReg.msgsts.addr 0x10000, .write .vm1 (ConfigReg.outmsg 0).addr 7,
    .write .vm1 (ConfigReg.outmsg 0).addr 8]

theorem messages_mail : (trace Sys.next Sys.started messages).map (mail .vm2 0) =
    [.put (5, 0), .get (5, 0), .release, .put (7, 0), .skip] := by rfl

theorem messages_looksFirst :
    LooksFirst ((trace Sys.next Sys.started messages).map (mail .vm2 0)) := by
  rw [messages_mail]
  intro l₁ e l₂ hl he
  -- the only release is the third event, after the look at the first message
  rcases l₁ with _ | ⟨_, _ | ⟨_, _ | ⟨_, _ | ⟨_, _ | ⟨_, l₁⟩⟩⟩⟩⟩ <;>
    simp only [Ev.IsRelease, List.nil_append, List.cons_append, List.cons.injEq] at hl he <;>
    simp [he] at hl
  obtain ⟨rfl, rfl, -⟩ := hl
  exact ⟨[.put (5, 0)], _, [], rfl, ⟨_, rfl⟩, by simp⟩

theorem message_mailbox_started : ∃ s, Run Step Sys.started (trace Sys.next Sys.started messages) s ∧
    (puts ((trace Sys.next Sys.started messages).map (mail .vm2 0))).getLast? =
      some (inbox .vm2 0 s) ∧
    (taken ((trace Sys.next Sys.started messages).map (mail .vm2 0))).map Prod.fst <+:
      (puts ((trace Sys.next Sys.started messages).map (mail .vm2 0))).map Prod.fst := by
  obtain ⟨s, hs, hf⟩ : ∃ s, exec Sys.next Sys.started messages = .ok s ∧ Full .vm2 0 s :=
    ⟨_, rfl, by decide⟩
  have hbox := message_mailbox (y := .vm2) (Run.of_exec hs) rfl (by decide) (by decide) (by decide) 0
  exact ⟨s, Run.of_exec hs, hbox.2.1 hf, hbox.2.2.2 messages_looksFirst⟩

/-! ## The outcomes of a write -/

/-- The peer's INMSGn holds the value, and its INMSGSTSn is set. -/
def Delivered (c' : Ctx x) (n : Fin 4) (v : BitVec 32) : Prop :=
  c'.peerRegs.msg n = v.setWidth 64 ∧ c'.PeerFull n

/-- None of the peer's registers changed, and the sender's OUTMSGSTSn is set. -/
def Refused (c c' : Ctx x) (n : Fin 4) : Prop :=
  c'.shm.vm x.other = c.shm.vm x.other ∧ c'.gregs = c.gregs ∧ c'.regs.msgsts.getLsbD n = true

/-- The peer's block is untouched when its registers are. -/
theorem vm_modPeerRegs (c : Ctx x) (f : IdtSharedRegisters → IdtSharedRegisters) :
    (c.modPeerRegs f).shm.vm x.other = c.shm.vm x.other ↔ f c.peerRegs = c.peerRegs := by
  simp only [Ctx.modPeerRegs, IdtIvshmemShmStorage.modVm_self, Ctx.peerRegs]
  constructor
  · intro h
    exact congrArg IdtIvshmemVmShmStorage.regs h
  · intro h
    rw [h]

/-- **A message is delivered or refused exactly when the sender knows its peer or finds the peer's
    register full** (or the lost value is the one the peer's word already had, and OUTMSGSTSn was
    set before).  Both descriptions apply only to a refused value that is the one waiting. -/
theorem outmsg_outcome (c : Ctx x) (n : Fin 4) (v : BitVec 32) :
    ∃ c', ivshmemIoWrite c (ConfigReg.outmsg n).addr (v.setWidth 64) = .ok c' ∧
      (Delivered c' n v ∨ Refused c c' n ↔ c.dev.otherVmId ≠ -1 ∨ c.PeerFull n ∨
        (c.peerRegs.msg n = v.setWidth 64 ∧ c.regs.msgsts.getLsbD n = true)) ∧
      (Delivered c' n v ∧ Refused c c' n ↔ c.PeerFull n ∧ c.peerRegs.msg n = v.setWidth 64) := by
  refine ⟨writeOutboundMsg c n (v.setWidth 64), by simp [writeReg], ?_⟩
  unfold Delivered Refused
  by_cases hf : c.PeerFull n
  · -- refused: the peer is untouched, so its register is still full
    have hset : (c.regs.msgsts ||| (fldOutmsgsts n).setWidth 64).getLsbD n = true := by
      rw [getLsbD_or_fldOutmsgsts n.isLt]
      simp
    rw [writeOutboundMsg_refused c n _ hf]
    simp only [Ctx.PeerFull, Ctx.emitIf_peerRegs, Ctx.modRegs_peerRegs, Ctx.emitIf_regs,
      Ctx.modRegs_regs, Ctx.emitIf_gregs, Ctx.modRegs_gregs, Ctx.emitIf_shm, hset] at hf ⊢
    simp [hf, Ctx.modRegs]
  have hclear : c.peerRegs.msgsts.getLsbD (16 + n) = false := Bool.eq_false_iff.2 hf
  by_cases hid : c.dev.otherVmId = -1
  · -- lost: the message word is overwritten, and no status bit changes
    have hsame : { c.peerRegs with msg := update c.peerRegs.msg n (v.setWidth 64) } = c.peerRegs ↔
        c.peerRegs.msg n = v.setWidth 64 := by
      constructor
      · intro h
        exact (Function.update_eq_self_iff.1 (congrArg IdtSharedRegisters.msg h)).symm
      · intro h
        rw [Function.update_eq_self_iff.2 h.symm]
    rw [writeOutboundMsg_lost c n _ hf hid, vm_modPeerRegs, hsame]
    simp [Ctx.PeerFull, hclear, hid]
  · have hchanged : ∀ r : IdtSharedRegisters, r.msgsts =
        c.peerRegs.msgsts ||| (fldInmsgsts n).setWidth 64 → r ≠ c.peerRegs := by
      rintro r hr rfl
      rw [hr, getLsbD_or_fldInmsgsts n.isLt] at hclear
      simp at hclear
    rw [writeOutboundMsg_accepted c n _ hf hid, Ctx.emitIf_shm, vm_modPeerRegs]
    simp [Ctx.PeerFull, hclear, hid, getLsbD_or_fldInmsgsts n.isLt, hchanged]

/-- The first machine up, before its peer's id has reached it. -/
def unconnected : Ctx .vm1 := ⟨startedShm, { startedDev .vm1 with otherVmId := -1 }, []⟩

/-- **Before the connection a message is lost without a trace in either status register.** -/
theorem outmsg_unconnected : ¬ ∀ (n : Fin 4) (v : BitVec 32) c',
    ivshmemIoWrite unconnected (ConfigReg.outmsg n).addr (v.setWidth 64) = .ok c' →
      Delivered c' n v ∨ Refused unconnected c' n := by
  intro hall
  rcases hall 0 5 _ rfl with ⟨-, hfull⟩ | ⟨-, -, hset⟩
  · exact absurd hfull (by decide)
  · exact absurd hset (by decide)

end IdtNtb
