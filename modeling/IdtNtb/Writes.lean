/-
  What one register write does, part by part of the state.

  * `writeOutboundMsg_refused`, `_lost` and `_accepted` are the three outcomes
    of a message write, `writeReg_outdbellset` and `writeReg_ntgsignal` those of
    the other two outbound registers;
  * `Ctx.regsAfter`, `peerRegsAfter`, `gregsAfter`, `barConfigAfter`,
    `peerBarConfigAfter` and `lregsAfter` say, for each part of the state, what
    a write leaves in it; `writeReg_blocks` and `writeReg_rest` prove it.  All
    later invariants are derived from these.

  A write through the out-of-spec window registers stays inside the peer's BAR
  entries only while the selector is below 6 (`Ctx.SelOk`).
-/
import IdtNtb.Lib.Bits
import IdtNtb.Device

namespace IdtNtb

open Function (update)

variable {x : Vm}

/-! ## Status bits -/

theorem fldInmsgsts_ne_zero {i : ℕ} (hi : i < 4) (v : BitVec 64) :
    v &&& (fldInmsgsts i).setWidth 64 ≠ 0 ↔ v.getLsbD (16 + i) = true :=
  Bits.and_mask_ne_zero (by omega) (by omega) v

theorem getLsbD_or_fldInmsgsts {i : ℕ} (hi : i < 4) (v : BitVec 64) (j : ℕ) :
    (v ||| (fldInmsgsts i).setWidth 64).getLsbD j = (v.getLsbD j || decide (j = 16 + i)) :=
  Bits.getLsbD_or_mask (by omega) (by omega) v j

theorem getLsbD_or_fldOutmsgsts {i : ℕ} (hi : i < 4) (v : BitVec 64) (j : ℕ) :
    (v ||| (fldOutmsgsts i).setWidth 64).getLsbD j = (v.getLsbD j || decide (j = i)) :=
  Bits.getLsbD_or_mask (by omega) (by omega) v j

/-! ## Outbound messages -/

namespace Ctx
variable (c : Ctx x) (i : Fin 4)

/-- INMSGSTSi of the peer: it has not taken the last message yet. -/
def PeerFull : Prop := c.peerRegs.msgsts.getLsbD (16 + i) = true

instance : Decidable (c.PeerFull i) := inferInstanceAs (Decidable (_ = true))

/-- The test before the sender is told of a refused message. -/
def FailureArmed : Prop :=
  c.regs.msgstsMask &&& (~~~fldOutmsgsts i).setWidth 64 ≠ 0 ∧ ~~~c.gregs.ntIntMask &&& ntintstsMsg ≠ 0

instance : Decidable (c.FailureArmed i) := inferInstanceAs (Decidable (_ ∧ _))

/-- The test before the receiver is told of a new message. -/
def MessageArmed : Prop :=
  ~~~c.peerRegs.msgstsMask &&& (fldInmsgsts i).setWidth 64 ≠ 0 ∧ ~~~c.gregs.ntIntMask &&& ntintstsMsg ≠ 0

instance : Decidable (c.MessageArmed i) := inferInstanceAs (Decidable (_ ∧ _))

/-- The test before the receiver is told of a doorbell. -/
def DoorbellArmed : Prop := ~~~c.gregs.ntIntMask &&& ntintstsDbell ≠ 0

instance : Decidable c.DoorbellArmed := inferInstanceAs (Decidable (_ ≠ _))

/-- The test before the peer is told of a global signal. -/
def SignalArmed : Prop := ~~~c.gregs.ntIntMask &&& ntintstsSevent ≠ 0

instance : Decidable c.SignalArmed := inferInstanceAs (Decidable (_ ≠ _))

end Ctx

section
variable (c : Ctx x) (i : Fin 4) (v : BitVec 64)

/-- The register index that BAR 0 passes is in range. -/
private theorem index_ok : ¬ ((i : ℤ) < 0 ∨ 3 < (i : ℤ)) := by
  have := i.isLt
  omega

/-- **Refused**: the peer has not taken the last message. -/
theorem writeOutboundMsg_refused (h : c.PeerFull i) : writeOutboundMsg c i v =
    (c.modRegs fun r => { r with
      msgsts := r.msgsts ||| (fldOutmsgsts i).setWidth 64
      intsts := if c.FailureArmed i then r.intsts ||| ntintstsMsg.setWidth 64
        else r.intsts }).emitIf (c.FailureArmed i) (.msiNotify 0) := by
  unfold writeOutboundMsg
  rw [dif_neg (index_ok i)]
  simp only [Int.toNat_natCast, Fin.eta]
  rw [if_pos ((fldInmsgsts_ne_zero i.isLt _).2 h)]
  simp only [Ctx.modRegs_regs, Ctx.modRegs_gregs, Ctx.modRegs_modRegs, interruptNotify, Ctx.emitIf]
  by_cases ha : c.FailureArmed i
  · have ha' := ha
    unfold Ctx.FailureArmed at ha'
    simp only [if_pos ha, if_pos ha']
  · have ha' := ha
    unfold Ctx.FailureArmed at ha'
    simp only [if_neg ha, if_neg ha']

/-- **Lost**: the peer is not known yet, and the message word is written all the same. -/
theorem writeOutboundMsg_lost (h : ¬ c.PeerFull i) (hid : c.dev.otherVmId = -1) :
    writeOutboundMsg c i v = c.modPeerRegs fun r => { r with msg := update r.msg i v } := by
  unfold writeOutboundMsg
  rw [dif_neg (index_ok i)]
  simp only [Int.toNat_natCast, Fin.eta]
  rw [if_neg fun hf => h ((fldInmsgsts_ne_zero i.isLt _).1 hf), if_neg (by simpa using hid)]

/-- **Accepted**: the message is handed to the peer. -/
theorem writeOutboundMsg_accepted (h : ¬ c.PeerFull i) (hid : c.dev.otherVmId ≠ -1) :
    writeOutboundMsg c i v =
    (c.modPeerRegs fun r => { r with
      msg := update r.msg i v
      msgsts := r.msgsts ||| (fldInmsgsts i).setWidth 64
      inbMsgSrc := update r.inbMsgSrc i (c.regs.inboundMwPart.setWidth 64)
      intsts := if c.MessageArmed i then r.intsts ||| ntintstsMsg.setWidth 64
        else r.intsts }).emitIf (c.MessageArmed i)
      (.eventSet c.dev.otherVmId eventfdInterruptHost) := by
  unfold writeOutboundMsg
  rw [dif_neg (index_ok i)]
  simp only [Int.toNat_natCast, Fin.eta]
  rw [if_neg fun hf => h ((fldInmsgsts_ne_zero i.isLt _).1 hf), if_pos (by simpa using hid)]
  simp only [Ctx.modPeerRegs_peerRegs, Ctx.modPeerRegs_regs, Ctx.modPeerRegs_gregs,
    Ctx.modPeerRegs_dev, Ctx.modPeerRegs_modPeerRegs, eventNotifierSet, Ctx.emitIf]
  by_cases ha : c.MessageArmed i
  · have ha' := ha
    unfold Ctx.MessageArmed at ha'
    simp only [if_pos ha, if_pos ha']
  · have ha' := ha
    unfold Ctx.MessageArmed at ha'
    simp only [if_neg ha, if_neg ha']

/-! ## Doorbells and global signals -/

theorem writeReg_outdbellset : writeReg c .outdbellset v =
    .ok ((c.modPeerRegs fun r => { r with
      db := v.setWidth 32
      intsts := if c.dev.otherVmId ≠ -1 ∧ c.DoorbellArmed then
        r.intsts ||| ntintstsDbell.setWidth 64 else r.intsts }).emitIf
      (c.dev.otherVmId ≠ -1 ∧ c.DoorbellArmed)
      (.eventSet c.dev.otherVmId eventfdInterruptHost)) := by
  simp only [writeReg, Ctx.modPeerRegs_dev, Ctx.modPeerRegs_gregs, Ctx.modPeerRegs_modPeerRegs,
    eventNotifierSet, Ctx.emitIf]
  by_cases hid : c.dev.otherVmId ≠ -1
  · by_cases ha : c.DoorbellArmed
    · have ha' := ha
      unfold Ctx.DoorbellArmed at ha'
      simp only [if_pos hid, if_pos ha', if_pos (And.intro hid ha)]
    · have ha' := ha
      unfold Ctx.DoorbellArmed at ha'
      simp only [if_pos hid, if_neg ha', if_neg fun h : _ ∧ c.DoorbellArmed => ha h.2]
  · simp only [if_neg hid, if_neg fun h : _ ∧ c.DoorbellArmed => hid h.1]

theorem writeReg_ntgsignal : writeReg c .ntgsignal v =
    if v = 1 then
      .ok (((c.modGregs fun g => { g with segsigsts := g.segsigsts ||| 0x1#32 <<< 0 }).modPeerRegs
        fun r => { r with
          intsts := if c.SignalArmed then r.intsts ||| ntintstsSevent.setWidth 64
            else r.intsts }).emitIf c.SignalArmed
        (.eventSet c.dev.otherVmId eventfdInterruptHost))
    else .error .assertion := by
  simp only [writeReg]
  by_cases hv : v = 1
  · rw [if_pos hv, if_pos hv]
    by_cases ha : c.SignalArmed
    · rw [if_pos (by exact ha)]
      simp only [Ctx.emitIf, if_pos ha, eventNotifierSet, Ctx.modPeerRegs_dev, Ctx.modGregs_dev]
    · rw [if_neg (by exact ha)]
      simp only [Ctx.emitIf, if_neg ha, Ctx.modPeerRegs_id]
  · rw [if_neg hv, if_neg hv]

end

/-! ## Part by part -/

namespace Ctx
variable (c : Ctx x) (r : ConfigReg) (v : BitVec 64)

/-- What a write leaves in the device's own registers. -/
def regsAfter : IdtSharedRegisters :=
  match r with
  | .gasadata =>
    match GlobalReg.decode c.dev.lregs.gasaaddr with
    | some (.swp0msgctl i) => { c.regs with part0MsgControl := update c.regs.part0MsgControl i v }
    | _ => c.regs
  | .ntctl => { c.regs with ntctl := v }
  | .ntintsts => { c.regs with intsts := c.regs.intsts &&& ~~~v }
  | .outmsg i =>
    if c.PeerFull i then { c.regs with
      msgsts := c.regs.msgsts ||| (fldOutmsgsts i).setWidth 64
      intsts := if c.FailureArmed i then c.regs.intsts ||| ntintstsMsg.setWidth 64
        else c.regs.intsts }
    else c.regs
  | .indbellsts => { c.regs with db := c.regs.db &&& ~~~v.setWidth 32 }
  | .indbellmsk => { c.regs with dbMask := v.setWidth 32 }
  | .msgsts => { c.regs with msgsts := c.regs.msgsts &&& ~~~v }
  | .msgstsmsk => { c.regs with msgstsMask := v }
  | .oofTpart => { c.regs with inboundMwPart := v.setWidth 32 }
  | _ => c.regs

/-- What a write leaves in the peer's registers: only the three outbound ones reach them. -/
def peerRegsAfter : IdtSharedRegisters :=
  match r with
  | .outmsg i =>
    if c.PeerFull i then c.peerRegs
    else if c.dev.otherVmId = -1 then { c.peerRegs with msg := update c.peerRegs.msg i v }
    else { c.peerRegs with
      msg := update c.peerRegs.msg i v
      msgsts := c.peerRegs.msgsts ||| (fldInmsgsts i).setWidth 64
      inbMsgSrc := update c.peerRegs.inbMsgSrc i (c.regs.inboundMwPart.setWidth 64)
      intsts := if c.MessageArmed i then c.peerRegs.intsts ||| ntintstsMsg.setWidth 64
        else c.peerRegs.intsts }
  | .outdbellset => { c.peerRegs with
      db := v.setWidth 32
      intsts := if c.dev.otherVmId ≠ -1 ∧ c.DoorbellArmed then
        c.peerRegs.intsts ||| ntintstsDbell.setWidth 64 else c.peerRegs.intsts }
  | .ntgsignal => { c.peerRegs with
      intsts := if c.SignalArmed then c.peerRegs.intsts ||| ntintstsSevent.setWidth 64
        else c.peerRegs.intsts }
  | _ => c.peerRegs

/-- What a write leaves in the global registers. -/
def gregsAfter : IdtGlobalRegisters :=
  match r with
  | .gasadata =>
    match GlobalReg.decode c.dev.lregs.gasaaddr with
    | some .segsigsts => { c.gregs with segsigsts := c.gregs.segsigsts &&& ~~~v.setWidth 32 }
    | _ => c.gregs
  | .ntmtbldata =>
    if c.dev.lregs.ntMtbAddr = 0 then { c.gregs with ntmtbl0 := v.setWidth 32 } else c.gregs
  | .ntgsignal => { c.gregs with segsigsts := c.gregs.segsigsts ||| 0x1#32 <<< 0 }
  | .ntintmsk => { c.gregs with ntIntMask := v.setWidth 32 }
  | _ => c.gregs

/-- What a write leaves in the device's own BAR entries. -/
def barConfigAfter : Fin 6 → BARConfig :=
  match r with
  | .bar f i => update c.barConfig i ((c.barConfig i).set f (v.setWidth 32))
  | _ => c.barConfig

/-- Store into the entry of the peer that the out-of-spec selector names. -/
def setSelected (f : BarField) : Fin 6 → BARConfig := fun i =>
  if c.dev.lregs.inboundMwBar.toNat = i then (c.peerBarConfig i).set f (v.setWidth 32)
  else c.peerBarConfig i

/-- What a write leaves in the peer's BAR entries: the out-of-spec window registers reach them. -/
def peerBarConfigAfter : Fin 6 → BARConfig :=
  match r with
  | .oofLdata => c.setSelected v .ltbase
  | .oofHdata => c.setSelected v .utbase
  | .oofLlimit | .oofHlimit => c.setSelected v .limit
  | _ => c.peerBarConfig

/-- What a write leaves in the registers that are not shared. -/
def lregsAfter : IdtLocalRegisters :=
  match r with
  | .gasaaddr => { c.dev.lregs with gasaaddr := v }
  | .ntmtbladdr => { c.dev.lregs with ntMtbAddr := v &&& 0x7F }
  | .oofLutoff => { c.dev.lregs with inboundMwBar := v.setWidth 32 }
  | _ => c.dev.lregs

theorem setSelected_eq (hs : c.SelOk) (f : BarField) : c.setSelected v f =
    update c.peerBarConfig (c.sel hs) ((c.peerBarConfig (c.sel hs)).set f (v.setWidth 32)) := by
  funext i
  unfold setSelected
  by_cases hi : i = c.sel hs
  · subst hi
    simp [sel]
  · have hne : ¬ c.dev.lregs.inboundMwBar.toNat = i := fun h => hi (Fin.ext h.symm)
    simp [hi, hne]

end Ctx

@[simp] theorem Ctx.modRegs_id (c : Ctx x) (f : IdtSharedRegisters → IdtSharedRegisters) (y : Vm) :
    ((c.modRegs f).shm.vm y).id = (c.shm.vm y).id := by
  simp [Ctx.modRegs, modVm_id]

@[simp] theorem Ctx.modPeerRegs_ids (c : Ctx x) (f : IdtSharedRegisters → IdtSharedRegisters)
    (y : Vm) : ((c.modPeerRegs f).shm.vm y).id = (c.shm.vm y).id := by
  simp [Ctx.modPeerRegs, modVm_id]

@[simp] theorem Ctx.setBar_id (c : Ctx x) (i : Fin 6) (f : BarField) (v : BitVec 32) (y : Vm) :
    ((c.setBar i f v).shm.vm y).id = (c.shm.vm y).id := by
  simp [Ctx.setBar, modVm_id]

/-- The out-of-spec registers whose writes go where the selector says. -/
def OofData : ConfigReg → Prop
  | .oofLdata | .oofHdata | .oofLlimit | .oofHlimit => True
  | _ => False

instance : DecidablePred OofData := fun r => by
  unfold OofData
  split <;> infer_instance

/-- The field that an out-of-spec data register stores into. -/
def oofField : ConfigReg → Option BarField
  | .oofLdata => some .ltbase
  | .oofHdata => some .utbase
  | .oofLlimit | .oofHlimit => some .limit
  | _ => none

theorem oofField_isSome {r : ConfigReg} : (oofField r).isSome ↔ OofData r := by
  cases r <;> simp [oofField, OofData]

section
variable {c c' : Ctx x} {r : ConfigReg} {v : BitVec 64}

/-- **What a write leaves** in the blocks of the two machines. -/
theorem writeReg_blocks (hs : OofData r → c.SelOk) (h : writeReg c r v = .ok c') :
    (c'.regs = c.regsAfter r v ∧ c'.barConfig = c.barConfigAfter r v) ∧
      c'.peerRegs = c.peerRegsAfter r v ∧ c'.peerBarConfig = c.peerBarConfigAfter r v := by
  unfold Ctx.regsAfter Ctx.peerRegsAfter Ctx.barConfigAfter Ctx.peerBarConfigAfter
  cases r with
  | outmsg i =>
    cases h
    by_cases hf : c.PeerFull i
    · rw [writeOutboundMsg_refused c i v hf]
      simp [hf]
    by_cases hid : c.dev.otherVmId = -1
    · rw [writeOutboundMsg_lost c i v hf hid]
      simp [hf, hid]
    · rw [writeOutboundMsg_accepted c i v hf hid]
      simp [hf, hid]
  | outdbellset =>
    rw [writeReg_outdbellset] at h
    cases h
    simp
  | ntgsignal =>
    rw [writeReg_ntgsignal] at h
    by_cases hv : v = 1
    · rw [if_pos hv] at h
      cases h
      simp
    · rw [if_neg hv] at h
      cases h
  | oofLdata | oofHdata | oofLlimit | oofHlimit =>
    cases h
    have hsel := hs trivial
    refine ⟨⟨?_, ?_⟩, ?_, ?_⟩
    · exact Ctx.setPeerBar_regs c hsel _ _
    · exact Ctx.setPeerBar_barConfig c hsel _ _
    · exact Ctx.setPeerBar_peerRegs c hsel _ _
    · rw [Ctx.setPeerBar_peerBarConfig c hsel]
      exact (c.setSelected_eq v hsel _).symm
  | ntmtbldata =>
    cases h
    simp only [setNtMtbData]
    split_ifs <;> simp
  | gasadata =>
    cases h
    simp only [writeGasadata]
    cases GlobalReg.decode c.dev.lregs.gasaaddr with
    | none => simp
    | some g => cases g <;> simp
  | _ =>
    cases h
    simp

/-- What it leaves in the global registers and in the device state, whatever the selector. -/
theorem writeReg_rest (h : writeReg c r v = .ok c') :
    c'.gregs = c.gregsAfter r v ∧ c'.dev = { c.dev with lregs := c.lregsAfter r v } := by
  unfold Ctx.gregsAfter Ctx.lregsAfter
  cases r with
  | outmsg i =>
    cases h
    by_cases hf : c.PeerFull i
    · rw [writeOutboundMsg_refused c i v hf]
      simp
    by_cases hid : c.dev.otherVmId = -1
    · rw [writeOutboundMsg_lost c i v hf hid]
      simp
    · rw [writeOutboundMsg_accepted c i v hf hid]
      simp
  | outdbellset =>
    rw [writeReg_outdbellset] at h
    cases h
    simp
  | ntgsignal =>
    rw [writeReg_ntgsignal] at h
    by_cases hv : v = 1
    · rw [if_pos hv] at h
      cases h
      simp
    · rw [if_neg hv] at h
      cases h
  | ntmtbldata =>
    cases h
    simp only [setNtMtbData]
    split_ifs <;> simp
  | gasadata =>
    cases h
    simp only [writeGasadata]
    cases GlobalReg.decode c.dev.lregs.gasaaddr with
    | none => simp
    | some g => cases g <;> simp
  | _ =>
    cases h
    simp

/-- An access writes one register, or is ignored. -/
theorem ivshmemIoWrite_cases {addr : BitVec 64} (h : ivshmemIoWrite c addr v = .ok c') :
    (∃ r : ConfigReg, addr = r.addr ∧ writeReg c r v = .ok c') ∨
      ((∀ r : ConfigReg, addr ≠ r.addr) ∧ c' = c) := by
  unfold ivshmemIoWrite at h
  cases hd : ConfigReg.decode addr with
  | some r =>
    rw [hd] at h
    exact Or.inl ⟨r, ConfigReg.decode_eq_some.1 hd, h⟩
  | none =>
    rw [hd] at h
    cases h
    refine Or.inr ⟨fun r hr => ?_, rfl⟩
    rw [ConfigReg.decode_eq_some.2 hr] at hd
    cases hd

/-- A register write leaves the ids in the shared memory alone. -/
theorem writeReg_id (hs : OofData r → c.SelOk) (h : writeReg c r v = .ok c') (y : Vm) :
    (c'.shm.vm y).id = (c.shm.vm y).id := by
  cases r with
  | outmsg i =>
    cases h
    by_cases hf : c.PeerFull i
    · rw [writeOutboundMsg_refused c i v hf]
      simp
    by_cases hid : c.dev.otherVmId = -1
    · rw [writeOutboundMsg_lost c i v hf hid]
      simp
    · rw [writeOutboundMsg_accepted c i v hf hid]
      simp
  | outdbellset =>
    rw [writeReg_outdbellset] at h
    cases h
    simp
  | ntgsignal =>
    rw [writeReg_ntgsignal] at h
    by_cases hv : v = 1
    · rw [if_pos hv] at h
      cases h
      simp [Ctx.modGregs]
    · rw [if_neg hv] at h
      cases h
  | oofLdata | oofHdata | oofLlimit | oofHlimit =>
    cases h
    rw [Ctx.setPeerBar_eq c (hs trivial)]
    simp [modVm_id]
  | ntmtbldata =>
    cases h
    simp only [setNtMtbData]
    split_ifs <;> rfl
  | gasadata =>
    cases h
    simp only [writeGasadata]
    cases GlobalReg.decode c.dev.lregs.gasaaddr with
    | none => rfl
    | some g => cases g <;> simp [Ctx.modGregs]
  | ntctl | ntintsts | indbellsts | indbellmsk | msgsts | msgstsmsk | bar _ _ | oofTpart =>
    cases h
    simp
  | _ =>
    cases h
    rfl

theorem writeReg_gregs (h : writeReg c r v = .ok c') : c'.gregs = c.gregsAfter r v :=
  (writeReg_rest h).1

/-- Of the device state only the registers that are not shared can change. -/
theorem writeReg_dev (h : writeReg c r v = .ok c') :
    c'.dev = { c.dev with lregs := c.lregsAfter r v } :=
  (writeReg_rest h).2

end

end IdtNtb
