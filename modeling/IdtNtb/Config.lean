/-
  The configuration registers as a register file.

  NTCTL, INDBELLMSK, MSGSTSMSK and the words of the BAR entries hold what was
  stored into them last: by the machine itself, or, for the limit and the
  translation base of a BAR, by its peer through the out-of-spec window
  registers (`stored`).

  * `step_config` is one step of the file, `config_registers` whole runs, and
    the views of NTCTL and BARSETUP in the global address space.
-/
import IdtNtb.Lib.Bits
import IdtNtb.System

namespace IdtNtb

open Runs

variable {s s' s₀ : Sys} {a : Act} {t : List (Sys × Act)} {x y : Vm}

/-- The registers that only hold what is stored into them. -/
inductive PlainReg where
  | ntctl | indbellmsk | msgstsmsk
  | bar (f : BarField) (i : Fin 6)
deriving DecidableEq, Repr

namespace PlainReg

def reg : PlainReg → ConfigReg
  | ntctl => .ntctl
  | indbellmsk => .indbellmsk
  | msgstsmsk => .msgstsmsk
  | bar f i => .bar f i

/-- The word behind a register. -/
def get (regs : IdtSharedRegisters) (bars : Fin 6 → BARConfig) : PlainReg → BitVec 64
  | ntctl => regs.ntctl
  | indbellmsk => regs.dbMask.setWidth 64
  | msgstsmsk => regs.msgstsMask
  | bar f i => ((bars i).get f).setWidth 64

/-- A write to `addr` by the peer, whose local registers are `l`, reaches the register. -/
def Selected (l : IdtLocalRegisters) (addr : BitVec 64) : PlainReg → Prop
  | bar .ltbase i => addr = ConfigReg.oofLdata.addr ∧ l.inboundMwBar.toNat = i
  | bar .utbase i => addr = ConfigReg.oofHdata.addr ∧ l.inboundMwBar.toNat = i
  | bar .limit i =>
    (addr = ConfigReg.oofLlimit.addr ∨ addr = ConfigReg.oofHlimit.addr) ∧ l.inboundMwBar.toNat = i
  | _ => False

instance (l : IdtLocalRegisters) (addr : BitVec 64) (r : PlainReg) :
    Decidable (r.Selected l addr) := by
  unfold Selected
  split <;> infer_instance

end PlainReg

/-- The value that a step stores into the register of `y`. -/
def stored (y : Vm) (r : PlainReg) (e : Sys × Act) : Option (BitVec 64) :=
  match e.2 with
  | .write x addr v =>
    if x = y ∧ addr = r.reg.addr then some (v.setWidth 64)
    else if x = y.other ∧ r.Selected (e.1.lregs x) addr then some (v.setWidth 64)
    else none
  | _ => none

theorem read_plain (r : PlainReg) : s.read y r.reg.addr = r.get (s.regs y) (s.barConfig y) := by
  rw [Sys.read_addr]
  cases r <;> rfl

theorem stored_own (r : PlainReg) (q : ConfigReg) (v : BitVec 32) :
    stored y r (s, .write y q.addr v) = if q = r.reg then some (v.setWidth 64) else none := by
  simp [stored]

theorem stored_peer (r : PlainReg) (q : ConfigReg) (v : BitVec 32) :
    stored y r (s, .write y.other q.addr v) =
      if r.Selected (s.lregs y.other) q.addr then some (v.setWidth 64) else none := by
  simp [stored]

theorem selected_addr {r : PlainReg} {l : IdtLocalRegisters} {addr : BitVec 64}
    (h : r.Selected l addr) : ∃ q : ConfigReg, addr = q.addr := by
  unfold PlainReg.Selected at h
  split at h
  · exact ⟨_, h.1⟩
  · exact ⟨_, h.1⟩
  · rcases h.1 with h | h
    · exact ⟨_, h⟩
    · exact ⟨_, h⟩
  · exact h.elim

theorem stored_noWrite (r : PlainReg) (ha : a.NoWrite) : stored y r (s, a) = none := by
  unfold stored
  cases a with
  | write x addr v =>
    dsimp only
    rw [if_neg fun h => ha x _ v (by rw [h.2]), if_neg]
    rintro ⟨-, h⟩
    obtain ⟨q, rfl⟩ := selected_addr h
    exact ha x q v rfl
  | _ => rfl

/-! ## One step -/

/-- The device's own writes store into the register they name. -/
theorem get_own (c : Ctx x) (r : PlainReg) (q : ConfigReg) (v : BitVec 32) :
    r.get (c.regsAfter q (v.setWidth 64)) (c.barConfigAfter q (v.setWidth 64)) =
      if q = r.reg then v.setWidth 64 else r.get c.regs c.barConfig := by
  cases r with
  | bar f i =>
    unfold PlainReg.get PlainReg.reg Ctx.barConfigAfter
    cases q with
    | bar g j =>
      by_cases hj : i = j
      · subst hj
        by_cases hf : f = g
        · subst hf
          simp
        · have hgf : ¬ g = f := fun h => hf h.symm
          simp [hf, hgf]
      · have hji : ¬ j = i := fun h => hj h.symm
        simp [hj, hji]
    | _ => rfl
  | _ =>
    unfold PlainReg.get PlainReg.reg Ctx.regsAfter
    cases q with
    | outmsg i => rw [if_neg nofun]; dsimp only; split_ifs <;> rfl
    | gasadata => rw [if_neg nofun]; dsimp only; split <;> rfl
    | _ => simp

/-- The peer's writes store through the out-of-spec registers, into the BAR selected. -/
theorem get_peer (c : Ctx x) (r : PlainReg) (q : ConfigReg) (v : BitVec 32) :
    r.get (c.peerRegsAfter q (v.setWidth 64)) (c.peerBarConfigAfter q (v.setWidth 64)) =
      if r.Selected c.dev.lregs q.addr then v.setWidth 64 else r.get c.peerRegs c.peerBarConfig := by
  cases r with
  | bar f i =>
    unfold PlainReg.get Ctx.peerBarConfigAfter PlainReg.Selected Ctx.setSelected
    by_cases hi : c.dev.lregs.inboundMwBar.toNat = i
    · cases q with
      | oofLdata | oofHdata | oofLlimit | oofHlimit => cases f <;> simp [hi]
      | _ => cases f <;> simp
    · cases q with
      | oofLdata | oofHdata | oofLlimit | oofHlimit => cases f <;> simp [hi]
      | _ => cases f <;> simp
  | _ =>
    unfold PlainReg.get Ctx.peerRegsAfter PlainReg.Selected
    cases q with
    | outmsg i => dsimp only; split_ifs <;> rfl
    | _ => rfl

/-- **One step**: a register changes only by what is stored into it. -/
theorem step_config (hs : s.SelFor a) (h : Step s a s') (y : Vm) (r : PlainReg) :
    s'.read y r.reg.addr = (stored y r (s, a)).getD (s.read y r.reg.addr) := by
  rw [read_plain, read_plain]
  rcases step_block hs h y with ⟨q, v, rfl, hr, hb⟩ | ⟨q, v, rfl, hr, hb⟩ | ⟨ha, hr, hb⟩
  · rw [hr, hb, get_own, stored_own]
    split_ifs <;> rfl
  · rw [hr, hb, get_peer, stored_peer]
    by_cases hsel : r.Selected (s.lregs y.other) q.addr
    · have hsel' : r.Selected (s.ctx y.other).dev.lregs q.addr := hsel
      rw [if_pos hsel, if_pos hsel']
      rfl
    · have hsel' : ¬ r.Selected (s.ctx y.other).dev.lregs q.addr := hsel
      rw [if_neg hsel, if_neg hsel']
      simp
  · rw [stored_noWrite r ha, hr, hb]
    rfl

/-- A word of a BAR entry that nothing is stored into stays as it is. -/
theorem step_bar {f : BarField} {i : Fin 6} (hs : s.SelFor a) (h : Step s a s')
    (hno : stored y (.bar f i) (s, a) = none) :
    (s'.barConfig y i).get f = (s.barConfig y i).get f := by
  have hread := step_config hs h y (.bar f i)
  rw [hno, read_plain, read_plain, Option.getD_none] at hread
  exact Bits.setWidth_injective (by omega) hread

/-! ## Whole runs -/

/-- The global address space shows a machine's NTCTL and BARSETUP as the machine reads them. -/
theorem gasadata_ntctl (h : (s.lregs x).gasaaddr = (GlobalReg.ntpNtctl y).addr) :
    s.read x ConfigReg.gasadata.addr = s.read y ConfigReg.ntctl.addr := by
  have hd : (s.dev x).lregs.gasaaddr = (GlobalReg.ntpNtctl y).addr := h
  rw [Sys.read_addr, Sys.read_addr]
  simp [readReg, getGasadata, hd, Sys.regs]

theorem gasadata_barsetup {i : Fin 6}
    (h : (s.lregs x).gasaaddr = (GlobalReg.ntpBarsetup y i).addr) :
    s.read x ConfigReg.gasadata.addr = s.read y (ConfigReg.bar .setup i).addr := by
  have hd : (s.dev x).lregs.gasaaddr = (GlobalReg.ntpBarsetup y i).addr := h
  rw [Sys.read_addr, Sys.read_addr]
  simp [readReg, getGasadata, hd, Sys.barConfig, BARConfig.get]

/-- **Along a run** a register holds what was stored into it last. -/
theorem read_run (h : Run Step s₀ t s) (hsel : ∀ e ∈ t, e.1.SelFor e.2) (y : Vm) (r : PlainReg) :
    s.read y r.reg.addr = (t.filterMap (stored y r)).getLast?.getD (s₀.read y r.reg.addr) := by
  refine Run.register (stored y r) (fun s => s.read y r.reg.addr) h ?_
  intro e he s' hst
  exact step_config (hsel e he) hst y r

/-- **The configuration registers are a register file**, and the global address space shows it. -/
theorem config_registers (h : Run Step s₀ t s) (hsel : ∀ e ∈ t, e.1.SelOk) :
    (∀ y (r : PlainReg), s.read y r.reg.addr =
      (t.filterMap (stored y r)).getLast?.getD (s₀.read y r.reg.addr)) ∧
    (∀ x y, (s.lregs x).gasaaddr = (GlobalReg.ntpNtctl y).addr →
      s.read x ConfigReg.gasadata.addr = s.read y ConfigReg.ntctl.addr) ∧
    (∀ x y i, (s.lregs x).gasaaddr = (GlobalReg.ntpBarsetup y i).addr →
      s.read x ConfigReg.gasadata.addr = s.read y (ConfigReg.bar .setup i).addr) := by
  refine ⟨fun y r => ?_, fun x y hg => gasadata_ntctl hg, fun x y i hg => gasadata_barsetup hg⟩
  exact read_run h (fun e he => (hsel e he).selFor _) y r

/-- The first machine sets up BAR 2 of the second and then its own NTCTL; the second one moves its
    window and looks at the first one's NTCTL. -/
def configured : List Act :=
  [.write .vm1 ConfigReg.oofLutoff.addr 2, .write .vm1 ConfigReg.oofLdata.addr 0x1000,
    .write .vm1 ConfigReg.ntctl.addr 2, .write .vm2 (ConfigReg.bar .ltbase 2).addr 0x2000,
    .write .vm2 ConfigReg.gasaaddr.addr 0x1400]

theorem config_registers_started :
    ∃ s, Run Step Sys.started (trace Sys.next Sys.started configured) s ∧
      s.read .vm2 (ConfigReg.bar .ltbase 2).addr = 0x2000 ∧
      s.read .vm2 ConfigReg.gasadata.addr = s.read .vm1 ConfigReg.ntctl.addr := by
  obtain ⟨s, hs, hg⟩ : ∃ s, exec Sys.next Sys.started configured = .ok s ∧
      (s.lregs .vm2).gasaaddr = (GlobalReg.ntpNtctl .vm1).addr := ⟨_, rfl, rfl⟩
  obtain ⟨h1, h2, -⟩ := config_registers (Run.of_exec hs) (by decide)
  exact ⟨s, Run.of_exec hs, h1 .vm2 (.bar .ltbase 2), h2 .vm2 .vm1 hg⟩

end IdtNtb
