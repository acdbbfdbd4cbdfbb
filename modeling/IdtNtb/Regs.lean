/-
  The registers of the device and the structure the two devices share.

  * `ConfigReg` are the registers of the NT configuration space (BAR 0), at the
    addresses of `enum idt_config_registers` (with NTINTMSK, which the source
    lists among the global ones), and `ConfigReg.decode` is the `case` an access
    reaches; `GlobalReg` are the registers behind GASAADDR/GASADATA;
  * `IdtIvshmemShmStorage` is the packed structure at the start of the shared
    memory: the global registers and one block for each of the two machines.
    `storeWord` writes one of its 32-bit words by position: this is where a
    store with an index past `bar_config` goes.

  Both structures have only 4- and 8-byte fields, so a word is 4 bytes.
-/
import Mathlib.Data.BitVec
import Mathlib.Data.Fintype.Basic
import Mathlib.Logic.Function.Basic

namespace IdtNtb

/-! ## The two machines -/

/-- The machine with `self_number` 0 owns the block `vm1`, the other one `vm2`. -/
inductive Vm where
  | vm1 | vm2
deriving DecidableEq, Repr

namespace Vm

def other : Vm → Vm
  | vm1 => vm2
  | vm2 => vm1

/-- The block that `ivshmem_common_realize` points `regs` at. -/
def ofNumber (selfNumber : BitVec 32) : Vm := if selfNumber = 0 then vm1 else vm2

@[simp] theorem other_other (x : Vm) : x.other.other = x := by cases x <;> rfl

@[simp] theorem other_ne (x : Vm) : x.other ≠ x := by cases x <;> nofun

@[simp] theorem ne_other (x : Vm) : x ≠ x.other := by cases x <;> nofun

theorem eq_or_other (x y : Vm) : y = x ∨ y = x.other := by cases x <;> cases y <;> simp [other]

theorem forall_iff {p : Vm → Prop} : (∀ x, p x) ↔ p vm1 ∧ p vm2 :=
  ⟨fun h => ⟨h _, h _⟩, fun h x => by cases x <;> simp [h]⟩

theorem eq_other_of_ne {x y : Vm} (h : y ≠ x) : y = x.other := (eq_or_other x y).resolve_left h

end Vm

/-! ## Register addresses -/

/-- Looking up an address in a list whose addresses differ finds the entry with that address. -/
theorem find_addr {α : Type} {addr : α → BitVec 64} {l : List α} (hl : (l.map addr).Nodup)
    {a : BitVec 64} {r : α} (hr : r ∈ l) : l.find? (addr · = a) = some r ↔ a = addr r := by
  constructor
  · intro h
    have hp := List.find?_some h
    simp only [decide_eq_true_eq] at hp
    exact hp.symm
  · rintro rfl
    obtain ⟨r', h⟩ : ∃ r', l.find? (addr · = addr r) = some r' :=
      Option.isSome_iff_exists.1 (List.find?_isSome.2 ⟨r, hr, by simp⟩)
    have hp := List.find?_some h
    simp only [decide_eq_true_eq] at hp
    rw [h, List.inj_on_of_nodup_map hl (List.mem_of_find?_eq_some h) hr hp]

/-- There are four message registers and six BARs. -/
instance neZero_four : NeZero 4 := ⟨by decide⟩

instance neZero_six : NeZero 6 := ⟨by decide⟩

/-- The four words of a `BARConfig`. -/
inductive BarField where
  | setup | limit | ltbase | utbase
deriving DecidableEq, Repr

/-- The position of a field in `BARConfig`, in words. -/
def BarField.word : BarField → ℕ
  | setup => 0
  | limit => 1
  | ltbase => 2
  | utbase => 3

/-- The NT configuration space registers. -/
inductive ConfigReg where
  | pcicmdsts | pcielcap | pcielctlsts
  | ntctl | ntintsts | ntintmsk | ntgsignal
  | outdbellset | indbellsts | indbellmsk
  | outmsg (i : Fin 4) | inmsg (i : Fin 4) | inmsgsrc (i : Fin 4)
  | msgsts | msgstsmsk
  | ntmtbladdr | ntmtbldata | reqidcap
  | gasaaddr | gasadata
  | bar (f : BarField) (i : Fin 6)
  | oofTpart | oofLutoff | oofLdata | oofHdata | oofLlimit | oofHlimit
deriving DecidableEq, Repr

namespace ConfigReg

/-- The addresses of `enum idt_config_registers`. -/
def addr : ConfigReg → BitVec 64
  | pcicmdsts => 0x4
  | pcielcap => 0x4C
  | pcielctlsts => 0x50
  | ntctl => 0x400
  | ntintsts => 0x404
  | ntintmsk => 0x408
  | ntgsignal => 0x410
  | outdbellset => 0x420
  | indbellsts => 0x428
  | indbellmsk => 0x42C
  | outmsg i => 0x430 + 4 * BitVec.ofNat 64 i
  | inmsg i => 0x440 + 4 * BitVec.ofNat 64 i
  | inmsgsrc i => 0x450 + 4 * BitVec.ofNat 64 i
  | msgsts => 0x460
  | msgstsmsk => 0x464
  | bar f i => 0x470 + 0x10 * BitVec.ofNat 64 i + 4 * BitVec.ofNat 64 f.word
  | ntmtbladdr => 0x4D0
  | ntmtbldata => 0x4D8
  | reqidcap => 0x4DC
  | gasaaddr => 0xFF8
  | gasadata => 0xFFC
  | oofTpart => 0x1000
  | oofLutoff => 0x1004
  | oofLdata => 0x1008
  | oofHdata => 0x100C
  | oofLlimit => 0x1010
  | oofHlimit => 0x1014

def all : List ConfigReg :=
  [pcicmdsts, pcielcap, pcielctlsts, ntctl, ntintsts, ntintmsk, ntgsignal, outdbellset, indbellsts,
    indbellmsk, msgsts, msgstsmsk, ntmtbladdr, ntmtbldata, reqidcap, gasaaddr, gasadata, oofTpart,
    oofLutoff, oofLdata, oofHdata, oofLlimit, oofHlimit] ++
  [0, 1, 2, 3].map outmsg ++ [0, 1, 2, 3].map inmsg ++ [0, 1, 2, 3].map inmsgsrc ++
  [0, 1, 2, 3, 4, 5].map (bar .setup) ++ [0, 1, 2, 3, 4, 5].map (bar .limit) ++
  [0, 1, 2, 3, 4, 5].map (bar .ltbase) ++ [0, 1, 2, 3, 4, 5].map (bar .utbase)

/-- The register at an address, if there is one. -/
def decode (a : BitVec 64) : Option ConfigReg := all.find? (·.addr = a)

theorem mem_all (r : ConfigReg) : r ∈ all := by
  cases r with
  | outmsg i | inmsg i | inmsgsrc i => revert i; decide
  | bar f i => revert i; cases f <;> decide
  | _ => decide

/-- No two registers share an address: every `case` label is reached. -/
theorem addr_nodup : (all.map addr).Nodup := by decide +kernel

theorem addr_injective {r r' : ConfigReg} (h : r.addr = r'.addr) : r = r' :=
  List.inj_on_of_nodup_map addr_nodup (mem_all r) (mem_all r') h

@[simp] theorem addr_inj {r r' : ConfigReg} : r.addr = r'.addr ↔ r = r' :=
  ⟨addr_injective, fun h => h ▸ rfl⟩

theorem decode_eq_some {a : BitVec 64} {r : ConfigReg} : decode a = some r ↔ a = r.addr :=
  find_addr addr_nodup (mem_all r)

@[simp] theorem decode_addr (r : ConfigReg) : decode r.addr = some r := decode_eq_some.2 rfl

end ConfigReg

/-- The global registers, reached by GASAADDR and GASADATA.  Port 0 belongs to `vm1`, port 2 to
    `vm2`. -/
inductive GlobalReg where
  | ntpPciecmdsts (x : Vm) | ntpNtctl (x : Vm) | ntpBarsetup (x : Vm) (i : Fin 6)
  | swportsts (x : Vm) | swpart0sts
  | swp0msgctl (i : Fin 4)
  | sests | selinkupsts | selinkdnsts | segsigsts
deriving DecidableEq, Repr

namespace GlobalReg

/-- The addresses of `enum idt_global_config_registers`. -/
def addr : GlobalReg → BitVec 64
  | ntpPciecmdsts .vm1 => 0x1004
  | ntpPciecmdsts .vm2 => 0x5004
  | ntpNtctl .vm1 => 0x1400
  | ntpNtctl .vm2 => 0x5400
  | ntpBarsetup .vm1 i => 0x1470 + 0x10 * BitVec.ofNat 64 i
  | ntpBarsetup .vm2 i => 0x5470 + 0x10 * BitVec.ofNat 64 i
  | swportsts .vm1 => 0x3E204
  | swportsts .vm2 => 0x3E244
  | swpart0sts => 0x3E104
  | swp0msgctl i => 0x3EE00 + 0x20 * BitVec.ofNat 64 i
  | sests => 0x3EC00
  | selinkupsts => 0x3EC0C
  | selinkdnsts => 0x3EC14
  | segsigsts => 0x3EC30

def all : List GlobalReg :=
  [.ntpPciecmdsts .vm1, .ntpPciecmdsts .vm2, .ntpNtctl .vm1, .ntpNtctl .vm2, .swportsts .vm1,
    .swportsts .vm2, .swpart0sts, .sests, .selinkupsts, .selinkdnsts, .segsigsts] ++
  [0, 1, 2, 3].map .swp0msgctl ++
  [0, 1, 2, 3, 4, 5].map (.ntpBarsetup .vm1) ++ [0, 1, 2, 3, 4, 5].map (.ntpBarsetup .vm2)

def decode (a : BitVec 64) : Option GlobalReg := all.find? (·.addr = a)

theorem mem_all (r : GlobalReg) : r ∈ all := by
  cases r with
  | ntpPciecmdsts x | ntpNtctl x | swportsts x => cases x <;> decide
  | ntpBarsetup x i => revert i; cases x <;> decide
  | swp0msgctl i => revert i; decide
  | _ => decide

theorem addr_nodup : (all.map addr).Nodup := by decide +kernel

@[simp] theorem decode_addr (r : GlobalReg) : decode r.addr = some r :=
  (find_addr addr_nodup (mem_all r)).2 rfl

end GlobalReg

/-! ## The shared structure -/

structure BARConfig where
  setup : BitVec 32
  limit : BitVec 32
  ltbase : BitVec 32
  utbase : BitVec 32
deriving DecidableEq, Repr, Inhabited

namespace BARConfig

def get (c : BARConfig) : BarField → BitVec 32
  | .setup => c.setup
  | .limit => c.limit
  | .ltbase => c.ltbase
  | .utbase => c.utbase

def set (c : BARConfig) (f : BarField) (v : BitVec 32) : BARConfig :=
  match f with
  | .setup => { c with setup := v }
  | .limit => { c with limit := v }
  | .ltbase => { c with ltbase := v }
  | .utbase => { c with utbase := v }

@[simp] theorem get_set (c : BARConfig) (f g : BarField) (v : BitVec 32) :
    (c.set f v).get g = if g = f then v else c.get g := by
  cases f <;> cases g <;> rfl

end BARConfig

structure IdtGlobalRegisters where
  segsigsts : BitVec 32
  segsigmsk : BitVec 32
  ntIntMask : BitVec 32
  ntmtbl0 : BitVec 32
deriving DecidableEq, Inhabited

structure IdtSharedRegisters where
  db : BitVec 32
  dbMask : BitVec 32
  inboundMwPart : BitVec 32
  ntctl : BitVec 64
  msgsts : BitVec 64
  msgstsMask : BitVec 64
  msg : Fin 4 → BitVec 64
  intsts : BitVec 64
  part0MsgControl : Fin 4 → BitVec 64
  inbMsgSrc : Fin 4 → BitVec 64
deriving DecidableEq, Inhabited

structure IdtIvshmemVmShmStorage where
  id : BitVec 32
  regs : IdtSharedRegisters
  barConfig : Fin 6 → BARConfig
deriving DecidableEq, Inhabited

/-- The shared memory: the structure, and the words `rest` that lie behind it. -/
structure IdtIvshmemShmStorage where
  gregs : IdtGlobalRegisters
  vm : Vm → IdtIvshmemVmShmStorage
  rest : ℕ → BitVec 32

/-- Zeroed shared memory. -/
instance : Inhabited IdtIvshmemShmStorage := ⟨⟨default, default, default⟩⟩

/-! ## Stores by position -/

/-- Replace one half of a 64-bit field (little-endian: the low half comes first). -/
def setHalf (v : BitVec 64) (high : Bool) (w : BitVec 32) : BitVec 64 :=
  if high then w ++ v.setWidth 32 else v.extractLsb' 32 32 ++ w

def IdtGlobalRegisters.storeWord (g : IdtGlobalRegisters) (k : ℕ) (v : BitVec 32) :
    IdtGlobalRegisters :=
  match k with
  | 0 => { g with segsigsts := v }
  | 1 => { g with segsigmsk := v }
  | 2 => { g with ntIntMask := v }
  | _ => { g with ntmtbl0 := v }

/-- The 35 words of `idt_shared_registers`: three 32-bit fields, then sixteen 64-bit ones. -/
def IdtSharedRegisters.storeWord (r : IdtSharedRegisters) (k : ℕ) (v : BitVec 32) :
    IdtSharedRegisters :=
  match k with
  | 0 => { r with db := v }
  | 1 => { r with dbMask := v }
  | 2 => { r with inboundMwPart := v }
  | k + 3 =>
    let high := k % 2 = 1
    let upd (a : Fin 4 → BitVec 64) (i : ℕ) : Fin 4 → BitVec 64 :=
      Function.update a (Fin.ofNat 4 i) (setHalf (a (Fin.ofNat 4 i)) high v)
    match k / 2 with
    | 0 => { r with ntctl := setHalf r.ntctl high v }
    | 1 => { r with msgsts := setHalf r.msgsts high v }
    | 2 => { r with msgstsMask := setHalf r.msgstsMask high v }
    | 3 | 4 | 5 | 6 => { r with msg := upd r.msg (k / 2 - 3) }
    | 7 => { r with intsts := setHalf r.intsts high v }
    | 8 | 9 | 10 | 11 => { r with part0MsgControl := upd r.part0MsgControl (k / 2 - 8) }
    | _ => { r with inbMsgSrc := upd r.inbMsgSrc (k / 2 - 12) }

/-- The field at a position in `BARConfig`. -/
def BarField.ofWord : ℕ → BarField
  | 0 => setup
  | 1 => limit
  | 2 => ltbase
  | _ => utbase

/-- The 60 words of a machine's block: the id, 35 words of registers, six `BARConfig`s. -/
def IdtIvshmemVmShmStorage.storeWord (b : IdtIvshmemVmShmStorage) (k : ℕ) (v : BitVec 32) :
    IdtIvshmemVmShmStorage :=
  if k = 0 then { b with id := v }
  else if k < 36 then { b with regs := b.regs.storeWord (k - 1) v }
  else
    let i := Fin.ofNat 6 ((k - 36) / 4)
    { b with barConfig :=
        Function.update b.barConfig i ((b.barConfig i).set (.ofWord ((k - 36) % 4)) v) }

namespace IdtIvshmemShmStorage

/-- The position of a machine's block in the structure, in words. -/
def blockWord : Vm → ℕ
  | .vm1 => 4
  | .vm2 => 64

/-- Replace the block of one machine. -/
def modVm (m : IdtIvshmemShmStorage) (x : Vm)
    (f : IdtIvshmemVmShmStorage → IdtIvshmemVmShmStorage) : IdtIvshmemShmStorage :=
  { m with vm := Function.update m.vm x (f (m.vm x)) }

def storeWord (m : IdtIvshmemShmStorage) (k : ℕ) (v : BitVec 32) : IdtIvshmemShmStorage :=
  if k < 4 then { m with gregs := m.gregs.storeWord k v }
  else if k < 64 then m.modVm .vm1 (·.storeWord (k - 4) v)
  else if k < 124 then m.modVm .vm2 (·.storeWord (k - 64) v)
  else { m with rest := Function.update m.rest (k - 124) v }

/-- `bar_config[i].f = v` on the block of `x`.  The index is not checked: past the six entries the
    store goes to whatever lies behind them, up to 64 GiB on (`Sys.InShm` bounds it). -/
def storeBar (m : IdtIvshmemShmStorage) (x : Vm) (i : BitVec 32) (f : BarField) (v : BitVec 32) :
    IdtIvshmemShmStorage :=
  m.storeWord (blockWord x + 36 + 4 * i.toNat + f.word) v

@[simp] theorem modVm_gregs (m : IdtIvshmemShmStorage) (x : Vm) (f) :
    (m.modVm x f).gregs = m.gregs := rfl

@[simp] theorem modVm_rest (m : IdtIvshmemShmStorage) (x : Vm) (f) :
    (m.modVm x f).rest = m.rest := rfl

@[simp] theorem modVm_self (m : IdtIvshmemShmStorage) (x : Vm) (f) :
    (m.modVm x f).vm x = f (m.vm x) := by simp [modVm]

theorem modVm_of_ne (m : IdtIvshmemShmStorage) {x y : Vm} (h : y ≠ x) (f) :
    (m.modVm x f).vm y = m.vm y := by simp [modVm, h]

@[simp] theorem modVm_other (m : IdtIvshmemShmStorage) (x : Vm) (f) :
    (m.modVm x f).vm x.other = m.vm x.other := modVm_of_ne m (Vm.other_ne x) f

@[simp] theorem modVm_other' (m : IdtIvshmemShmStorage) (x : Vm) (f) :
    (m.modVm x.other f).vm x = m.vm x := modVm_of_ne m (Vm.ne_other x) f

/-- The global registers lie before the blocks, where no index leads. -/
@[simp] theorem storeBar_gregs (m : IdtIvshmemShmStorage) (x : Vm) (i : BitVec 32) (f : BarField)
    (v : BitVec 32) : (m.storeBar x i f v).gregs = m.gregs := by
  unfold storeBar storeWord
  rw [if_neg (by omega)]
  split_ifs <;> rfl

/-- **The layout agrees with the fields**: an index below 6 stores into that entry of the array. -/
theorem storeBar_eq (m : IdtIvshmemShmStorage) (x : Vm) (i : Fin 6) (f : BarField) (v : BitVec 32) :
    m.storeBar x (BitVec.ofNat 32 i) f v = m.modVm x fun b =>
      { b with barConfig := Function.update b.barConfig i ((b.barConfig i).set f v) } := by
  have hi := i.isLt
  have hn : (BitVec.ofNat 32 i.val).toNat = i.val := by
    rw [BitVec.toNat_ofNat]; omega
  have hf : f.word < 4 := by cases f <;> decide
  have hof : BarField.ofWord f.word = f := by cases f <;> rfl
  have hblock : ∀ b : IdtIvshmemVmShmStorage, b.storeWord (36 + 4 * i.val + f.word) v =
      { b with barConfig := Function.update b.barConfig i ((b.barConfig i).set f v) } := by
    intro b
    have h1 : Fin.ofNat 6 ((36 + 4 * i.val + f.word - 36) / 4) = i := by
      apply Fin.ext
      simp only [Fin.ofNat_eq_cast, Fin.val_natCast]
      omega
    have h2 : (36 + 4 * i.val + f.word - 36) % 4 = f.word := by omega
    simp only [IdtIvshmemVmShmStorage.storeWord, h1, h2, hof]
    rw [if_neg (by omega), if_neg (by omega)]
  unfold storeBar storeWord
  rw [hn]
  cases x with
  | vm1 =>
    have hw : blockWord .vm1 = 4 := rfl
    rw [if_neg (by omega), if_pos (by omega)]
    congr 1
    funext b
    rw [← hblock b]
    congr 1
    omega
  | vm2 =>
    have hw : blockWord .vm2 = 64 := rfl
    rw [if_neg (by omega), if_neg (by omega), if_pos (by omega)]
    congr 1
    funext b
    rw [← hblock b]
    congr 1
    omega

end IdtIvshmemShmStorage

/-- A change of a block that keeps its id. -/
theorem modVm_id {m : IdtIvshmemShmStorage} {f : IdtIvshmemVmShmStorage → IdtIvshmemVmShmStorage}
    (hf : ∀ b, (f b).id = b.id) (z y : Vm) : ((m.modVm z f).vm y).id = (m.vm y).id := by
  rcases eq_or_ne y z with rfl | hy
  · rw [IdtIvshmemShmStorage.modVm_self, hf]
  · rw [IdtIvshmemShmStorage.modVm_of_ne m hy]

/-! ## Register values -/

/-- `VALUE_SWPORT0STS` and `VALUE_SWPORT2STS`: link up, NT function with DMA, partition 0. -/
def valueSwportsts : BitVec 64 := 0x1#64 <<< 4 ||| 0x8#64 <<< 6 ||| 0x0#64 <<< 10

/-- `VALUE_SWPART0STS`: the partition is enabled. -/
def valueSwpart0sts : BitVec 64 := 0x1#64 <<< 5

/-- `VALUE_NTP0_PCIECMDSTS` and `VALUE_NTP2_PCIECMDSTS`: bus master. -/
def valueNtpPciecmdsts : BitVec 64 := 0x1#64 <<< 2

/-- `VALUE_NTP0_NTCTL` and `VALUE_NTP2_NTCTL`: completion is disabled on start up. -/
def valueNtpNtctl : BitVec 64 := 0x0#64 <<< 1

/-- `VALUE_NT_PCIELCAP_VM1` and `VALUE_NT_PCIELCAP_VM2`: the local port number. -/
def valueNtPcielcap : Vm → BitVec 64
  | .vm1 => 0x0#64 <<< 24
  | .vm2 => 0x2#64 <<< 24

/-- `VALUE_NT_PCIELCTLSTS`: a 4-lane gen1 link. -/
def valueNtPcielctlsts : BitVec 64 := 0x1#64 <<< 16 ||| 0b100#64 <<< 20

/-- `VALUE_NT_PCICMDSTS`: bus master. -/
def valueNtPcicmdsts : BitVec 64 := 0x1#64 <<< 2

/-- `IDT_BAR_APERTURE_POWER`. -/
def idtBarAperturePower : ℕ := 20

/-- `IDT_BAR_APERTURE_SIZE`. -/
def idtBarApertureSize : ℕ := 2 ^ idtBarAperturePower

/-- `VALUE_NT_BARSETUP0`: 32-bit addressing, 4 KiB, the configuration space, enabled. -/
def valueNtBarsetup0 : BitVec 32 := 0x0#32 <<< 1 ||| 0xC#32 <<< 4 ||| 0x1#32 <<< 10 ||| 0x1#32 <<< 31

/-- `VALUE_NT_BARSETUP2` to `VALUE_NT_BARSETUP4`: a window of the aperture size, enabled. -/
def valueNtBarsetup2 : BitVec 32 := BitVec.ofNat 32 idtBarAperturePower <<< 4 ||| 0x1#32 <<< 31

/-- `IDT_NTINTSTS_MSG`. -/
def ntintstsMsg : BitVec 32 := 0x1

/-- `IDT_NTINTSTS_DBELL`. -/
def ntintstsDbell : BitVec 32 := 0x2

/-- `IDT_NTINTSTS_SEVENT`. -/
def ntintstsSevent : BitVec 32 := 0x8

/-- `0x1U << (IDT_FLD_OUTMSGSTS0 + i)`. -/
def fldOutmsgsts (i : ℕ) : BitVec 32 := 0x1#32 <<< i

/-- `0x1U << (IDT_FLD_INMSGSTS0 + i)`. -/
def fldInmsgsts (i : ℕ) : BitVec 32 := 0x1#32 <<< (16 + i)

/-- `EVENTFD_VM_ID`. -/
def eventfdVmId : ℕ := 0

/-- `EVENTFD_INTERRUPT_HOST`. -/
def eventfdInterruptHost : ℕ := 1

end IdtNtb
