/-
  What the process has mapped.

  A `Ram` has a byte at every address and `IdtIvshmemShmStorage` a word at every
  position, while the process has mapped the peer's memory file and the shared
  memory, and behind them whatever it put there, or nothing.  What an access does
  that leaves them is undefined.

  * `Sys.InMemory`: a window access that is performed stays inside the file;
  * `Sys.InShm`: a store through the out-of-spec selector stays inside the shared
    memory, which a selector below 6 always does (`Sys.SelFor.inShm`);
  * `Sys.nextMapped` is `Sys.next` with a fault in the place of the other accesses
    (`nextMapped_ok`).
-/
import IdtNtb.System

namespace IdtNtb

open IdtIvshmemShmStorage (blockWord)
open Runs

variable {s s' : Sys} {x : Vm} {w : Window} {addr T : BitVec 64} {map : Bool} {a : Act} {behind : ℕ}

/-- Where an access at `addr` lands: the window admits it, and the peer's memory can be mapped. -/
def Lands (s : Sys) (x : Vm) (w : Window) (map : Bool) (addr T : BitVec 64) : Prop :=
  ((s.dev x).peerMem ∨ map) ∧ (s.barConfig x w.idx).target ((s.dev x).bars w.idx).val addr = some T

instance : Decidable (Lands s x w map addr T) := inferInstanceAs (Decidable (_ ∧ _))

/-- An access lands in at most one place. -/
theorem Lands.unique {T' : BitVec 64} (h : Lands s x w map addr T) (h' : Lands s x w map addr T') :
    T = T' :=
  Option.some_inj.1 (h.2.symm.trans h'.2)

namespace Sys

/-- The access of `size` bytes at `addr` stays inside the peer's memory file wherever it lands. -/
def LandsInside (s : Sys) (x : Vm) (w : Window) (map : Bool) (addr : BitVec 64) (size : ℕ) : Prop :=
  ∀ T, Lands s x w map addr T → T.toNat + size ≤ (s.ram x.other).size

instance {size : ℕ} : Decidable (s.LandsInside x w map addr size) :=
  decidable_of_iff
    (((s.dev x).peerMem ∨ map) →
      ((s.barConfig x w.idx).target ((s.dev x).bars w.idx).val addr).all
        (fun T => T.toNat + size ≤ (s.ram x.other).size) = true) <| by
    simp only [LandsInside, Lands, Option.all_eq_true, decide_eq_true_iff, and_imp]
    exact ⟨fun h T hmap hT => h hmap T hT, fun h hmap T hT => h T hmap hT⟩

theorem landsInside_iff {size : ℕ} (h : Lands s x w map addr T) :
    s.LandsInside x w map addr size ↔ T.toNat + size ≤ (s.ram x.other).size := by
  refine ⟨fun hin => hin T h, fun hle T' hT' => ?_⟩
  rw [← h.unique hT']
  exact hle

/-- A window access that is performed stays inside the peer's memory file. -/
def InMemory (s : Sys) : Act → Prop
  | .barRead x w addr size map | .barWrite x w addr _ size map => s.LandsInside x w map addr size
  | _ => True

instance : (a : Act) → Decidable (s.InMemory a)
  | .barRead x w addr size map | .barWrite x w addr _ size map =>
    inferInstanceAs (Decidable (s.LandsInside x w map addr size))
  | .write _ _ _ | .read _ _ | .notify _ _ => isTrue trivial

/-- A store through the out-of-spec selector stays inside the shared memory, of which `behind` words
    follow the structure. -/
def InShm (s : Sys) (behind : ℕ) : Act → Prop
  | .write x addr _ => ∀ r ∈ ConfigReg.decode addr, ∀ f ∈ oofField r,
      blockWord x.other + 36 + 4 * (s.lregs x).inboundMwBar.toNat + f.word < 124 + behind
  | _ => True

instance : (a : Act) → Decidable (s.InShm behind a)
  | .write x addr _ => inferInstanceAs (Decidable (∀ r ∈ ConfigReg.decode addr, ∀ f ∈ oofField r,
      blockWord x.other + 36 + 4 * (s.lregs x).inboundMwBar.toNat + f.word < 124 + behind))
  | .read _ _ | .notify _ _ | .barRead _ _ _ _ _ | .barWrite _ _ _ _ _ _ => isTrue trivial

/-- The action touches nothing but the peer's memory file and the shared memory. -/
structure Mapped (s : Sys) (behind : ℕ) (a : Act) : Prop where
  inMemory : s.InMemory a
  inShm : s.InShm behind a

instance : Decidable (s.Mapped behind a) :=
  decidable_of_iff (s.InMemory a ∧ s.InShm behind a) ⟨fun h => ⟨h.1, h.2⟩, fun h => ⟨h.1, h.2⟩⟩

/-- A window access has no part in the shared memory. -/
theorem mapped_barWrite {value : BitVec 64} {size : ℕ} :
    s.Mapped behind (.barWrite x w addr value size map) ↔ s.LandsInside x w map addr size :=
  ⟨fun h => h.inMemory, fun h => ⟨h, trivial⟩⟩

/-- Run one handler, in a process that has mapped the files and nothing behind them. -/
def nextMapped (behind : ℕ) (s : Sys) (a : Act) : Except Fault Sys :=
  if s.Mapped behind a then s.next a else .error .badPointer

/-- Inside the mappings there is no difference. -/
theorem nextMapped_of_mapped (h : s.Mapped behind a) : s.nextMapped behind a = s.next a := if_pos h

theorem nextMapped_ok : s.nextMapped behind a = .ok s' ↔ s.Mapped behind a ∧ s.next a = .ok s' := by
  unfold nextMapped
  split_ifs with h
  · exact (and_iff_right h).symm
  · refine iff_of_false ?_ fun h' => h h'.1
    intro h'
    cases h'

/-- **A selector below 6** stays inside the structure. -/
theorem SelFor.inShm (h : s.SelFor a) (behind : ℕ) : s.InShm behind a := by
  cases a with
  | write x addr v =>
    intro r hr f hf
    obtain rfl : r.addr = addr := (ConfigReg.decode_eq_some.1 hr).symm
    have hsel : (s.lregs x).inboundMwBar.toNat < 6 :=
      h x r v rfl (oofField_isSome.1 (Option.isSome_iff_exists.2 ⟨f, hf⟩))
    have hword : f.word < 4 := by cases f <;> decide
    have hblock : blockWord x.other ≤ 64 := by cases x <;> decide
    omega
  | _ => trivial

end Sys

end IdtNtb
