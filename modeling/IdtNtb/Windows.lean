/-
  The memory windows: `idt_bar_read` and `idt_bar_write`.

  A window access goes through two checks against the BAR's limit, maps the
  peer's memory file on first use, and then loads or stores at the translated
  offset.  The result says, next to the value, at which offset of the mapping
  the memory was touched (`at?`, `none` for a refused access).  Neither handler
  looks at the size of the file: what happens to an access that leaves it is said
  in `Sys.nextMapped`.
-/
import IdtNtb.Device

namespace IdtNtb

/-- What `peer_mem` points to: a file of `size` bytes.  The bytes from `size` on are not the peer's,
    and nothing says that the process has mapped them. -/
structure Ram where
  size : ℕ
  /-- `st_size` is an `off_t`. -/
  size_lt : size < 2 ^ 63
  byte : ℕ → BitVec 8

namespace Ram

/-- A little-endian load of `n` bytes. -/
def load (m : Ram) (off : BitVec 64) (n : ℕ) : BitVec 64 :=
  (List.range n).foldr (fun k v => v <<< 8 ||| (m.byte (off.toNat + k)).setWidth 64) 0

/-- A little-endian store of `n` bytes. -/
def store (m : Ram) (off : BitVec 64) (n : ℕ) (v : BitVec 64) : Ram :=
  { m with byte := fun a =>
      if off.toNat ≤ a ∧ a < off.toNat + n then (v >>> (8 * (a - off.toNat))).setWidth 8
      else m.byte a }

@[simp] theorem store_size (m : Ram) (off : BitVec 64) (n : ℕ) (v : BitVec 64) :
    (m.store off n v).size = m.size := rfl

end Ram

/-- The windows that realize registers. -/
inductive Window where
  | bar2 | bar3 | bar4
deriving DecidableEq, Repr

/-- The index that `BAR_READ_FN` and `BAR_WRITE_FN` pass on. -/
def Window.idx : Window → Fin 6
  | bar2 => 2
  | bar3 => 3
  | bar4 => 4

def hex (v : BitVec 64) : String := "0x" ++ String.ofList (Nat.toDigits 16 v.toNat)

/-- A finished read: the value returned, and where the memory was read. -/
structure BarRead (x : Vm) where
  ctx : Ctx x
  ret : BitVec 64
  at? : Option (BitVec 64)

/-- A finished write: the peer's memory, and where it was written. -/
structure BarWrite (x : Vm) where
  ctx : Ctx x
  mem : Ram
  at? : Option (BitVec 64)

section
variable {x : Vm}

/-- `mem` is the peer's memory, and `map` says whether `map_peer_shm` succeeds if it is called.  For
    an access that leaves the file, see `Sys.InMemory`. -/
def idtBarRead (s : Ctx x) (mem : Ram) (map : Bool) (addr : BitVec 64) (size : ℕ) (idx : Fin 6) :
    Except Fault (BarRead x) :=
  let c := s.barConfig idx
  if c.limit = 0 then
    .ok ⟨s.emit (.errorReport "idt-ntb-ivshmem: memory window is inactive, reading 0"), 0, none⟩
  else if (s.dev.bars idx).val + addr > c.limit.setWidth 64 then
    .ok ⟨s.emit (.errorReport ("idt-ntb-ivshmem: BAR read past limit addr, reading 0 (bar: " ++
      hex (s.dev.bars idx).val ++ ", offset: " ++ hex addr ++ ")")), 0, none⟩
  else if !s.dev.peerMem && !map then .ok ⟨s, 0, none⟩
  else
    let s := { s with dev := { s.dev with peerMem := true } }
    if size = 4 ∨ size = 8 then
      let off := (c.utbase.setWidth 64 <<< 32) + c.ltbase.setWidth 64 + addr
      .ok ⟨s, mem.load off size, some off⟩
    else .error .assertion

def idtBarWrite (s : Ctx x) (mem : Ram) (map : Bool) (addr value : BitVec 64) (size : ℕ)
    (idx : Fin 6) : Except Fault (BarWrite x) :=
  let c := s.barConfig idx
  if c.limit = 0 then
    .ok ⟨s.emit (.errorReport "idt-ntb-ivshmem: memory window is inactive, refusing to write"),
      mem, none⟩
  else if (s.dev.bars idx).val + addr > c.limit.setWidth 64 then
    .ok ⟨s.emit (.errorReport
      ("idt-ntb-ivshmem: BAR write past limit addr, refusing to write (bar: " ++
        hex (s.dev.bars idx).val ++ ", offset: " ++ hex addr ++ ")")), mem, none⟩
  else if !s.dev.peerMem && !map then .ok ⟨s, mem, none⟩
  else
    let s := { s with dev := { s.dev with peerMem := true } }
    if size = 4 ∨ size = 8 then
      let off := (c.utbase.setWidth 64 <<< 32) + c.ltbase.setWidth 64 + addr
      .ok ⟨s, mem.store off size value, some off⟩
    else .error .assertion

/-! ## Which accesses are admitted -/

/-- The offset of the mapping that a window admits an access at `addr` to, with the window's base
    at bus address `bar`. -/
def BARConfig.target (c : BARConfig) (bar addr : BitVec 64) : Option (BitVec 64) :=
  if c.limit = 0 ∨ bar + addr > c.limit.setWidth 64 then none
  else some ((c.utbase.setWidth 64 <<< 32) + c.ltbase.setWidth 64 + addr)

/-- **Reads**: a read of 4 or 8 bytes returns the bytes at the window's target, or 0. -/
theorem idtBarRead_spec (s : Ctx x) (mem : Ram) (map : Bool) (addr : BitVec 64) {size : ℕ}
    (hsize : size = 4 ∨ size = 8) (idx : Fin 6) :
    ∃ r, idtBarRead s mem map addr size idx = .ok r ∧ r.ctx.shm = s.shm ∧
      r.at? = (if s.dev.peerMem ∨ map then (s.barConfig idx).target (s.dev.bars idx).val addr
        else none) ∧
      r.ret = (r.at?.map (mem.load · size)).getD 0 := by
  unfold idtBarRead BARConfig.target
  by_cases hl : (s.barConfig idx).limit = 0#32
  · simp [hl, Ctx.emit]
  by_cases hb : (s.dev.bars idx).val + addr > (s.barConfig idx).limit.setWidth 64
  · simp [hl, hb, Ctx.emit]
  by_cases hm : s.dev.peerMem = true ∨ map = true
  · rcases hm with hm | hm <;> simp [hl, hb, hm, hsize]
  · obtain ⟨h1, h2⟩ := not_or.1 hm
    simp [hl, hb, h1, h2]

/-- **Writes** take the same decision as reads, and change the memory only at the target. -/
theorem idtBarWrite_spec (s : Ctx x) (mem : Ram) (map : Bool) (addr value : BitVec 64) {size : ℕ}
    (hsize : size = 4 ∨ size = 8) (idx : Fin 6) :
    ∃ r, idtBarWrite s mem map addr value size idx = .ok r ∧ r.ctx.shm = s.shm ∧
      r.at? = (if s.dev.peerMem ∨ map then (s.barConfig idx).target (s.dev.bars idx).val addr
        else none) ∧
      r.mem = (r.at?.map (mem.store · size value)).getD mem := by
  unfold idtBarWrite BARConfig.target
  by_cases hl : (s.barConfig idx).limit = 0#32
  · simp [hl, Ctx.emit]
  by_cases hb : (s.dev.bars idx).val + addr > (s.barConfig idx).limit.setWidth 64
  · simp [hl, hb, Ctx.emit]
  by_cases hm : s.dev.peerMem = true ∨ map = true
  · rcases hm with hm | hm <;> simp [hl, hb, hm, hsize]
  · obtain ⟨h1, h2⟩ := not_or.1 hm
    simp [hl, hb, h1, h2]

end

end IdtNtb
