/-
  The memory windows as flat memory.

  The reference is one byte array for each machine (`serve`): an access names the
  registers of its window, is refused by the limit, and otherwise reads or writes
  the bytes from `utbase * 2 ^ 32 + ltbase + off` on, little-endian.

  * `bytes_store` and `toNat_load` are the stores and loads of the mapping on the
    byte array; `serve_step` is one step of the two devices on the reference;
  * `windows_flat_memory`: in whole runs the devices leave the memories and give
    the answers of the reference, as long as the accesses stay inside the
    memories.
-/
import IdtNtb.Lib.Bytes
import IdtNtb.Placement

namespace IdtNtb

open Function (update)
open Bytes Runs

/-! ## The reference -/

/-- An access to the memory of one machine, with the registers of its window at the time. -/
structure Request where
  mem : Vm
  base : ℕ
  limit : ℕ
  utbase : ℕ
  ltbase : ℕ
  off : ℕ
  size : ℕ
  /-- The value that a write stores. -/
  write? : Option ℕ

namespace Request
variable (r : Request)

def Refused : Prop := r.limit = 0 ∨ r.limit < r.base + r.off

instance : Decidable r.Refused := inferInstanceAs (Decidable (_ ∨ _))

/-- The first byte accessed. -/
def target : ℕ := r.utbase * 2 ^ 32 + r.ltbase + r.off

/-- The byte that a write stores at `a` in the memory of `y`. -/
def stores (y : Vm) (a : ℕ) : Option (BitVec 8) :=
  match r.write? with
  | some v =>
    if ¬ r.Refused ∧ r.mem = y ∧ r.target ≤ a ∧ a < r.target + r.size then
      some (BitVec.ofNat 8 (v / 256 ^ (a - r.target)))
    else none
  | none => none

/-- The byte arrays after the access, and the answer to a read. -/
def serve (M : Vm → List (BitVec 8)) : (Vm → List (BitVec 8)) × Option ℕ :=
  match r.write? with
  | some v => (if r.Refused then M
      else update M r.mem (writeAt (M r.mem) r.target (split r.size v)), none)
  | none => (M, some (if r.Refused then 0 else value (readAt (M r.mem) r.target r.size)))

end Request

/-- The byte arrays after a list of accesses, and the answers to the reads among them. -/
def serveAll (M : Vm → List (BitVec 8)) (l : List Request) : (Vm → List (BitVec 8)) × List ℕ :=
  l.foldl (fun a r => ((r.serve a.1).1, a.2 ++ (r.serve a.1).2.toList)) (M, [])

theorem serveAll_snoc (M : Vm → List (BitVec 8)) (l : List Request) (r : Request) :
    serveAll M (l ++ [r]) = ((r.serve (serveAll M l).1).1,
      (serveAll M l).2 ++ (r.serve (serveAll M l).1).2.toList) := by
  unfold serveAll
  rw [List.foldl_append, List.foldl_cons, List.foldl_nil]

/-! ## The mapping as a byte array -/

namespace Ram
variable {m : Ram} {off : BitVec 64} {n : ℕ}

def bytes (m : Ram) : List (BitVec 8) := (List.range m.size).map m.byte

@[simp] theorem length_bytes : m.bytes.length = m.size := by simp [bytes]

theorem getElem?_bytes (i : ℕ) : m.bytes[i]? = if i < m.size then some (m.byte i) else none := by
  unfold bytes
  rw [List.getElem?_map]
  split_ifs with hi
  · rw [List.getElem?_range hi]
    rfl
  · rw [List.getElem?_eq_none (by simpa using hi)]
    rfl

/-- A store inside the memory writes the bytes of the value. -/
theorem bytes_store (h : off.toNat + n ≤ m.size) (v : BitVec 64) :
    (m.store off n v).bytes = writeAt m.bytes off.toNat (split n v.toNat) := by
  apply List.ext_getElem?
  intro i
  rw [getElem?_writeAt (by simpa using h), getElem?_bytes, getElem?_bytes, store_size,
    length_split]
  by_cases hi : off.toNat ≤ i ∧ i < off.toNat + n
  · rw [if_pos (by omega), if_pos hi, getElem?_split, if_pos (by omega), ofNat_div_pow]
    simp only [store, if_pos hi]
  · rw [if_neg hi]
    simp only [store, if_neg hi]

/-- What is read inside the memory. -/
theorem readAt_bytes {p : ℕ} (h : p + n ≤ m.size) :
    readAt m.bytes p n = (List.range n).map fun k => m.byte (p + k) := by
  apply List.ext_getElem?
  intro k
  rw [getElem?_readAt, List.getElem?_map, getElem?_bytes]
  split_ifs with h1 h2
  · rw [List.getElem?_range h1]
    rfl
  · omega
  · rw [List.getElem?_eq_none (by simpa using h1)]
    rfl

/-- A load inside the memory returns the value of the bytes. -/
theorem toNat_load (h : off.toNat + n ≤ m.size) (hn : n ≤ 8) :
    (m.load off n).toNat = value (readAt m.bytes off.toNat n) := by
  rw [readAt_bytes h, ← toNat_foldr_shift _ (by simpa using hn), List.foldr_map]
  rfl

end Ram

/-! ## The accesses of a run -/

/-- An access to the reference. -/
def Sys.request (s : Sys) (x : Vm) (w : Window) (addr : BitVec 64) (size : ℕ) (write? : Option ℕ) :
    Request where
  mem := x.other
  base := ((s.dev x).bars w.idx).val.toNat
  limit := (s.barConfig x w.idx).limit.toNat
  utbase := (s.barConfig x w.idx).utbase.toNat
  ltbase := (s.barConfig x w.idx).ltbase.toNat
  off := addr.toNat
  size := size
  write? := write?

/-- The memories as byte arrays. -/
def Sys.arrays (s : Sys) (y : Vm) : List (BitVec 8) := (s.ram y).bytes

section
variable (e : Sys × Act)

def request : Option Request :=
  match e.2 with
  | .barRead x w addr size _ => some (e.1.request x w addr size none)
  | .barWrite x w addr v size _ => some (e.1.request x w addr size (some v.toNat))
  | _ => none

/-- What the handler of a read returns. -/
def answer : Option ℕ :=
  match e.2 with
  | .barRead x w addr size map =>
    match idtBarRead (e.1.ctx x) (e.1.ram x.other) map addr size w.idx with
    | .ok r => some r.ret.toNat
    | .error _ => none
  | _ => none

/-- An access is one that a guest can ask for, and finds the peer's memory mapped. -/
def Served : Prop :=
  match e.2 with
  | .barRead x _ addr size map | .barWrite x _ addr _ size map =>
    Asked addr size ∧ ((e.1.dev x).peerMem = true ∨ map = true)
  | _ => True

/-- An access is refused, or stays inside the memory. -/
def Inside : Prop :=
  ∀ r ∈ request e, r.Refused ∨ r.target + r.size ≤ (e.1.ram r.mem).size

instance : Decidable (Served e) := by
  unfold Served Asked
  split <;> infer_instance

instance : Decidable (Inside e) := by
  unfold Inside
  infer_instance

end

variable {s s' s₀ : Sys} {x y : Vm} {w : Window} {addr v : BitVec 64} {n : ℕ} {map : Bool}
  {t : List (Sys × Act)}

theorem request_target {write? : Option ℕ} : (s.request x w addr n write?).target =
    (s.barConfig x w.idx).base + addr.toNat := rfl

/-- The code and the reference take the same decision. -/
theorem refused_iff {write? : Option ℕ} (haddr : addr.toNat < idtBarApertureSize) :
    (s.request x w addr n write?).Refused ↔
      (s.barConfig x w.idx).target ((s.dev x).bars w.idx).val addr = none := by
  rw [BARConfig.target_eq_none _ haddr]
  exact or_congr_left ⟨fun h => BitVec.eq_of_toNat_eq h, fun h => congrArg BitVec.toNat h⟩

/-- Inside the memory they mean the same bytes. -/
theorem target_request {write? : Option ℕ} (haddr : addr.toNat < idtBarApertureSize)
    (hin : (s.request x w addr n write?).Refused ∨
      (s.request x w addr n write?).target + n ≤ (s.ram x.other).size) :
    ((s.request x w addr n write?).Refused ∧
      (s.barConfig x w.idx).target ((s.dev x).bars w.idx).val addr = none) ∨
    (¬ (s.request x w addr n write?).Refused ∧
      ∃ p, (s.barConfig x w.idx).target ((s.dev x).bars w.idx).val addr = some p ∧
        p.toNat = (s.request x w addr n write?).target ∧
        p.toNat + n ≤ (s.ram x.other).size) := by
  by_cases hr : (s.request x w addr n write?).Refused
  · exact Or.inl ⟨hr, (refused_iff haddr).1 hr⟩
  · obtain ⟨p, hp⟩ := Option.ne_none_iff_exists'.1 fun h => hr ((refused_iff haddr).2 h)
    obtain ⟨-, -, rfl⟩ := ((s.barConfig x w.idx).target_eq_some haddr).1 hp
    have hin := hin.resolve_left hr
    have hsize := (s.ram x.other).size_lt
    have hnat : ((((s.barConfig x w.idx).utbase.setWidth 64 <<< 32) +
        (s.barConfig x w.idx).ltbase.setWidth 64 + addr : BitVec 64)).toNat =
        (s.request x w addr n write?).target := by
      -- the sum does not wrap
      rw [request_target] at hin
      rw [BARConfig.toNat_translate, request_target, Nat.mod_eq_of_lt (by omega)]
    refine Or.inr ⟨hr, _, hp, hnat, ?_⟩
    rw [hnat]
    exact hin

/-- A read answers 0, or what the memory holds. -/
theorem read_cases (hs : Served (s, .barRead x w addr n map))
    (hin : Inside (s, .barRead x w addr n map)) :
    ((s.request x w addr n none).Refused ∧ answer (s, .barRead x w addr n map) = some 0) ∨
    (¬ (s.request x w addr n none).Refused ∧ ∃ p : BitVec 64,
      p.toNat = (s.request x w addr n none).target ∧ p.toNat + n ≤ (s.ram x.other).size ∧
      answer (s, .barRead x w addr n map) = some ((s.ram x.other).load p n).toNat) := by
  obtain ⟨⟨haddr, hn⟩, hmap⟩ := hs
  obtain ⟨r, hr, -, hat, hret⟩ :=
    idtBarRead_spec (s.ctx x) (s.ram x.other) map addr hn w.idx
  have hat := hat.trans (if_pos hmap)
  have hans : answer (s, .barRead x w addr n map) = some r.ret.toNat := by
    simp only [answer, hr]
  rw [hans, hret, hat]
  rcases target_request haddr (hin _ rfl) with ⟨href, htgt⟩ | ⟨href, p, htgt, hp, hlt⟩
  · refine Or.inl ⟨href, ?_⟩
    simp only [Sys.ctx_barConfig, Sys.ctx_dev, htgt]
    rfl
  · refine Or.inr ⟨href, p, hp, hlt, ?_⟩
    simp only [Sys.ctx_barConfig, Sys.ctx_dev, htgt]
    rfl

/-- A write leaves the memories alone, or stores into the one of the peer. -/
theorem write_cases (h : Step s (.barWrite x w addr v n map) s')
    (hs : Served (s, .barWrite x w addr v n map)) (hin : Inside (s, .barWrite x w addr v n map)) :
    ((s.request x w addr n (some v.toNat)).Refused ∧ s'.ram = s.ram) ∨
    (¬ (s.request x w addr n (some v.toNat)).Refused ∧ ∃ p : BitVec 64,
      p.toNat = (s.request x w addr n (some v.toNat)).target ∧
      p.toNat + n ≤ (s.ram x.other).size ∧
      s'.ram = update s.ram x.other ((s.ram x.other).store p n v)) := by
  obtain ⟨⟨haddr, hn⟩, hmap⟩ := hs
  obtain ⟨r, hr, -, hat, hmem⟩ :=
    idtBarWrite_spec (s.ctx x) (s.ram x.other) map addr v hn w.idx
  have hat := hat.trans (if_pos hmap)
  have hram : s'.ram = update s.ram x.other r.mem := by
    obtain ⟨out, h⟩ := Sys.next_ok.1 h
    obtain ⟨r', hr', hf⟩ := bind_ok.1 h
    obtain rfl : r = r' := Except.ok.inj (hr.symm.trans hr')
    obtain ⟨pending, -, rfl, -⟩ := Sys.finish_ok.1 hf
    rfl
  rw [hram, hmem, hat]
  rcases target_request haddr (hin _ rfl) with ⟨href, htgt⟩ | ⟨href, p, htgt, hp, hlt⟩
  · refine Or.inl ⟨href, ?_⟩
    simp only [Sys.ctx_barConfig, Sys.ctx_dev, htgt]
    exact Function.update_eq_self _ _
  · refine Or.inr ⟨href, p, hp, hlt, ?_⟩
    simp only [Sys.ctx_barConfig, Sys.ctx_dev, htgt]
    rfl

/-! ## Steps and runs -/

theorem arrays_update {m : Ram} (h : s'.ram = update s.ram y m) :
    s'.arrays = update s.arrays y m.bytes := by
  funext z
  unfold Sys.arrays
  rw [h]
  exact Function.apply_update (fun _ => Ram.bytes) s.ram y m z

theorem arrays_congr (h : s'.ram = s.ram) : s'.arrays = s.arrays := by
  funext y
  unfold Sys.arrays
  rw [h]

/-- **One step** of the devices is one access to the reference, or none. -/
theorem serve_step {a : Act} (h : Step s a s') (hs : Served (s, a)) (hin : Inside (s, a)) :
    match request (s, a) with
    | some r => r.serve s.arrays = (s'.arrays, answer (s, a))
    | none => s'.arrays = s.arrays ∧ answer (s, a) = none := by
  cases a with
  | barRead x w addr n map =>
    show (s.request x w addr n none).serve s.arrays = _
    rw [arrays_congr (step_ram h nofun), Request.serve]
    rcases read_cases hs hin with ⟨href, hans⟩ | ⟨href, p, hp, hlt, hans⟩
    · rw [hans]
      exact Prod.ext rfl (congrArg some (if_pos href))
    · have hn : n ≤ 8 := by
        rcases hs.1.2 with rfl | rfl <;> omega
      rw [hans, Ram.toNat_load hlt hn, hp]
      exact Prod.ext rfl (congrArg some (if_neg href))
  | barWrite x w addr v n map =>
    show (s.request x w addr n (some v.toNat)).serve s.arrays = _
    rcases write_cases h hs hin with ⟨href, hram⟩ | ⟨href, p, hp, hlt, hram⟩
    · rw [arrays_congr hram, Request.serve]
      exact Prod.ext (if_pos href) rfl
    · rw [arrays_update hram, Ram.bytes_store hlt, hp, Request.serve]
      exact Prod.ext (if_neg href) rfl
  | write x addr v => exact ⟨arrays_congr (step_ram h nofun), rfl⟩
  | read x addr => exact ⟨arrays_congr (step_ram h nofun), rfl⟩
  | notify x vector => exact ⟨arrays_congr (step_ram h nofun), rfl⟩

/-- The devices leave the memories, and give the answers, of the reference. -/
theorem serveAll_run (h : Run Step s₀ t s) (hs : ∀ e ∈ t, Served e) (hin : ∀ e ∈ t, Inside e) :
    serveAll s₀.arrays (t.filterMap request) = (s.arrays, t.filterMap answer) := by
  induction h with
  | nil => rfl
  | @snoc t s₁ a s₂ _ ha ih =>
    have ih := ih (fun e he => hs e (by simp [he])) (fun e he => hin e (by simp [he]))
    have hstep := serve_step ha (hs _ (by simp)) (hin _ (by simp))
    cases hreq : request (s₁, a) with
    | some r =>
      rw [hreq] at hstep
      dsimp only at hstep
      rw [List.filterMap_append, List.filterMap_append, List.filterMap_cons_some hreq,
        List.filterMap_nil, serveAll_snoc, ih, hstep]
      cases hans : answer (s₁, a) with
      | some v => rw [List.filterMap_cons_some hans]; rfl
      | none => rw [List.filterMap_cons_none hans]; rfl
    | none =>
      rw [hreq] at hstep
      obtain ⟨harr, hans⟩ := hstep
      rw [List.filterMap_append, List.filterMap_append, List.filterMap_cons_none hreq,
        List.filterMap_cons_none hans, harr]
      simpa using ih

/-- **One step, seen from one byte**: the byte is what the access stores there, or what it was. -/
theorem byte_step {act : Act} (h : Step s act s') (hs : Served (s, act)) (hin : Inside (s, act))
    (y : Vm) (a : ℕ) : (s'.ram y).byte a =
      ((request (s, act)).bind fun r => r.stores y a).getD ((s.ram y).byte a) := by
  cases act with
  | barWrite x w addr v n map =>
    have hstores : (s.request x w addr n (some v.toNat)).stores y a =
        if ¬ (s.request x w addr n (some v.toNat)).Refused ∧ x.other = y ∧
            (s.request x w addr n (some v.toNat)).target ≤ a ∧
            a < (s.request x w addr n (some v.toNat)).target + n then
          some (BitVec.ofNat 8 (v.toNat /
            256 ^ (a - (s.request x w addr n (some v.toNat)).target)))
        else none := rfl
    show _ = ((s.request x w addr n (some v.toNat)).stores y a).getD _
    rw [hstores]
    rcases write_cases h hs hin with ⟨href, hram⟩ | ⟨href, p, hp, hlt, hram⟩
    · rw [if_neg fun hc => hc.1 href, hram]
      rfl
    rw [hram, ← hp, ofNat_div_pow]
    by_cases hy : x.other = y
    · subst hy
      rw [Function.update_self]
      by_cases ha : p.toNat ≤ a ∧ a < p.toNat + n
      · rw [if_pos ⟨href, rfl, ha⟩]
        exact if_pos ha
      · rw [if_neg fun hc => ha hc.2.2]
        exact if_neg ha
    · rw [if_neg fun hc => hy hc.2.1, Function.update_of_ne fun hc => hy hc.symm]
      rfl
  | barRead x w addr n map => rw [step_ram h nofun]; rfl
  | write x addr v => rw [step_ram h nofun]; rfl
  | read x addr => rw [step_ram h nofun]; rfl
  | notify x vector => rw [step_ram h nofun]; rfl

/-- A byte holds what the last write that covers it has stored there. -/
theorem byte_run (h : Run Step s₀ t s) (hs : ∀ e ∈ t, Served e) (hin : ∀ e ∈ t, Inside e) (y : Vm)
    (a : ℕ) : (s.ram y).byte a =
      (((t.filterMap request).filterMap fun r => r.stores y a).getLast?).getD
        ((s₀.ram y).byte a) := by
  rw [List.filterMap_filterMap]
  refine Run.register _ (fun s => (s.ram y).byte a) h ?_
  rintro ⟨s₁, act⟩ he s' hst
  exact byte_step hst (hs _ he) (hin _ he) y a

/-- Every read that is not refused returns, byte by byte, what was written there last. -/
def ReadsLast (s₀ : Sys) (t : List (Sys × Act)) : Prop :=
  ∀ t₁ e t₂ r, t = t₁ ++ e :: t₂ → request e = some r → r.write? = none → ¬ r.Refused →
    ∃ v, answer e = some v ∧ ∀ k < r.size, (split r.size v)[k]? =
      some ((((t₁.filterMap request).filterMap fun r' => r'.stores r.mem (r.target + k)).getLast?).getD
        ((s₀.ram r.mem).byte (r.target + k)))

theorem readsLast_run (h : Run Step s₀ t s) (hs : ∀ e ∈ t, Served e)
    (hin : ∀ e ∈ t, Inside e) : ReadsLast s₀ t := by
  rintro t₁ ⟨s₁, a⟩ t₂ r rfl hreq hread href
  obtain ⟨h₁, -⟩ := h.split
  cases a with
  | barRead x w addr n map =>
    cases hreq
    have hserved := hs (s₁, .barRead x w addr n map) (by simp)
    rcases read_cases hserved (hin _ (by simp)) with ⟨hr, -⟩ | ⟨-, p, hp, hlt, hans⟩
    · exact absurd hr href
    refine ⟨_, hans, fun k hk => ?_⟩
    have hn : n ≤ 8 := by
      rcases hserved.1.2 with rfl | rfl <;> omega
    show (split n _)[k]? = some (_ : BitVec 8)
    have hk : k < n := hk
    rw [Ram.toNat_load hlt hn, split_value_readAt (by simpa using hlt), getElem?_readAt, if_pos hk,
      Ram.getElem?_bytes, if_pos (by omega), hp]
    exact congrArg some (byte_run h₁ (fun e he => hs e (by simp [he]))
      (fun e he => hin e (by simp [he])) _ _)
  | barWrite x w addr v n map =>
    cases hreq
    cases hread
  | write x addr v => cases hreq
  | read x addr => cases hreq
  | notify x vector => cases hreq

/-- **The memory windows are flat memory**: the memories and the answers are those of the reference,
    reads and writes are refused alike, and a read returns what was written last. -/
theorem windows_flat_memory (h : Run Step s₀ t s) (hs : ∀ e ∈ t, Served e)
    (hin : ∀ e ∈ t, Inside e) :
    serveAll s₀.arrays (t.filterMap request) = (s.arrays, t.filterMap answer) ∧
    (∀ x w k off n, Asked off n →
      (performed s x w k off n = none ↔ (s.request x w off n none).Refused)) ∧
    ReadsLast s₀ t := by
  refine ⟨serveAll_run h hs hin, fun x w k off n hask => ?_, readsLast_run h hs hin⟩
  rw [performed_eq hask.2]
  exact (refused_iff hask.1).symm

/-- The first guest opens BAR 2, and BAR 3 four bytes further on, and reads through the second what
    it wrote through the first. -/
def overlapping : List Act :=
  [.write .vm1 (ConfigReg.bar .limit 2).addr 0x1000, .write .vm1 (ConfigReg.bar .ltbase 2).addr 0x100,
    .write .vm1 (ConfigReg.bar .limit 3).addr 0x1000,
    .write .vm1 (ConfigReg.bar .ltbase 3).addr 0x104,
    .barWrite .vm1 .bar2 0 0x1122334455667788 8 true, .barRead .vm1 .bar3 0 4 true]

theorem windows_flat_memory_overlapping : ∃ s,
    Run Step Sys.started (trace Sys.next Sys.started overlapping) s ∧
      serveAll Sys.started.arrays ((trace Sys.next Sys.started overlapping).filterMap request) =
        (s.arrays, [0x11223344]) := by
  obtain ⟨s, hs⟩ : ∃ s, exec Sys.next Sys.started overlapping = .ok s := ⟨_, rfl⟩
  have hans : (trace Sys.next Sys.started overlapping).filterMap answer = [0x11223344] := by decide
  have hflat := windows_flat_memory (Run.of_exec hs) (by decide) (by decide)
  rw [hans] at hflat
  exact ⟨s, Run.of_exec hs, hflat.1⟩

end IdtNtb
