/-
  The memories over the whole life of the bridge.

  The memory files belong to the machines, and not to the devices that map them.
  `MemStep` is what they are meant to be: one byte array for each machine, which
  an access reads or writes, and which nothing else reaches.

  * `last_read`: in every run of this system a read returns what was written
    there last;
  * `memory_step`: each step of the bridge is one of its steps, whether a guest
    accesses a window, places its BARs, or devices come and go;
  * `memory_for_life`: so the guests of the bridge see flat memory, however often
    the devices between them are replaced.
-/
import IdtNtb.Bridge
import IdtNtb.FlatMemory
import IdtNtb.Pairing

namespace IdtNtb

open Bytes Runs

/-! ## Flat memory -/

/-- One step of flat memory: nothing happens, or it serves an access and gives its answer. -/
def MemStep (M : Vm → List (BitVec 8)) (a : Option Request × Option ℕ)
    (M' : Vm → List (BitVec 8)) : Prop :=
  (a = (none, none) ∧ M' = M) ∨ ∃ r, a.1 = some r ∧ r.serve M = (M', a.2)

/-- The access of a step. -/
def asked {κ : Type} (e : κ × Option Request × Option ℕ) : Option Request := e.2.1

/-- The answer of a step. -/
def answered {κ : Type} (e : κ × Option Request × Option ℕ) : Option ℕ := e.2.2

/-- The access of the step is refused, or stays inside the memory. -/
def Request.Fits (M : Vm → List (BitVec 8)) (r : Request) : Prop :=
  r.Refused ∨ r.target + r.size ≤ (M r.mem).length

section
variable {M M₀ M' : Vm → List (BitVec 8)} {y : Vm}
  {t : List ((Vm → List (BitVec 8)) × Option Request × Option ℕ)}

/-- A run of flat memory is the reference. -/
theorem serveAll_of_run (h : Run MemStep M₀ t M) :
    serveAll M₀ (t.filterMap asked) = (M, t.filterMap answered) := by
  induction h with
  | nil => rfl
  | @snoc t M a M' _ hst ih =>
    rw [List.filterMap_append, List.filterMap_append]
    rcases hst with ⟨rfl, rfl⟩ | ⟨r, hr, hserve⟩
    · rw [List.filterMap_cons_none (f := asked) rfl, List.filterMap_cons_none (f := answered) rfl]
      simpa using ih
    · have hasked : asked (M, a) = some r := hr
      rw [List.filterMap_cons_some hasked, List.filterMap_nil, serveAll_snoc, ih, hserve]
      cases hans : a.2 <;> simp [answered, hans]

/-- One byte after an access. -/
theorem serve_byte {r : Request} (hin : r.Fits M) (a : ℕ) :
    ((r.serve M).1 y)[a]? = ((r.stores y a).map some).getD ((M y)[a]?) := by
  unfold Request.serve Request.stores
  cases hw : r.write? with
  | none => rfl
  | some v =>
    dsimp only
    by_cases href : r.Refused
    · rw [if_pos href, if_neg fun hc => hc.1 href]
      rfl
    rw [if_neg href]
    have hlen : r.target + (split r.size v).length ≤ (M r.mem).length := by
      rw [length_split]
      exact hin.resolve_left href
    by_cases hy : r.mem = y
    · subst hy
      rw [Function.update_self, getElem?_writeAt hlen, length_split]
      by_cases ha : r.target ≤ a ∧ a < r.target + r.size
      · rw [if_pos ha, if_pos ⟨href, rfl, ha⟩, getElem?_split, if_pos (by omega)]
        rfl
      · rw [if_neg ha, if_neg fun hc => ha hc.2.2]
        rfl
    · rw [Function.update_of_ne (Ne.symm hy), if_neg fun hc => hy hc.2.1]
      rfl

/-- A byte holds what the last write that covers it has stored there. -/
theorem byte_of_run (h : Run MemStep M₀ t M) (hin : ∀ e ∈ t, ∀ r ∈ asked e, r.Fits e.1) (a : ℕ) :
    (M y)[a]? = (((t.filterMap asked).filterMap (·.stores y a)).map some).getLast?.getD
      ((M₀ y)[a]?) := by
  rw [List.filterMap_filterMap, List.map_filterMap]
  refine h.register _ (fun M => (M y)[a]?) ?_
  rintro ⟨M₁, e⟩ he M₂ (⟨rfl, rfl⟩ | ⟨r, hr, hserve⟩)
  · rfl
  · have hbyte := serve_byte (y := y) (hin _ he r hr) a
    rw [hserve] at hbyte
    have hasked : asked (M₁, e) = some r := hr
    rw [hasked]
    exact hbyte

/-- **A read returns what was written last**, byte by byte. -/
theorem last_read (h : Run MemStep M₀ t M) (hin : ∀ e ∈ t, ∀ r ∈ asked e, r.Fits e.1)
    {t₁ t₂ : List ((Vm → List (BitVec 8)) × Option Request × Option ℕ)}
    {e : (Vm → List (BitVec 8)) × Option Request × Option ℕ} {r : Request}
    (ht : t = t₁ ++ e :: t₂) (hr : r ∈ asked e) (hread : r.write? = none) (href : ¬ r.Refused) :
    ∃ v, answered e = some v ∧ ∀ k < r.size, (split r.size v)[k]? =
      (((t₁.filterMap asked).filterMap (·.stores r.mem (r.target + k))).map some).getLast?.getD
        ((M₀ r.mem)[r.target + k]?) := by
  subst ht
  obtain ⟨h₁, M₂, hst, -⟩ := h.split
  have hfits := (hin e (by simp) r hr).resolve_left href
  have hserve : (r.serve e.1).2 = answered e := by
    rcases hst with ⟨hnone, -⟩ | ⟨r', hr', hserve⟩
    · rw [asked, hnone] at hr
      cases hr
    · obtain rfl : r = r' := Option.some_inj.1 (Eq.trans (Eq.symm hr) hr')
      exact congrArg Prod.snd hserve
  refine ⟨value (readAt (e.1 r.mem) r.target r.size), ?_, fun k hk => ?_⟩
  · rw [← hserve, Request.serve, hread]
    exact congrArg some (if_neg href)
  · rw [split_value_readAt hfits, getElem?_readAt, if_pos hk]
    exact byte_of_run h₁ (fun e he => hin e (by simp [he])) _

end
/-! ## The bridge -/

/-- The access to flat memory that a step of the bridge makes, and its answer. -/
def lifeRequest (n : ℕ) (e : Bridge × BridgeAct) : Option Request × Option ℕ :=
  match e.2 with
  | .access a => (request (e.1.sys n, a), answer (e.1.sys n, a))
  | _ => (none, none)

/-- The access is in bounds, and one of a window finds the peer's memory and is refused or stays
    inside it. -/
structure StaysInside (n : ℕ) (e : Bridge × BridgeAct) : Prop extends Inbounds n e where
  served : ∀ a, e.2 = .access a → Served (e.1.sys n, a)
  inside : ∀ a, e.2 = .access a → Inside (e.1.sys n, a)

instance (n : ℕ) : (e : Bridge × BridgeAct) → Decidable (StaysInside n e)
  | (s, .access a) =>
    decidable_of_iff (Inbounds n (s, .access a) ∧ Served (s.sys n, a) ∧ Inside (s.sys n, a))
      ⟨fun h => ⟨h.1, fun _ ha => BridgeAct.access.inj ha ▸ h.2.1,
        fun _ ha => BridgeAct.access.inj ha ▸ h.2.2⟩,
        fun h => ⟨h.toInbounds, h.served a rfl, h.inside a rfl⟩⟩
  | (_, .net _) | (_, .place _ _) =>
    isTrue ⟨inbounds_of_not_access fun _ ha => BridgeAct.noConfusion ha,
      fun _ ha => BridgeAct.noConfusion ha, fun _ ha => BridgeAct.noConfusion ha⟩

/-- The memories of the machines as byte arrays. -/
def Bridge.arrays (s : Bridge) (y : Vm) : List (BitVec 8) := (s.ram y).bytes

section
variable {n : ℕ} {s s' : Bridge} {a : BridgeAct} {t : List (Bridge × BridgeAct)}
  {shm : IdtIvshmemShmStorage} {ram : Vm → Ram}

/-- **Each step of the bridge is one of flat memory.** -/
theorem memory_step (hf : StaysInside n (s, a)) (h : BridgeStep n s a s') :
    MemStep s.arrays (lifeRequest n (s, a)) s'.arrays := by
  cases a with
  | net b =>
    refine Or.inl ⟨rfl, ?_⟩
    unfold Bridge.arrays
    rw [(bridge_net h).2]
  | place x bars =>
    obtain ⟨c, -, -, hram, -⟩ := bridge_place h
    refine Or.inl ⟨rfl, ?_⟩
    unfold Bridge.arrays
    rw [hram]
  | access b =>
    obtain ⟨x, c, -, -, -, hst, -⟩ := bridge_access h
    have hserve := serve_step hst (hf.served b rfl) (hf.inside b rfl)
    cases hr : request (s.sys n, b) with
    | some r =>
      rw [hr] at hserve
      exact Or.inr ⟨r, hr, hserve⟩
    | none =>
      rw [hr] at hserve
      exact Or.inl ⟨Prod.ext hr hserve.2, hserve.1⟩

/-- What the reference serves fits into its memories. -/
theorem fits_request (hf : StaysInside n (s, a)) {r : Request}
    (hr : (lifeRequest n (s, a)).1 = some r) : r.Fits s.arrays := by
  cases a with
  | net b => cases hr
  | place x bars => cases hr
  | access b =>
    refine (hf.inside b rfl r hr).imp_right fun hin => ?_
    rw [Bridge.arrays, Ram.length_bytes]
    exact hin

theorem memory_run (h : Run (BridgeStep n) (.start shm ram) t s) (hf : ∀ e ∈ t, StaysInside n e) :
    Run MemStep (fun y => (ram y).bytes) (t.map fun e => (e.1.arrays, lifeRequest n e)) s.arrays :=
  h.map Bridge.arrays (lifeRequest n) fun e he _ hst => memory_step (hf e he) hst

/-- **The memories for life**: whatever joins, leaves and comes up, wherever the BARs are placed and
    however the windows are moved in between, the memory files and the answers to the guests are
    those of flat memory, and a read that is not refused returns, byte by byte, what a guest wrote
    there last, be it through another window or another device. -/
theorem memory_for_life (h : Run (BridgeStep n) (.start shm ram) t s)
    (hf : ∀ e ∈ t, StaysInside n e) :
    serveAll (fun y => (ram y).bytes) (t.filterMap fun e => (lifeRequest n e).1) =
      (s.arrays, t.filterMap fun e => (lifeRequest n e).2) ∧
    ∀ t₁ e t₂ r, t = t₁ ++ e :: t₂ → (lifeRequest n e).1 = some r → r.write? = none →
      ¬ r.Refused → ∃ v, (lifeRequest n e).2 = some v ∧ ∀ k < r.size, (split r.size v)[k]? =
        (((t₁.filterMap fun e => (lifeRequest n e).1).filterMap
          (·.stores r.mem (r.target + k))).map some).getLast?.getD
            ((ram r.mem).bytes[r.target + k]?) := by
  have hrun := memory_run h hf
  have hasked : ∀ l : List (Bridge × BridgeAct),
      (l.map fun e => (e.1.arrays, lifeRequest n e)).filterMap asked =
        l.filterMap fun e => (lifeRequest n e).1 := fun l => List.filterMap_map
  have hin : ∀ e ∈ t.map fun e => (e.1.arrays, lifeRequest n e), ∀ r ∈ asked e, r.Fits e.1 := by
    intro e he r hr
    obtain ⟨e₀, he₀, rfl⟩ := List.mem_map.1 he
    exact fits_request (hf e₀ he₀) hr
  constructor
  · rw [← hasked, serveAll_of_run hrun, List.filterMap_map]
    rfl
  · rintro t₁ e t₂ r rfl hr hread href
    rw [← hasked]
    exact last_read hrun hin (e := (e.1.arrays, lifeRequest n e)) List.map_append hr hread href

end

/-- The first guest stores into the peer's memory, and its machine comes back with another device. -/
def storeAndLeave : List BridgeAct := pairUp.map .net ++
  [.access (.write .vm1 (ConfigReg.bar .limit 2).addr 0x1000),
    .access (.write .vm1 (ConfigReg.bar .ltbase 2).addr 0x100),
    .access (.barWrite .vm1 .bar2 0 0x1122334455667788 8 true), .net (.leave .vm1),
    .net (.join .vm1 7), .net (.realize .vm1 eventfdEnv), .access (.barRead .vm1 .bar2 4 4 true)]

theorem memory_for_life_restart : ∃ s : Bridge,
    exec (Bridge.next 2) (.start default blankRam) storeAndLeave = .ok s ∧
      serveAll (fun y => (blankRam y).bytes) ((trace (Bridge.next 2) (.start default blankRam)
        storeAndLeave).filterMap fun e => (lifeRequest 2 e).1) = (s.arrays, [0x11223344]) := by
  obtain ⟨s, hs⟩ : ∃ s : Bridge,
      exec (Bridge.next 2) (.start default blankRam) storeAndLeave = .ok s := ⟨_, rfl⟩
  have hans : ((trace (Bridge.next 2) (.start default blankRam) storeAndLeave).filterMap
      fun e => (lifeRequest 2 e).2) = [0x11223344] := by decide
  refine ⟨s, hs, ?_⟩
  rw [← hans]
  exact (memory_for_life (Run.of_exec hs) (by decide)).1

end IdtNtb
