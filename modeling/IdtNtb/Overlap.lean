/-
  Two windows set up at the same time.

  The calls of the driver reach the entries of the peer through one selector.
  When two calls for different BARs overlap, a data write goes to the BAR that was
  selected last, whichever call selected it.

  * `StoresInTurn`: each data write comes while its own call's BAR is selected;
  * `fold_inTurn`: then each entry gets what its own call writes, and no more;
  * `order_cases`: on 32-bit BARs one call selects first and the other one for
    good, so a data write of the first that comes later never reaches its entry
    (`field_kept`);
  * `unmixed_iff`: an order of the writes leaves the entries as the two calls one
    after the other do, whatever the calls are, exactly if both BARs are 32 bits
    wide and the writes are in turn.
-/
import IdtNtb.Lib.Interleave
import IdtNtb.Selector

namespace IdtNtb

open Interleave Runs

/-! ## Two calls -/

/-- A call of one of the two functions. -/
inductive MwCall where
  | setTrans (pidx widx : ℤ) (addr size : BitVec 64)
  | clearTrans (pidx widx : ℤ)

namespace MwCall

def widx : MwCall → ℤ
  | setTrans _ widx _ _ | clearTrans _ widx => widx

def writes (ndev : IdtNtbDev) (s : Sys) (x : Vm) :
    MwCall → Except Errno (List (ConfigReg × BitVec 32))
  | setTrans pidx widx addr size => idtNtbMwSetTrans ndev s x pidx widx addr size
  | clearTrans pidx widx => idtNtbMwClearTrans ndev s x pidx widx

/-- The data registers that a call writes behind its first LUTOFF. -/
def stores : MwCall → List ConfigReg
  | setTrans .. => [.oofLdata, .oofHdata, .oofLlimit]
  | clearTrans .. => [.oofLlimit]

end MwCall

/-- A register write, with the call that makes it. -/
abbrev LabelledWrite := Bool × ConfigReg × BitVec 32

/-- Which register is written next, and by which call. -/
def shapeOf (l : List LabelledWrite) : List (Bool × ConfigReg) := l.map fun w => (w.1, w.2.1)

/-- Two calls of the driver of `x`, both accepted, for windows on different BARs, and the order in
    which their writes reach the device. -/
structure Concurrent where
  ndev : IdtNtbDev
  sys : Sys
  x : Vm
  call : Bool → MwCall
  prog : Bool → List (ConfigReg × BitVec 32)
  accepted : ∀ b, (call b).writes ndev sys x = .ok (prog b)
  bars_ne : (ndev.mws (call false).widx.toNat).bar ≠ (ndev.mws (call true).widx.toNat).bar
  writes : List LabelledWrite
  merged : ∀ b, part b writes = prog b

namespace Concurrent

/-- The BAR of a call's window. -/
def bar (k : Concurrent) (b : Bool) : Fin 6 := (k.ndev.mws (k.call b).widx.toNat).bar

/-- The BAR is set up as a 64-bit one. -/
def wide (k : Concurrent) (b : Bool) : Bool :=
  k.ndev.is64 (idtNtRead k.sys k.x (.bar .setup (k.bar b)))

def shape (k : Concurrent) : List (Bool × ConfigReg) := shapeOf k.writes

/-- The write with which a call selects its BAR. -/
abbrev lutoff (k : Concurrent) (b : Bool) : LabelledWrite :=
  (b, .oofLutoff, BitVec.ofNat 32 (k.bar b))

/-- **The calls do not mix**: the peer's entries are as after running the two calls one after the
    other, and no entry other than those of the two windows has changed. -/
def Unmixed (k : Concurrent) : Prop :=
  ∃ s', exec Sys.next k.sys (k.writes.map fun w => idtNtWrite k.x w.2) = .ok s' ∧
    (∀ first, ∃ s₁, exec Sys.next k.sys
      ((k.prog first ++ k.prog !first).map (idtNtWrite k.x)) = .ok s₁ ∧
        s'.barConfig k.x.other = s₁.barConfig k.x.other) ∧
    ∀ i, (∀ b, i ≠ k.bar b) → s'.barConfig k.x.other i = k.sys.barConfig k.x.other i

end Concurrent

/-- **The condition**: a data write comes while its own call has selected last.  `o` is the call
    that had selected before. -/
abbrev StoresInTurn (o : Option Bool) (l : List (Bool × ConfigReg)) : Prop :=
  InTurn (· = .oofLutoff) OofData o l

theorem storesInTurn_lutoff {o : Option Bool} {b : Bool} {l : List (Bool × ConfigReg)} :
    StoresInTurn o ((b, .oofLutoff) :: l) ↔ StoresInTurn (some b) l := inTurn_cons_select rfl id

/-! ## What the calls write -/

section
variable {ndev : IdtNtbDev} {s : Sys} {x : Vm} {c : MwCall} {i : Fin 6}
  {prog : List (ConfigReg × BitVec 32)}

/-- The writes of a call: the partition, the selector, the data. -/
theorem MwCall.writes_narrow (hi : (ndev.mws c.widx.toNat).bar = i)
    (h32 : ndev.is64 (idtNtRead s x (.bar .setup i)) = false) (h : c.writes ndev s x = .ok prog) :
    ∃ p data, data.map Prod.fst = c.stores ∧
      prog = (.oofTpart, p) :: (.oofLutoff, BitVec.ofNat 32 i) :: data := by
  cases c with
  | setTrans => exact ⟨_, [_, _, _], rfl, mwSetTrans_direct hi h32 h⟩
  | clearTrans => exact ⟨_, [_], rfl, mwClearTrans_direct hi h32 h⟩

/-- For a 64-bit BAR the upper half of the limit follows, through the next entry. -/
theorem MwCall.writes_wide (hi : (ndev.mws c.widx.toNat).bar = i)
    (h64 : ndev.is64 (idtNtRead s x (.bar .setup i)) = true) (h : c.writes ndev s x = .ok prog) :
    ∃ p v data, data.map Prod.fst = c.stores ∧
      prog = (.oofTpart, p) :: (.oofLutoff, BitVec.ofNat 32 i) :: data ++
        [(.oofLutoff, BitVec.ofNat 32 (i + 1)), (.oofHlimit, v)] := by
  cases c with
  | setTrans pidx widx addr size =>
    replace hi : (ndev.mws widx.toNat).bar = i := hi
    unfold MwCall.writes idtNtbMwSetTrans at h
    dsimp only at h
    rw [hi, h64] at h
    simp only [if_true] at h
    split_ifs at h
    cases h
    exact ⟨_, _, [_, _, _], rfl, rfl⟩
  | clearTrans pidx widx =>
    replace hi : (ndev.mws widx.toNat).bar = i := hi
    unfold MwCall.writes idtNtbMwClearTrans at h
    dsimp only at h
    rw [hi, h64] at h
    simp only [if_true] at h
    split_ifs at h
    cases h
    exact ⟨_, _, [_], rfl, rfl⟩

theorem MwCall.stores_data {r : ConfigReg} (h : r ∈ c.stores) : OofData r ∧ r ≠ .oofHlimit := by
  cases c with
  | setTrans =>
    simp only [stores, List.mem_cons, List.not_mem_nil, or_false] at h
    rcases h with rfl | rfl | rfl <;> exact ⟨trivial, nofun⟩
  | clearTrans =>
    simp only [stores, List.mem_cons, List.not_mem_nil, or_false] at h
    exact h ▸ ⟨trivial, nofun⟩

/-- No field is stored twice. -/
theorem MwCall.stores_nodup : (c.stores.filterMap oofField).Nodup := by
  cases c <;> simp [stores, oofField]

end

namespace Concurrent
variable {k k' : Concurrent} {b : Bool}

theorem bar_ne {a b : Bool} (h : a ≠ b) : k.bar a ≠ k.bar b := by
  cases a with
  | false =>
    obtain rfl : b = true := by simpa using h.symm
    exact k.bars_ne
  | true =>
    obtain rfl : b = false := by simpa using h.symm
    exact k.bars_ne.symm

theorem bar_inj {a b : Bool} : k.bar a = k.bar b ↔ a = b := by
  constructor
  · intro h
    by_contra hne
    exact bar_ne hne h
  · rintro rfl
    rfl

theorem narrow_prog (h : k.wide b = false) : ∃ p data, data.map Prod.fst = (k.call b).stores ∧
    k.prog b = (.oofTpart, p) :: (.oofLutoff, BitVec.ofNat 32 (k.bar b)) :: data :=
  MwCall.writes_narrow rfl h (k.accepted b)

theorem wide_prog (h : k.wide b = true) : ∃ p v data, data.map Prod.fst = (k.call b).stores ∧
    k.prog b = (.oofTpart, p) :: (.oofLutoff, BitVec.ofNat 32 (k.bar b)) :: data ++
      [(.oofLutoff, BitVec.ofNat 32 (k.bar b + 1)), (.oofHlimit, v)] :=
  MwCall.writes_wide rfl h (k.accepted b)

/-- The registers of a call, read off the shape. -/
theorem regs_shape : part b k.shape = (k.prog b).map Prod.fst := by
  rw [← k.merged b]
  exact part_map Prod.fst b k.writes

/-- Two overlapping calls of one shape are for BARs of the same widths. -/
theorem wide_shape (h : k'.shape = k.shape) : k'.wide b = k.wide b := by
  have hhigh : ∀ k : Concurrent, k.wide b = true ↔ .oofHlimit ∈ (k.prog b).map Prod.fst := by
    intro k
    constructor
    · intro hw
      obtain ⟨p, v, data, -, hp⟩ := wide_prog hw
      simp [hp]
    · intro hmem
      by_contra hw
      obtain ⟨p, data, hdata, hp⟩ := narrow_prog (Bool.eq_false_iff.2 hw)
      simp only [hp, List.map_cons, hdata, List.mem_cons, reduceCtorEq, false_or] at hmem
      exact (MwCall.stores_data hmem).2 rfl
  rw [Bool.eq_iff_iff, hhigh, hhigh, ← regs_shape, ← regs_shape, h]

end Concurrent

/-! ## Writes in turn -/

/-- What one data write leaves in the entry it stores into. -/
def BARConfig.put (c : BARConfig) (w : ConfigReg × BitVec 32) : BARConfig :=
  match oofField w.1 with
  | some f => c.set f w.2
  | none => c

theorem BARConfig.get_put (c : BARConfig) (w : ConfigReg × BitVec 32) (f : BarField) :
    (c.put w).get f = if oofField w.1 = some f then w.2 else c.get f := by
  unfold BARConfig.put
  cases oofField w.1 with
  | none => rfl
  | some g => simp [eq_comm]

section
variable {bar : Bool → Fin 6} {o : Option Bool} {l : List LabelledWrite} {i : Fin 6} {u : Selection}

/-- **Writes in turn**: they do not fail, and the entry gets what the calls for its BAR write. -/
theorem fold_inTurn (ht : StoresInTurn o (shapeOf l)) (hu : ∀ b, o = some b → u.sel = bar b)
    (hl : ∀ w ∈ l, w.2.1 = .oofTpart ∨ w.2 = (.oofLutoff, BitVec.ofNat 32 (bar w.1)) ∨
      OofData w.2.1) :
    ∃ w, (l.map Prod.snd).foldlM (Selection.write i) u = some w ∧
      w.entry = ((l.filter (bar ·.1 = i)).map Prod.snd).foldl BARConfig.put u.entry := by
  induction l generalizing o u with
  | nil => exact ⟨u, rfl, rfl⟩
  | cons e l ih =>
    obtain ⟨b, r, v⟩ := e
    have hl' := fun w (hw : w ∈ l) => hl w (List.mem_cons_of_mem _ hw)
    obtain ⟨hown, ht⟩ : (OofData r → o = some b) ∧
        StoresInTurn (owner (· = ConfigReg.oofLutoff) o (b, r)) (shapeOf l) := ht
    rcases hl (b, r, v) (by simp) with hr | hr | hr
    · -- the partition
      obtain rfl : r = .oofTpart := hr
      obtain ⟨w, hw, hent⟩ := ih (by simpa [owner] using ht) hu hl'
      refine ⟨w, by simpa [Selection.write] using hw, ?_⟩
      rw [hent]
      by_cases hb : bar b = i <;> simp [hb, BARConfig.put, oofField]
    · -- the selector: from here on `b` is the owner
      obtain ⟨rfl, rfl⟩ : r = .oofLutoff ∧ v = BitVec.ofNat 32 (bar b) := by simpa using hr
      have hsel : (BitVec.ofNat 32 (bar b)).toNat = bar b := by
        rw [BitVec.toNat_ofNat]
        exact Nat.mod_eq_of_lt (by omega)
      obtain ⟨w, hw, hent⟩ := ih (u := { u with sel := (BitVec.ofNat 32 (bar b)).toNat }) ht
        (by simp [owner, hsel]) hl'
      refine ⟨w, by simpa [Selection.write] using hw, ?_⟩
      rw [hent]
      by_cases hb : bar b = i <;> simp [hb, BARConfig.put, oofField]
    · -- a data write goes to the entry of its own call
      obtain ⟨f, hf⟩ := Option.isSome_iff_exists.1 (oofField_isSome.2 hr)
      have hsel := hu b (hown hr)
      have hne : r ≠ .oofLutoff := by
        rintro rfl
        exact hr
      have ht' : StoresInTurn o (shapeOf l) := by simpa [owner, hne] using ht
      by_cases hb : bar b = i
      · obtain ⟨w, hw, hent⟩ := ih (u := { u with entry := u.entry.set f v }) ht' hu hl'
        refine ⟨w, ?_, ?_⟩
        · rw [List.map_cons, List.foldlM_cons, write_data hf, if_pos (by rw [hsel, hb])]
          exact hw
        · rw [hent]
          simp [hb, BARConfig.put, hf]
      · obtain ⟨w, hw, hent⟩ := ih ht' hu hl'
        have hsel' : u.sel ≠ i := by
          rw [hsel]
          exact fun h => hb (Fin.ext h)
        refine ⟨w, ?_, ?_⟩
        · rw [List.map_cons, List.foldlM_cons, write_data hf, if_neg hsel', if_pos (by omega)]
          exact hw
        · rw [hent]
          simp [hb]

end

namespace Concurrent
variable {k : Concurrent} {b : Bool} {l : List LabelledWrite}

/-- What a write of a call for a 32-bit BAR is. -/
theorem write_kind (hn : k.wide b = false) {w : ConfigReg × BitVec 32} (hw : w ∈ k.prog b) :
    w.1 = .oofTpart ∨ w = (.oofLutoff, BitVec.ofNat 32 (k.bar b)) ∨ OofData w.1 := by
  obtain ⟨p, data, hdata, hp⟩ := narrow_prog hn
  rw [hp] at hw
  simp only [List.mem_cons] at hw
  rcases hw with rfl | rfl | hw
  · exact Or.inl rfl
  · exact Or.inr (Or.inl rfl)
  · exact Or.inr (Or.inr (MwCall.stores_data (hdata ▸ List.mem_map_of_mem hw)).1)

theorem mem_prog (hl : ∀ b, part b l = k.prog b) {w : LabelledWrite} (hw : w ∈ l) :
    w.2 ∈ k.prog w.1 := by
  rw [← hl w.1]
  exact mem_part.2 hw

/-- The writes of both calls in turn, in any such order. -/
theorem exec_inTurn (hn : ∀ b, k.wide b = false) (ht : StoresInTurn none (shapeOf l))
    (hl : ∀ b, part b l = k.prog b) :
    ∃ s', exec Sys.next k.sys ((l.map Prod.snd).map (idtNtWrite k.x)) = .ok s' ∧
      (∀ b, s'.barConfig k.x.other (k.bar b) =
        (k.prog b).foldl BARConfig.put (k.sys.barConfig k.x.other (k.bar b))) ∧
      ∀ i, (∀ b, i ≠ k.bar b) → s'.barConfig k.x.other i = k.sys.barConfig k.x.other i := by
  have hentry : ∀ i, ∃ s', exec Sys.next k.sys ((l.map Prod.snd).map (idtNtWrite k.x)) = .ok s' ∧
      s'.barConfig k.x.other i = ((l.filter (k.bar ·.1 = i)).map Prod.snd).foldl BARConfig.put
        (k.sys.barConfig k.x.other i) := by
    intro i
    obtain ⟨w, hw, hent⟩ := @fold_inTurn k.bar none l i (k.sys.selection k.x i) ht nofun
      fun w hw => write_kind (hn w.1) (mem_prog hl hw)
    obtain ⟨s', hs, hsel, -⟩ := exec_selection hw
    refine ⟨s', hs, ?_⟩
    rw [← hsel] at hent
    exact hent
  obtain ⟨s', hs, -⟩ := hentry 0
  -- every entry is one of the same state
  have hall : ∀ i, s'.barConfig k.x.other i =
      ((l.filter (k.bar ·.1 = i)).map Prod.snd).foldl BARConfig.put
        (k.sys.barConfig k.x.other i) := by
    intro i
    obtain ⟨s₁, hs₁, h⟩ := hentry i
    rw [hs] at hs₁
    cases hs₁
    exact h
  refine ⟨s', hs, fun b => ?_, fun i hi => ?_⟩
  · rw [hall, ← hl b]
    simp only [bar_inj, part]
  · have hnone : l.filter (k.bar ·.1 = i) = [] := by
      rw [List.filter_eq_nil_iff]
      intro w _
      simpa using (hi w.1).symm
    rw [hall, hnone]
    rfl

/-- One call after the other. -/
def sequence (k : Concurrent) (first : Bool) : List LabelledWrite :=
  (k.prog first).map (Prod.mk first) ++ (k.prog !first).map (Prod.mk !first)

theorem sequence_writes (k : Concurrent) (first : Bool) :
    (k.sequence first).map Prod.snd = k.prog first ++ k.prog !first := by
  simp [sequence, Function.comp_def]

theorem sequence_merged (k : Concurrent) (first : Bool) : part b (k.sequence first) = k.prog b := by
  rw [sequence, part_append, part_label, part_label]
  cases first <;> cases b <;> simp

/-- A call that nobody interrupts is in turn, whoever selected before. -/
theorem inTurn_prog (hn : k.wide b = false) (o : Option Bool) :
    StoresInTurn o (shapeOf ((k.prog b).map (Prod.mk b))) := by
  obtain ⟨p, data, hdata, hp⟩ := narrow_prog hn
  have hmem : ∀ w ∈ data, OofData w.1 := fun w hw =>
    (MwCall.stores_data (hdata ▸ List.mem_map_of_mem hw)).1
  rw [hp]
  refine ⟨False.elim, storesInTurn_lutoff.2 (inTurn_of_owner ?_ ?_)⟩
  · simp only [List.map_map, List.mem_map]
    rintro e ⟨w, hw, rfl⟩ hlut
    exact (hlut ▸ hmem w hw : OofData .oofLutoff)
  · simp only [List.map_map, List.mem_map]
    rintro e ⟨w, hw, rfl⟩ -
    rfl

theorem inTurn_sequence (hn : ∀ b, k.wide b = false) (first : Bool) :
    StoresInTurn none (shapeOf (k.sequence first)) := by
  rw [sequence, shapeOf, List.map_append]
  exact inTurn_append.2 ⟨inTurn_prog (hn first) _, inTurn_prog (hn !first) _⟩

/-- **Writes in turn do not mix.** -/
theorem unmixed_of_inTurn (hn : ∀ b, k.wide b = false) (ht : StoresInTurn none k.shape) :
    k.Unmixed := by
  obtain ⟨s', hs, hent, hrest⟩ := exec_inTurn hn ht k.merged
  refine ⟨s', by simpa [Function.comp_def] using hs, fun first => ?_, hrest⟩
  obtain ⟨s₁, hs₁, hent₁, hrest₁⟩ := exec_inTurn hn (inTurn_sequence hn first)
    fun b => sequence_merged k first
  rw [sequence_writes] at hs₁
  refine ⟨s₁, hs₁, funext fun i => ?_⟩
  by_cases hi : ∃ b, i = k.bar b
  · obtain ⟨b, rfl⟩ := hi
    rw [hent, hent₁]
  · rw [hrest i fun b hb => hi ⟨b, hb⟩, hrest₁ i fun b hb => hi ⟨b, hb⟩]

end Concurrent

/-! ## Writes that come too late -/

/-- A write to an out-of-spec register; what LUTOFF gets is an entry. -/
def InRange (e : ConfigReg × BitVec 32) : Prop :=
  e.1 = .oofTpart ∨ (e.1 = .oofLutoff ∧ e.2.toNat < 6) ∨ OofData e.1

theorem inRange_lutoff {n : ℕ} (hn : n < 6) : InRange (.oofLutoff, BitVec.ofNat 32 n) := by
  refine Or.inr (Or.inl ⟨rfl, ?_⟩)
  rw [BitVec.toNat_ofNat]
  exact (Nat.mod_le _ _).trans_lt hn

section
variable {i : Fin 6} {f : BarField} {u v : Selection} {e : ConfigReg × BitVec 32}
  {l : List (ConfigReg × BitVec 32)}

/-- Only a data write to the selected entry stores, and only LUTOFF selects. -/
theorem selection_cases (h : u.write i e = some v) :
    (v.entry.get f = u.entry.get f ∨ oofField e.1 = some f ∧ u.sel = i) ∧
      (v.sel = u.sel ∨ e.1 = .oofLutoff) := by
  obtain ⟨r, val⟩ := e
  by_cases hr : OofData r
  · obtain ⟨g, hg⟩ := Option.isSome_iff_exists.1 (oofField_isSome.2 hr)
    rw [write_data hg] at h
    split_ifs at h with h1 h2
    · cases h
      refine ⟨?_, Or.inl rfl⟩
      by_cases hf : f = g
      · subst hf
        exact Or.inr ⟨hg, h1⟩
      · exact Or.inl (by simp [hf])
    · cases h
      exact ⟨Or.inl rfl, Or.inl rfl⟩
  · cases r with
    | oofTpart =>
      cases h
      exact ⟨Or.inl rfl, Or.inl rfl⟩
    | oofLutoff =>
      cases h
      exact ⟨Or.inl rfl, Or.inr rfl⟩
    | oofLdata | oofHdata | oofLlimit | oofHlimit => exact absurd trivial hr
    | _ => cases h

/-- What every write keeps holds after all of them. -/
theorem fold_inv (P : Selection → Prop) (hs : ∀ e ∈ l, ∀ u v, P u → u.write i e = some v → P v)
    (h0 : P u) (h : l.foldlM (Selection.write i) u = some v) : P v := by
  induction l generalizing u with
  | nil => cases h; exact h0
  | cons e l ih =>
    rw [List.foldlM_cons] at h
    obtain ⟨u₁, h1, h2⟩ := Option.bind_eq_some_iff.1 h
    exact ih (fun e' he' => hs e' (by simp [he'])) (hs e (by simp) u u₁ h0 h1) h2

/-- A field keeps its value while nobody writes it. -/
theorem fold_unwritten (hl : ∀ e ∈ l, oofField e.1 ≠ some f)
    (h : l.foldlM (Selection.write i) u = some v) : v.entry.get f = u.entry.get f := by
  refine fold_inv (fun w => w.entry.get f = u.entry.get f) ?_ rfl h
  intro e he w w' hw hst
  rcases (selection_cases (f := f) hst).1 with hkept | ⟨hf, -⟩
  · exact hkept.trans hw
  · exact absurd hf (hl e he)

/-- An entry that is not selected keeps its value while nobody selects. -/
theorem fold_unselected (hu : u.sel ≠ i) (hl : ∀ e ∈ l, e.1 ≠ .oofLutoff)
    (h : l.foldlM (Selection.write i) u = some v) : v.entry.get f = u.entry.get f := by
  refine (fold_inv (fun w => w.sel ≠ i ∧ w.entry.get f = u.entry.get f) ?_ ⟨hu, rfl⟩ h).2
  rintro e he w w' ⟨hsel, hw⟩ hst
  obtain ⟨hent, hlut⟩ := selection_cases (f := f) hst
  constructor
  · rw [hlut.resolve_right (hl e he)]
    exact hsel
  · exact (hent.resolve_right fun hstored => hsel hstored.2).trans hw

/-- Writes with a selector below 6 do not fail. -/
theorem fold_total (hl : ∀ e ∈ l, InRange e) (hu : u.sel < 6) :
    ∃ v, l.foldlM (Selection.write i) u = some v := by
  induction l generalizing u with
  | nil => exact ⟨u, rfl⟩
  | cons e l ih =>
    obtain ⟨u₁, h1, hu₁⟩ : ∃ u₁, u.write i e = some u₁ ∧ u₁.sel < 6 := by
      obtain ⟨r, val⟩ := e
      rcases hl (r, val) (by simp) with hr | ⟨hr, hval⟩ | hr
      · obtain rfl : r = .oofTpart := hr
        exact ⟨u, rfl, hu⟩
      · obtain rfl : r = .oofLutoff := hr
        exact ⟨_, rfl, hval⟩
      · obtain ⟨g, hg⟩ := Option.isSome_iff_exists.1 (oofField_isSome.2 hr)
        rw [write_data hg]
        by_cases hi : u.sel = i
        · exact ⟨_, if_pos hi, hu⟩
        · exact ⟨u, by rw [if_neg hi, if_pos hu], hu⟩
    obtain ⟨v, hv⟩ := ih (fun e' he' => hl e' (by simp [he'])) hu₁
    exact ⟨v, by rw [List.foldlM_cons, h1]; exact hv⟩

end

/-! ## What the calls read -/

/-- What a call reads is its machine's own: its writes depend on nothing else. -/
theorem writes_congr {ndev : IdtNtbDev} {s s' : Sys} {x : Vm} {c : MwCall}
    (hb : s'.barConfig x = s.barConfig x) (hd : (s'.dev x).bars = (s.dev x).bars) :
    c.writes ndev s' x = c.writes ndev s x := by
  have hread : ∀ i, idtNtRead s' x (.bar .setup i) = idtNtRead s x (.bar .setup i) := by
    intro i
    have hplain : ∀ s : Sys, s.read x (ConfigReg.bar .setup i).addr =
        ((s.barConfig x i).get .setup).setWidth 64 := fun s => read_plain (.bar .setup i)
    rw [idtNtRead, idtNtRead, hplain, hplain, hb]
  cases c with
  | setTrans => simp only [MwCall.writes, idtNtbMwSetTrans, hread, hd]
  | clearTrans => simp only [MwCall.writes, idtNtbMwClearTrans, hread]

/-- Out-of-spec writes leave what a call reads alone, while none stores through a selector that is
    out of range. -/
theorem exec_own {s s' : Sys} {x : Vm} {l : List (ConfigReg × BitVec 32)}
    (hl : ∀ e ∈ l, InRange e) (hsel : (s.ctx x).SelOk ∨ ∀ e ∈ l, ¬ OofData e.1)
    (h : exec Sys.next s (l.map (idtNtWrite x)) = .ok s') :
    s'.barConfig x = s.barConfig x ∧ (s'.dev x).bars = (s.dev x).bars ∧
      (((s.ctx x).SelOk ∨ ∃ e ∈ l, e.1 = .oofLutoff) → (s'.ctx x).SelOk) := by
  induction l generalizing s with
  | nil =>
    cases h
    exact ⟨rfl, rfl, fun hs => hs.resolve_right nofun⟩
  | cons e l ih =>
    obtain ⟨r, v⟩ := e
    obtain ⟨s₁, h1, h2⟩ := bind_ok.1 h
    have hoof : Oof r := by
      rcases hl (r, v) (by simp) with hr | ⟨hr, -⟩ | hr
      · exact Or.inl hr
      · exact Or.inr (Or.inl hr)
      · exact Or.inr (Or.inr hr)
    have hstep : Step s (.write x r.addr v) s₁ := h1
    have hc := contained_of_selOk hoof (fun hr => hsel.resolve_right fun hno =>
      hno (r, v) (by simp) hr) hstep
    have hnext : (s.ctx x).SelOk ∨ r = .oofLutoff → (s₁.ctx x).SelOk := by
      intro hs
      show (s₁.lregs x).inboundMwBar.toNat < 6
      rw [step_selector hstep x, selAfter]
      split_ifs with hr
      · obtain rfl : r = .oofLutoff := ConfigReg.addr_inj.1 hr.2
        rcases hl (.oofLutoff, v) (by simp) with hr | ⟨-, hv⟩ | hr
        · cases hr
        · exact hv
        · exact hr.elim
      · exact hs.resolve_right fun hlut => hr ⟨rfl, by rw [hlut]⟩
    obtain ⟨hb, hd, hs⟩ := ih (fun e he => hl e (by simp [he]))
      (hsel.imp (fun hs => hnext (Or.inl hs)) fun hno e he => hno e (by simp [he])) h2
    refine ⟨hb.trans hc.own, hd.trans ?_, fun hor => hs ?_⟩
    · rw [hc.dev x]
    · rcases hor with hs | ⟨e, he, hlut⟩
      · exact Or.inl (hnext (Or.inl hs))
      · rcases List.mem_cons.1 he with rfl | he
        · exact Or.inl (hnext (Or.inr hlut))
        · exact Or.inr ⟨e, he, hlut⟩

/-! ## The order of two calls -/

namespace Concurrent
variable {k : Concurrent} {b : Bool}

/-- A call before and after its LUTOFF. -/
theorem split_own (hn : k.wide b = false) : ∃ p r, k.writes = p ++ k.lutoff b :: r ∧
    (∀ w ∈ p, w.1 = b → w.2.1 = .oofTpart) ∧ ∀ w ∈ r, w.1 = b → OofData w.2.1 := by
  obtain ⟨v, data, hdata, hp⟩ := narrow_prog hn
  have hm := k.merged b
  rw [hp] at hm
  obtain ⟨p₁, r₁, hw, hp₁, hm⟩ := part_eq_cons hm
  obtain ⟨p₂, r, rfl, hp₂, hm⟩ := part_eq_cons hm
  refine ⟨p₁ ++ (b, .oofTpart, v) :: p₂, r, ?_, ?_, ?_⟩
  · rw [hw, List.append_assoc, List.cons_append]
  · rintro ⟨b, w⟩ hwp rfl
    have hmem : w ∈ part b (p₁ ++ (b, .oofTpart, v) :: p₂) := mem_part.2 hwp
    rw [part_append, part_cons_self, hp₁, hp₂] at hmem
    obtain rfl : w = (.oofTpart, v) := by simpa using hmem
    rfl
  · rintro ⟨b, w⟩ hwr rfl
    have hmem : w ∈ data := hm ▸ mem_part.2 hwr
    exact (MwCall.stores_data (hdata ▸ List.mem_map_of_mem hmem)).1

/-- **The order of two calls**: `b` selects, then the other one, and nobody after that. -/
structure Order (k : Concurrent) (b : Bool) (q₁ q₂ q₃ : List LabelledWrite) : Prop where
  writes : k.writes = q₁ ++ k.lutoff b :: (q₂ ++ k.lutoff (!b) :: q₃)
  parts : ∀ w ∈ q₁, w.2.1 = .oofTpart
  own : ∀ w ∈ q₂, w.1 = b → OofData w.2.1
  other : ∀ w ∈ q₂, w.1 = (!b) → w.2.1 = .oofTpart
  data : ∀ w ∈ q₃, OofData w.2.1

variable {q₁ q₂ q₃ : List LabelledWrite}

/-- One call selects behind the LUTOFF of the other. -/
theorem Order.of_split
    (hw : k.writes = q₁ ++ k.lutoff b :: (q₂ ++ k.lutoff (!b) :: q₃))
    (hp : ∀ w ∈ q₁, w.1 = b → w.2.1 = .oofTpart)
    (hr : ∀ w ∈ q₂ ++ k.lutoff (!b) :: q₃, w.1 = b → OofData w.2.1)
    (hp' : ∀ w ∈ q₁ ++ k.lutoff b :: q₂, w.1 = (!b) → w.2.1 = .oofTpart)
    (hr' : ∀ w ∈ q₃, w.1 = (!b) → OofData w.2.1) : k.Order b q₁ q₂ q₃ where
  writes := hw
  parts w hmem := by
    by_cases hb : w.1 = b
    · exact hp w hmem hb
    · exact hp' w (by simp [hmem]) (Bool.eq_not_iff.2 hb)
  own w hmem := hr w (by simp [hmem])
  other w hmem := hp' w (by simp [hmem])
  data w hmem := by
    by_cases hb : w.1 = b
    · exact hr w (by simp [hmem]) hb
    · exact hr' w hmem (Bool.eq_not_iff.2 hb)

theorem order_cases (hn : ∀ b, k.wide b = false) : ∃ b q₁ q₂ q₃, k.Order b q₁ q₂ q₃ := by
  obtain ⟨p, r, hw, hp, hr⟩ := split_own (hn false)
  obtain ⟨p', r', hw', hp', hr'⟩ := split_own (hn true)
  rcases List.append_eq_append_iff.1 (hw.symm.trans hw') with ⟨q, rfl, hq⟩ | ⟨q, rfl, hq⟩
  · cases q with
    | nil => simp at hq
    | cons e q =>
      obtain ⟨rfl, rfl⟩ := List.cons.inj hq
      exact ⟨false, p, q, r', .of_split hw hp hr hp' hr'⟩
  · cases q with
    | nil => simp at hq
    | cons e q =>
      obtain ⟨rfl, rfl⟩ := List.cons.inj hq
      exact ⟨true, p', q, r, .of_split hw' hp' hr' hp hr⟩

/-- **What the calls read meanwhile** is what they read at the start: either call makes the same
    writes from any state on the way. -/
theorem writes_kept (hn : ∀ b, k.wide b = false) {pre post : List LabelledWrite} {s : Sys}
    (hw : k.writes = pre ++ post)
    (hs : exec Sys.next k.sys ((pre.map Prod.snd).map (idtNtWrite k.x)) = .ok s) (a : Bool) :
    (k.call a).writes k.ndev s k.x = .ok (k.prog a) := by
  have hkind : ∀ e ∈ k.writes.map Prod.snd, InRange e := by
    intro e he
    obtain ⟨w, hw, rfl⟩ := List.mem_map.1 he
    rcases write_kind (hn w.1) (mem_prog k.merged hw) with hr | hr | hr
    · exact Or.inl hr
    · exact hr ▸ inRange_lutoff (k.bar w.1).isLt
    · exact Or.inr (Or.inr hr)
  obtain ⟨b, q₁, q₂, q₃, h⟩ := order_cases hn
  have hsplit : k.writes = (q₁ ++ [k.lutoff b]) ++ (q₂ ++ k.lutoff (!b) :: q₃) := by
    rw [h.writes, List.append_assoc, List.singleton_append]
  -- up to the first LUTOFF nothing is stored
  have hparts : ∀ e ∈ (q₁ ++ [k.lutoff b]).map Prod.snd, ¬ OofData e.1 := by
    intro e he
    obtain ⟨w, hw, rfl⟩ := List.mem_map.1 he
    rcases List.mem_append.1 hw with hw | hw
    · rw [h.parts w hw]
      exact id
    · rw [List.mem_singleton.1 hw]
      exact id
  rw [← k.accepted a]
  rcases List.append_eq_append_iff.1 (hsplit.symm.trans hw) with ⟨q, rfl, -⟩ | ⟨q, hq, -⟩
  · -- and then the selector is in range
    rw [List.map_append, List.map_append, exec_append] at hs
    obtain ⟨s₁, h1, h2⟩ := bind_ok.1 hs
    have hin : ∀ e ∈ (q₁ ++ [k.lutoff b] ++ q).map Prod.snd, e ∈ k.writes.map Prod.snd := by
      intro e he
      rw [hw, List.map_append]
      exact List.mem_append_left _ he
    rw [List.map_append] at hin
    obtain ⟨hb₁, hd₁, hok⟩ := exec_own (fun e he => hkind e (hin e (List.mem_append_left _ he)))
      (Or.inr hparts) h1
    obtain ⟨hb₂, hd₂, -⟩ := exec_own (fun e he => hkind e (hin e (List.mem_append_right _ he)))
      (Or.inl (hok (Or.inr ⟨(k.lutoff b).2, List.mem_map_of_mem (by simp), rfl⟩))) h2
    exact writes_congr (hb₂.trans hb₁) (hd₂.trans hd₁)
  · have hin : ∀ e ∈ pre.map Prod.snd, e ∈ (q₁ ++ [k.lutoff b]).map Prod.snd := by
      intro e he
      rw [hq, List.map_append]
      exact List.mem_append_left _ he
    have hin' : ∀ e ∈ pre.map Prod.snd, e ∈ k.writes.map Prod.snd := by
      intro e he
      rw [hw, List.map_append]
      exact List.mem_append_left _ he
    obtain ⟨hb, hd, -⟩ := exec_own (fun e he => hkind e (hin' e he))
      (Or.inr fun e he => hparts e (hin e he)) hs
    exact writes_congr hb hd

/-- The writes are in turn if the first call has stored all it has to store before the other one
    selects. -/
theorem Order.inTurn (h : k.Order b q₁ q₂ q₃) (hq : ∀ w ∈ q₃, w.1 = !b) :
    StoresInTurn none k.shape := by
  have hpart : ∀ {l : List LabelledWrite} {o : Option Bool}, (∀ w ∈ l, w.2.1 ≠ .oofLutoff) →
      (∀ w ∈ l, OofData w.2.1 → o = some w.1) → StoresInTurn o (shapeOf l) := by
    intro l o hsel hdata
    refine inTurn_of_owner ?_ ?_
    · rintro e he
      obtain ⟨w, hw, rfl⟩ := List.mem_map.1 he
      exact hsel w hw
    · rintro e he
      obtain ⟨w, hw, rfl⟩ := List.mem_map.1 he
      exact hdata w hw
  have hlut : ∀ {r : ConfigReg}, OofData r → r ≠ .oofLutoff := by
    rintro r hr rfl
    exact hr
  rw [shape, h.writes, shapeOf, List.map_append, List.map_cons]
  refine inTurn_append.2 ⟨hpart ?_ ?_, storesInTurn_lutoff.2 ?_⟩
  · intro w hw
    rw [h.parts w hw]
    nofun
  · intro w hw hd
    rw [h.parts w hw] at hd
    exact hd.elim
  rw [List.map_append, List.map_cons]
  refine inTurn_append.2 ⟨hpart ?_ ?_, storesInTurn_lutoff.2 ?_⟩
  · intro w hw
    by_cases hb : w.1 = b
    · exact hlut (h.own w hw hb)
    · rw [h.other w hw (Bool.eq_not_iff.2 hb)]
      nofun
  · intro w hw hd
    by_cases hb : w.1 = b
    · rw [hb]
    · rw [h.other w hw (Bool.eq_not_iff.2 hb)] at hd
      exact hd.elim
  exact hpart (fun w hw => hlut (h.data w hw)) fun w hw _ => by rw [hq w hw]

theorem fields_nodup (hn : k.wide b = false) :
    ((k.prog b).filterMap fun w => oofField w.1).Nodup := by
  obtain ⟨p, data, hdata, hp⟩ := narrow_prog hn
  have hnodup := MwCall.stores_nodup (c := k.call b)
  rw [← hdata, List.filterMap_map] at hnodup
  rw [hp, List.filterMap_cons_none rfl, List.filterMap_cons_none rfl]
  exact hnodup

/-- The first call stores no field on both sides of the other's LUTOFF. -/
theorem Order.stored_once (hn : k.wide b = false) (h : k.Order b q₁ q₂ q₃) {w e : LabelledWrite}
    (hw : w ∈ q₂) (hwb : w.1 = b) (he : e ∈ q₃) (heb : e.1 = b) {f : BarField}
    (hf : oofField e.2.1 = some f) : oofField w.2.1 ≠ some f := by
  intro hwf
  have hnodup := fields_nodup hn
  rw [← k.merged b, h.writes, part_append, part_cons_self, part_append,
    part_cons_of_ne (by simp), List.filterMap_append] at hnodup
  replace hnodup := (List.nodup_append.1 hnodup).2.1
  rw [List.filterMap_cons_none rfl, List.filterMap_append] at hnodup
  have hin : ∀ {q : List LabelledWrite} {w : LabelledWrite}, w ∈ q → w.1 = b →
      oofField w.2.1 = some f → f ∈ (part b q).filterMap fun w => oofField w.1 := by
    rintro q ⟨b, w⟩ hw rfl hwf
    exact List.mem_filterMap.2 ⟨w, mem_part.2 hw, hwf⟩
  exact (List.nodup_append.1 hnodup).2.2 f (hin hw hwb hwf) f (hin he heb hf) rfl

/-- **A data write that comes too late**: its entry keeps the field. -/
theorem Order.field_kept (hn : k.wide b = false) (h : k.Order b q₁ q₂ q₃) {e : LabelledWrite}
    (he : e ∈ q₃) (heb : e.1 = b) {f : BarField} (hf : oofField e.2.1 = some f) {u v : Selection}
    (hv : (k.writes.map Prod.snd).foldlM (Selection.write (k.bar b)) u = some v) :
    v.entry.get f = u.entry.get f := by
  have hearly : ∀ w ∈ (q₁ ++ k.lutoff b :: q₂).map Prod.snd,
      oofField w.1 ≠ some f := by
    intro w' hw'
    obtain ⟨w, hw, rfl⟩ := List.mem_map.1 hw'
    rcases List.mem_append.1 hw with hw | hw
    · rw [h.parts w hw]
      nofun
    rcases List.mem_cons.1 hw with rfl | hw
    · nofun
    by_cases hwb : w.1 = b
    · exact h.stored_once hn hw hwb he heb hf
    · rw [h.other w hw (Bool.eq_not_iff.2 hwb)]
      nofun
  have hsplit : k.writes.map Prod.snd =
      (q₁ ++ k.lutoff b :: q₂).map Prod.snd ++
        (.oofLutoff, BitVec.ofNat 32 (k.bar !b)) :: q₃.map Prod.snd := by
    simp [h.writes]
  rw [hsplit, List.foldlM_append] at hv
  obtain ⟨u₁, h1, hv⟩ := Option.bind_eq_some_iff.1 hv
  rw [List.foldlM_cons] at hv
  obtain ⟨u₂, h2, h3⟩ := Option.bind_eq_some_iff.1 hv
  cases h2
  -- from the other's LUTOFF on the entry is not selected
  have hsel : (BitVec.ofNat 32 (k.bar !b)).toNat ≠ k.bar b := by
    rw [BitVec.toNat_ofNat, Nat.mod_eq_of_lt (by omega)]
    exact fun heq => bar_ne (k := k) (a := !b) (by simp) (Fin.ext heq)
  have hlut : ∀ w ∈ q₃.map Prod.snd, w.1 ≠ .oofLutoff := by
    intro w' hw' hr
    obtain ⟨w, hw, rfl⟩ := List.mem_map.1 hw'
    exact (hr ▸ h.data w hw : OofData .oofLutoff)
  calc v.entry.get f = u₁.entry.get f :=
      fold_unselected (u := { u₁ with sel := (BitVec.ofNat 32 (k.bar !b)).toNat }) hsel hlut h3
    _ = u.entry.get f := fold_unwritten hearly h1

end Concurrent

/-! ## Calls that show where their writes go -/

/-- The peer's entries hold ones.  The BAR set-ups of the machine itself tell its two windows
    apart. -/
def Sys.marked : Sys :=
  { Sys.started with
    shm := (startedShm.modVm .vm1 fun m =>
      { m with barConfig := fun i => ⟨if i = 4 then 1 else 0, 0, 0, 0⟩ }).modVm .vm2 fun m =>
        { m with barConfig := fun _ => ⟨1, 1, 1, 1⟩ } }

/-- Two windows, on BARs 2 and 4, of the given widths. -/
def markedDev (wide : Bool → Bool) : IdtNtbDev where
  peerCnt := 1
  mwCnt := 2
  mws n := ⟨.dir, if n = 0 then 2 else 4, 1, 1, 0⟩
  part _ := 0
  is64 v := wide (v = 1)

/-- The call of the same kind that writes zeros. -/
def MwCall.zero (b : Bool) : MwCall → MwCall
  | setTrans .. => setTrans 0 (if b then 1 else 0) 0 0
  | clearTrans .. => clearTrans 0 (if b then 1 else 0)

/-- What it writes. -/
def MwCall.zeros (c : MwCall) (i : Fin 6) (wide : Bool) : List (ConfigReg × BitVec 32) :=
  (.oofTpart, 0) :: (.oofLutoff, BitVec.ofNat 32 i) :: c.stores.map (·, 0) ++
    if wide then [(.oofLutoff, BitVec.ofNat 32 (i + 1)), (.oofHlimit, 0)] else []

theorem markedDev_is64 (wide : Bool → Bool) (b : Bool) : (markedDev wide).is64
    (idtNtRead .marked .vm1 (.bar .setup (if b then 4 else 2))) = wide b := by
  cases b <;> rfl

theorem MwCall.zero_writes (c : MwCall) (wide : Bool → Bool) (b : Bool) :
    (c.zero b).writes (markedDev wide) .marked .vm1 =
      .ok (c.zeros (if b then 4 else 2) (wide b)) := by
  have h64 := markedDev_is64 wide b
  have hbar : ∀ i, ((Sys.marked.dev .vm1).bars i).val = 0 := fun i => rfl
  cases c with
  | setTrans =>
    unfold MwCall.zero MwCall.writes idtNtbMwSetTrans
    cases b <;> cases hw : wide _ <;>
      simp_all [markedDev, isAligned, zeros, stores]
  | clearTrans =>
    unfold MwCall.zero MwCall.writes idtNtbMwClearTrans
    cases b <;> cases hw : wide _ <;>
      simp_all [markedDev, zeros, stores]

namespace Concurrent
variable {k : Concurrent} {b : Bool}

theorem zeros_regs (k : Concurrent) (b : Bool) (i : Fin 6) :
    ((k.call b).zeros i (k.wide b)).map Prod.fst = (k.prog b).map Prod.fst := by
  cases hw : k.wide b with
  | false =>
    obtain ⟨p, data, hdata, hp⟩ := narrow_prog hw
    simp [hp, MwCall.zeros, hdata, Function.comp_def]
  | true =>
    obtain ⟨p, v, data, hdata, hp⟩ := wide_prog hw
    simp [hp, MwCall.zeros, hdata, Function.comp_def]

/-- Two calls write zeros over ones, in the order of `k`. -/
structure Marked (k k' : Concurrent) : Prop where
  shape : k'.shape = k.shape
  ones : ∀ i f, (k'.sys.barConfig k'.x.other i).get f = 1
  sel : (k'.sys.lregs k'.x).inboundMwBar.toNat < 6
  bars : ∀ b, k'.bar b = if b then 4 else 2
  zeros : ∀ b, k'.prog b = (k.call b).zeros (if b then 4 else 2) (k.wide b)

theorem exists_marked (k : Concurrent) : ∃ k', Marked k k' := by
  obtain ⟨ws, hshape, hm⟩ := exists_weave Prod.fst (l := k.shape)
    (p := fun b => (k.call b).zeros (if b then 4 else 2) (k.wide b))
    fun b => by rw [regs_shape, zeros_regs]
  have hwidx : ∀ b, (((k.call b).zero b).widx).toNat = if b then 1 else 0 := by
    intro b
    cases k.call b <;> cases b <;> rfl
  refine ⟨⟨markedDev k.wide, .marked, .vm1, fun b => (k.call b).zero b, _,
    fun b => (k.call b).zero_writes k.wide b, ?_, ws, hm⟩, ⟨hshape, ?_, ?_, ?_, fun b => rfl⟩⟩
  · rw [hwidx, hwidx]
    exact (by decide : (2 : Fin 6) ≠ 4)
  · intro i f
    cases f <;> rfl
  · exact (by decide : (Sys.marked.lregs .vm1).inboundMwBar.toNat < 6)
  · intro b
    show ((markedDev k.wide).mws _).bar = _
    rw [hwidx]
    cases b <;> rfl

/-- The selector gets one of the call's two entries, the data is zero. -/
theorem zeros_kind {c : MwCall} {i : Fin 6} {wide : Bool} (hi : (i : ℕ) + 1 < 6)
    {w : ConfigReg × BitVec 32} (hw : w ∈ c.zeros i wide) :
    InRange w ∧ (OofData w.1 → w.2 = 0) := by
  simp only [MwCall.zeros, List.cons_append, List.mem_cons, List.mem_append, List.mem_map] at hw
  rcases hw with rfl | rfl | ⟨r, hr, rfl⟩ | hw
  · exact ⟨Or.inl rfl, False.elim⟩
  · exact ⟨inRange_lutoff i.isLt, False.elim⟩
  · exact ⟨Or.inr (Or.inr (MwCall.stores_data hr).1), fun _ => rfl⟩
  · split_ifs at hw
    · simp only [List.mem_cons, List.not_mem_nil, or_false] at hw
      rcases hw with rfl | rfl
      · exact ⟨inRange_lutoff hi, False.elim⟩
      · exact ⟨Or.inr (Or.inr trivial), fun _ => rfl⟩
    · simp at hw

/-- A field that is zero or gets written with zeros is zero. -/
theorem foldl_put_zero {l : List (ConfigReg × BitVec 32)} {f : BarField} {c : BARConfig}
    (hz : ∀ e ∈ l, OofData e.1 → e.2 = 0)
    (h : c.get f = 0 ∨ ∃ e ∈ l, oofField e.1 = some f) : (l.foldl BARConfig.put c).get f = 0 := by
  induction l generalizing c with
  | nil => simpa using h
  | cons e l ih =>
    refine ih (fun e' he' => hz e' (by simp [he'])) ?_
    rw [BARConfig.get_put]
    by_cases hf : oofField e.1 = some f
    · left
      rw [if_pos hf]
      exact hz e (by simp) (oofField_isSome.1 (by rw [hf]; rfl))
    · rw [if_neg hf]
      refine h.imp_right ?_
      rintro ⟨e', he', hf'⟩
      rcases List.mem_cons.1 he' with rfl | he'
      · exact absurd hf' hf
      · exact ⟨e', he', hf'⟩

namespace Marked
variable {k k' : Concurrent} {b : Bool}

theorem kind (h : Marked k k') {w : ConfigReg × BitVec 32} (hw : w ∈ k'.prog b) :
    InRange w ∧ (OofData w.1 → w.2 = 0) := by
  rw [h.zeros] at hw
  exact zeros_kind (by cases b <;> decide) hw

/-- A call for a 64-bit BAR leaves the limit's upper half in the next entry. -/
theorem narrow (h : Marked k k') (hun : k'.Unmixed) : k.wide b = false := by
  by_contra hw
  rw [Bool.not_eq_false] at hw
  obtain ⟨s', -, hseq, hrest⟩ := hun
  obtain ⟨s₁, hs₁, heq⟩ := hseq !b
  let next : Fin 6 := if b then 5 else 3
  obtain ⟨l, hl⟩ : ∃ l, k'.prog (!b) ++ k'.prog b =
      l ++ [(.oofLutoff, BitVec.ofNat 32 next), (.oofHlimit, 0)] := by
    refine ⟨k'.prog (!b) ++ (.oofTpart, 0) :: (.oofLutoff, BitVec.ofNat 32 (if b then 4 else 2)) ::
      (k.call b).stores.map (·, 0), ?_⟩
    rw [h.zeros b, MwCall.zeros, hw]
    cases b <;> simp [next]
  have hkind : ∀ e ∈ l, InRange e := by
    intro e he
    have hmem : e ∈ k'.prog (!b) ++ k'.prog b := by
      rw [hl]
      exact List.mem_append_left _ he
    rcases List.mem_append.1 hmem with hmem | hmem
    · exact (h.kind hmem).1
    · exact (h.kind hmem).1
  obtain ⟨u, hu⟩ := fold_total (i := next) (u := k'.sys.selection k'.x next) hkind h.sel
  have hfold : (k'.prog (!b) ++ k'.prog b).foldlM (Selection.write next)
      (k'.sys.selection k'.x next) = some ⟨next, u.entry.set .limit 0⟩ := by
    rw [hl, List.foldlM_append, hu]
    cases b <;> rfl
  obtain ⟨s₂, hs₂, hsel, -⟩ := exec_selection hfold
  rw [Bool.not_not, hs₂] at hs₁
  cases hs₁
  have hnew : (s₁.barConfig k'.x.other next).get .limit = 0 := by
    have hent : s₁.barConfig k'.x.other next = u.entry.set .limit 0 :=
      congrArg Selection.entry hsel
    rw [hent]
    simp
  rw [← heq, hrest next fun a => by rw [h.bars]; cases a <;> cases b <;> decide, h.ones] at hnew
  exact absurd hnew (by decide)

/-- A data write that comes too late leaves its field behind. -/
theorem inTurn (h : Marked k k') (hn : ∀ b, k.wide b = false) (hun : k'.Unmixed) :
    StoresInTurn none k.shape := by
  have hn' : ∀ b, k'.wide b = false := fun b => (wide_shape h.shape).trans (hn b)
  rw [← h.shape]
  obtain ⟨b, q₁, q₂, q₃, hord⟩ := order_cases hn'
  refine hord.inTurn fun w hw => ?_
  by_contra hne
  have hwb : w.1 = b := by simpa using hne
  obtain ⟨f, hf⟩ := Option.isSome_iff_exists.1 (oofField_isSome.2 (hord.data w hw))
  obtain ⟨s', hs', hseq, -⟩ := hun
  -- as the writes came, the field is still one
  have hkept : (s'.barConfig k'.x.other (k'.bar b)).get f = 1 := by
    have hkind : ∀ e ∈ k'.writes.map Prod.snd, InRange e := by
      intro e he
      obtain ⟨w, hw, rfl⟩ := List.mem_map.1 he
      exact (h.kind (mem_prog k'.merged hw)).1
    obtain ⟨v, hv⟩ := fold_total (i := k'.bar b) (u := k'.sys.selection k'.x (k'.bar b)) hkind h.sel
    obtain ⟨s₂, hs₂, hsel, -⟩ := exec_selection hv
    rw [List.map_map] at hs₂
    obtain rfl : s₂ = s' := Except.ok.inj (hs₂.symm.trans hs')
    have hent : s₂.barConfig k'.x.other (k'.bar b) = v.entry := congrArg Selection.entry hsel
    rw [hent, hord.field_kept (hn' b) hw hwb hf hv]
    exact h.ones _ _
  -- and one call after the other leaves zero
  have hzero : (s'.barConfig k'.x.other (k'.bar b)).get f = 0 := by
    obtain ⟨s₁, hs₁, heq⟩ := hseq b
    obtain ⟨s₂, hs₂, hent, -⟩ := exec_inTurn hn' (inTurn_sequence hn' b)
      fun a => sequence_merged k' b
    rw [sequence_writes, hs₁] at hs₂
    cases hs₂
    rw [heq, hent]
    have hmem := mem_prog k'.merged (hord.writes ▸ (by simp [hw]) : w ∈ k'.writes)
    exact foldl_put_zero (fun e he => (h.kind he).2) (Or.inr ⟨w.2, hwb ▸ hmem, hf⟩)
  rw [hkept] at hzero
  exact absurd hzero (by decide)

end Marked

end Concurrent

/-- **Windows set up at the same time**: an order of the writes leaves the entries as one call after
    the other does, whatever the windows, the arguments and the state, exactly if both BARs are
    32 bits wide and the writes are in turn. -/
theorem unmixed_iff (k : Concurrent) : (∀ k' : Concurrent, k'.shape = k.shape → k'.Unmixed) ↔
    (∀ b, k.wide b = false) ∧ StoresInTurn none k.shape := by
  constructor
  · intro hall
    obtain ⟨k', h⟩ := k.exists_marked
    have hun := hall k' h.shape
    have hn : ∀ b, k.wide b = false := fun b => h.narrow hun
    exact ⟨hn, h.inTurn hn hun⟩
  · rintro ⟨hn, ht⟩ k' hshape
    refine Concurrent.unmixed_of_inTurn (fun b => ?_) (hshape ▸ ht)
    rw [Concurrent.wide_shape hshape]
    exact hn b

/-- Two windows of 1 MiB, on BARs 2 and 3.  The type field of BARSETUP is 2 for a 64-bit BAR. -/
def twoWindows : IdtNtbDev where
  peerCnt := 1
  mwCnt := 2
  mws n := ⟨.dir, if n = 0 then 2 else 3, 4096, 1, 2 ^ 20⟩
  part _ := 0
  is64 v := v >>> 1 &&& 3 == 2

/-- Both windows are set up for the peer. -/
def bothSet (b : Bool) : MwCall :=
  .setTrans 0 (if b then 1 else 0) (if b then 0x50000 else 0x40000) 0x1000

def bothSetProg (b : Bool) : List (ConfigReg × BitVec 32) :=
  [(.oofTpart, 0), (.oofLutoff, if b then 3 else 2), (.oofLdata, if b then 0x50000 else 0x40000),
    (.oofHdata, 0), (.oofLlimit, 0x1000)]

/-- The second call selects and stores before the first one, which has selected, stores. -/
def raced : List LabelledWrite :=
  [(false, .oofTpart, 0), (false, .oofLutoff, 2), (true, .oofTpart, 0), (true, .oofLutoff, 3),
    (true, .oofLdata, 0x50000), (true, .oofHdata, 0), (true, .oofLlimit, 0x1000),
    (false, .oofLdata, 0x40000), (false, .oofHdata, 0), (false, .oofLlimit, 0x1000)]

theorem bothSet_accepted (b : Bool) :
    (bothSet b).writes twoWindows .started .vm1 = .ok (bothSetProg b) := by
  cases b <;> rfl

theorem raced_merged (b : Bool) : part b raced = bothSetProg b := by
  cases b <;> rfl

def racing : Concurrent where
  ndev := twoWindows
  sys := .started
  x := .vm1
  call := bothSet
  prog := bothSetProg
  accepted := bothSet_accepted
  bars_ne := nofun
  writes := raced
  merged := raced_merged

/-- The address of the first window goes to the entry of the second. -/
theorem setups_mix : ¬ racing.Unmixed := by
  rintro ⟨s', hs', hseq, -⟩
  obtain ⟨s₁, hs₁, heq⟩ := hseq false
  have hraced : (raced.map Prod.snd).foldlM (Selection.write 3) (Sys.started.selection .vm1 3) =
      some ⟨3, { Sys.started.barConfig .vm2 3 with
        ltbase := 0x40000, utbase := 0, limit := 0x1000 }⟩ :=
    rfl
  have horder : (bothSetProg false ++ bothSetProg true).foldlM (Selection.write 3)
      (Sys.started.selection .vm1 3) =
      some ⟨3, { Sys.started.barConfig .vm2 3 with
        ltbase := 0x50000, utbase := 0, limit := 0x1000 }⟩ :=
    rfl
  obtain ⟨s₂, hs₂, hsel₂, -⟩ := exec_selection hraced
  obtain ⟨s₃, hs₃, hsel₃, -⟩ := exec_selection horder
  rw [List.map_map] at hs₂
  obtain rfl : s₂ = s' := Except.ok.inj (hs₂.symm.trans hs')
  obtain rfl : s₃ = s₁ := Except.ok.inj (hs₃.symm.trans hs₁)
  have h2 : (s₂.barConfig .vm2 3).ltbase = 0x40000 :=
    congrArg (fun w => w.entry.ltbase) hsel₂
  have h3 : (s₃.barConfig .vm2 3).ltbase = 0x50000 :=
    congrArg (fun w => w.entry.ltbase) hsel₃
  have h : s₂.barConfig .vm2 = s₃.barConfig .vm2 := heq
  rw [h, h3] at h2
  exact absurd h2 (by decide)

end IdtNtb
