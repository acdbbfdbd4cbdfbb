/-
  The driver's inbound windows: `idt_ntb_mw_set_trans` and
  `idt_ntb_mw_clear_trans`.

  The driver of machine `x` programs the BAR entry of its peer through the
  out-of-spec window registers.  Its functions return the register writes they
  make, in order, or an error.  The window configuration, the peers' partitions
  and the predicate behind `IS_FLD_SET(BARSETUP_TYPE, data, 64)` come from the
  rest of the driver (`IdtNtbDev`), `pci_bus_address` from the bus.

  * `exec_selection` runs a list of writes on one entry of the peer alone;
    `mwSetTrans_spec` and `mwClearTrans_spec` say what they leave there.
-/
import IdtNtb.Config

namespace IdtNtb

open Runs

variable {s s' : Sys} {x y : Vm}

/-! ## The functions -/

/-- `enum idt_mw_type`, as far as the functions tell the types apart. -/
inductive IdtMwType where
  | dir | lut
deriving DecidableEq, Repr

/-- `struct idt_mw_cfg` -/
structure IdtMwCfg where
  type : IdtMwType
  bar : Fin 6
  addrAlign : BitVec 64
  sizeAlign : BitVec 64
  sizeMax : BitVec 64

/-- What the functions use of `struct idt_ntb_dev`. -/
structure IdtNtbDev where
  peerCnt : ℕ
  mwCnt : ℕ
  mws : ℕ → IdtMwCfg
  /-- `peers[pidx].part` -/
  part : ℕ → BitVec 8
  /-- `IS_FLD_SET(BARSETUP_TYPE, data, 64)` -/
  is64 : BitVec 32 → Bool

inductive Errno where
  | einval
deriving DecidableEq, Repr

/-- `IS_ALIGNED(v, a)` -/
def isAligned (v a : BitVec 64) : Bool := v &&& (a - 1) == 0

/-- `idt_nt_read` -/
def idtNtRead (s : Sys) (x : Vm) (r : ConfigReg) : BitVec 32 := (s.read x r.addr).setWidth 32

/-- `idt_nt_write`: one 32-bit write to BAR 0. -/
def idtNtWrite (x : Vm) (w : ConfigReg × BitVec 32) : Act := .write x w.1.addr w.2

section
variable (ndev : IdtNtbDev) (s : Sys) (x : Vm) (pidx widx : ℤ)

def idtNtbMwSetTrans (addr size : BitVec 64) : Except Errno (List (ConfigReg × BitVec 32)) :=
  if pidx < 0 ∨ ndev.peerCnt ≤ pidx then .error .einval
  else if widx < 0 ∨ ndev.mwCnt ≤ widx then .error .einval
  else
    let mwCfg := ndev.mws widx.toNat
    if !isAligned addr mwCfg.addrAlign then .error .einval
    else if !isAligned size mwCfg.sizeAlign ∨ mwCfg.sizeMax < size then .error .einval
    else if mwCfg.type = .dir then
      let data := idtNtRead s x (.bar .setup mwCfg.bar)
      let limit := ((s.dev x).bars mwCfg.bar).val + size
      .ok ([(.oofTpart, (ndev.part pidx.toNat).setWidth 32),
        (.oofLutoff, BitVec.ofNat 32 mwCfg.bar),
        (.oofLdata, addr.setWidth 32),
        (.oofHdata, (addr >>> 32).setWidth 32),
        (.oofLlimit, limit.setWidth 32)] ++
        if ndev.is64 data then
          [(.oofLutoff, BitVec.ofNat 32 (mwCfg.bar + 1)), (.oofHlimit, (limit >>> 32).setWidth 32)]
        else [])
    else .error .einval -- not implemented

def idtNtbMwClearTrans : Except Errno (List (ConfigReg × BitVec 32)) :=
  if pidx < 0 ∨ ndev.peerCnt ≤ pidx then .error .einval
  else if widx < 0 ∨ ndev.mwCnt ≤ widx then .error .einval
  else
    let mwCfg := ndev.mws widx.toNat
    if mwCfg.type = .dir then
      let data := idtNtRead s x (.bar .setup mwCfg.bar)
      .ok ([(.oofTpart, (ndev.part pidx.toNat).setWidth 32),
        (.oofLutoff, BitVec.ofNat 32 mwCfg.bar),
        (.oofLlimit, 0)] ++
        if ndev.is64 data then
          [(.oofLutoff, BitVec.ofNat 32 (mwCfg.bar + 1)), (.oofHlimit, 0)]
        else [])
    else .error .einval -- not implemented

end

section
variable {ndev : IdtNtbDev} {pidx widx : ℤ} {addr size : BitVec 64} {i : Fin 6}
  {prog : List (ConfigReg × BitVec 32)}

/-- The writes for a window on a 32-bit BAR. -/
theorem mwSetTrans_direct (hi : (ndev.mws widx.toNat).bar = i)
    (h32 : ndev.is64 (idtNtRead s x (.bar .setup i)) = false)
    (h : idtNtbMwSetTrans ndev s x pidx widx addr size = .ok prog) :
    prog = [(.oofTpart, (ndev.part pidx.toNat).setWidth 32), (.oofLutoff, BitVec.ofNat 32 i),
      (.oofLdata, addr.setWidth 32), (.oofHdata, (addr >>> 32).setWidth 32),
      (.oofLlimit, (((s.dev x).bars i).val + size).setWidth 32)] := by
  unfold idtNtbMwSetTrans at h
  dsimp only at h
  rw [hi, h32] at h
  simp only [Bool.false_eq_true, if_false, List.append_nil] at h
  split_ifs at h
  cases h
  rfl

theorem mwClearTrans_direct (hi : (ndev.mws widx.toNat).bar = i)
    (h32 : ndev.is64 (idtNtRead s x (.bar .setup i)) = false)
    (h : idtNtbMwClearTrans ndev s x pidx widx = .ok prog) :
    prog = [(.oofTpart, (ndev.part pidx.toNat).setWidth 32), (.oofLutoff, BitVec.ofNat 32 i),
      (.oofLlimit, 0)] := by
  unfold idtNtbMwClearTrans at h
  dsimp only at h
  rw [hi, h32] at h
  simp only [Bool.false_eq_true, if_false, List.append_nil] at h
  split_ifs at h
  cases h
  rfl

end

/-! ## The writes seen from one entry -/

/-- The selector of a machine and an entry of its peer. -/
@[ext]
structure Selection where
  sel : ℕ
  entry : BARConfig

/-- What a write to an out-of-spec register does to the entry `i`, as long as stores go to an
    entry. -/
def Selection.write (i : Fin 6) (w : Selection) : ConfigReg × BitVec 32 → Option Selection
  | (.oofTpart, _) => some w
  | (.oofLutoff, v) => some { w with sel := v.toNat }
  | (r, v) =>
    match oofField r with
    | some f =>
      if w.sel = i then some { w with entry := w.entry.set f v }
      else if w.sel < 6 then some w
      else none
    | none => none

def Sys.selection (s : Sys) (x : Vm) (i : Fin 6) : Selection :=
  ⟨(s.lregs x).inboundMwBar.toNat, s.barConfig x.other i⟩

/-- A write to an out-of-spec register does not fail, and moves the selector or stores into the
    entry selected. -/
theorem step_oof {r : ConfigReg} (v : BitVec 32)
    (hr : r = .oofTpart ∨ r = .oofLutoff ∨ OofData r) (hs : OofData r → (s.ctx x).SelOk) :
    ∃ s', Step s (.write x r.addr v) s' ∧
      (s'.lregs x).inboundMwBar = (if r = .oofLutoff then v else (s.lregs x).inboundMwBar) ∧
      s'.barConfig x.other = (s.ctx x).peerBarConfigAfter r (v.setWidth 64) ∧
      ∀ y, (s'.dev y).bars = (s.dev y).bars := by
  obtain ⟨s', hst⟩ : ∃ s', Step s (.write x r.addr v) s' := by
    cases r with
    | oofTpart | oofLutoff | oofLdata | oofHdata | oofLlimit | oofHlimit => exact ⟨_, rfl⟩
    | _ => simp [OofData] at hr
  have hpeer : s.SelFor (.write x r.addr v) := by
    intro z q u hq hoof
    simp only [Act.write.injEq, ConfigReg.addr_inj] at hq
    obtain ⟨rfl, rfl, rfl⟩ := hq
    exact hs hoof
  refine ⟨s', hst, ?_, ?_, fun y => (step_peers hst y).2.2⟩
  · simpa [selAfter] using step_selector hst x
  · have h := @step_peer s s' x.other r v
    rw [Vm.other_other] at h
    exact (h hpeer hst).2

theorem write_data {r : ConfigReg} {f : BarField} (hf : oofField r = some f) (v : BitVec 32)
    (i : Fin 6) (w : Selection) : w.write i (r, v) =
      if w.sel = i then some { w with entry := w.entry.set f v }
      else if w.sel < 6 then some w else none := by
  cases r with
  | oofLdata | oofHdata | oofLlimit | oofHlimit =>
    cases hf
    rfl
  | _ => cases hf

theorem peerBarConfigAfter_data {c : Ctx x} {r : ConfigReg} {f : BarField}
    (hf : oofField r = some f) (v : BitVec 64) : c.peerBarConfigAfter r v = c.setSelected v f := by
  cases r with
  | oofLdata | oofHdata | oofLlimit | oofHlimit =>
    cases hf
    rfl
  | _ => cases hf

/-- One write, on the devices and on the entry alone. -/
theorem step_selection {i : Fin 6} {e : ConfigReg × BitVec 32} {w : Selection}
    (hw : (s.selection x i).write i e = some w) : ∃ s', Step s (idtNtWrite x e) s' ∧
      s'.selection x i = w ∧ ∀ y, (s'.dev y).bars = (s.dev y).bars := by
  obtain ⟨r, v⟩ := e
  by_cases hr : OofData r
  · obtain ⟨f, hf⟩ := Option.isSome_iff_exists.1 (oofField_isSome.2 hr)
    rw [write_data hf] at hw
    have hok : (s.ctx x).SelOk := by
      show (s.selection x i).sel < 6
      split_ifs at hw with h1 h2
      · rw [h1]
        exact i.isLt
      · exact h2
    obtain ⟨s', hst, hsel, hent, hbars⟩ := step_oof v (Or.inr (Or.inr hr)) fun _ => hok
    refine ⟨s', hst, ?_, hbars⟩
    have hlut : r ≠ .oofLutoff := by
      rintro rfl
      exact hr
    rw [if_neg hlut] at hsel
    rw [peerBarConfigAfter_data hf] at hent
    have hent' : s'.barConfig x.other i = if (s.selection x i).sel = i then
        (s.selection x i).entry.set f v else (s.selection x i).entry := by
      rw [hent]
      simp only [Ctx.setSelected, Sys.ctx_peerBarConfig]
      simp [Sys.selection, Sys.lregs]
      rfl
    split_ifs at hw hent' with h1 h2
    · cases hw
      exact Selection.ext (congrArg BitVec.toNat hsel) hent'
    · cases hw
      exact Selection.ext (congrArg BitVec.toNat hsel) hent'
  · cases r with
    | oofTpart =>
      cases hw
      obtain ⟨s', hst, hsel, hent, hbars⟩ := step_oof (s := s) v (Or.inl rfl)
        fun hdata => False.elim hdata
      exact ⟨s', hst, Selection.ext (congrArg BitVec.toNat hsel) (congrFun hent i), hbars⟩
    | oofLutoff =>
      cases hw
      obtain ⟨s', hst, hsel, hent, hbars⟩ := step_oof (s := s) v (Or.inr (Or.inl rfl))
        fun hdata => False.elim hdata
      exact ⟨s', hst, Selection.ext (congrArg BitVec.toNat hsel) (congrFun hent i), hbars⟩
    | oofLdata | oofHdata | oofLlimit | oofHlimit => exact absurd trivial hr
    | _ => cases hw

/-- **A program of the driver**, on the devices and on the entry alone. -/
theorem exec_selection {i : Fin 6} {prog : List (ConfigReg × BitVec 32)} {w : Selection}
    (hw : prog.foldlM (Selection.write i) (s.selection x i) = some w) :
    ∃ s', exec Sys.next s (prog.map (idtNtWrite x)) = .ok s' ∧ s'.selection x i = w ∧
      ∀ y, (s'.dev y).bars = (s.dev y).bars := by
  induction prog generalizing s with
  | nil =>
    cases hw
    exact ⟨s, rfl, rfl, fun y => rfl⟩
  | cons e prog ih =>
    rw [List.foldlM_cons] at hw
    obtain ⟨w₁, hw₁, hw⟩ := Option.bind_eq_some_iff.1 hw
    obtain ⟨s₁, h1, hsel, hbars⟩ := step_selection hw₁
    rw [← hsel] at hw
    obtain ⟨s', h2, hsel', hbars'⟩ := ih hw
    refine ⟨s', ?_, hsel', fun y => (hbars' y).trans (hbars y)⟩
    have h1' : Sys.next s (idtNtWrite x e) = .ok s₁ := h1
    simp only [List.map_cons, exec, h1']
    exact h2

theorem exec_entry {i : Fin 6} {prog : List (ConfigReg × BitVec 32)} {c : BARConfig}
    (hc : (prog.foldlM (Selection.write i) (s.selection x i)).map Selection.entry = some c) :
    ∃ s', exec Sys.next s (prog.map (idtNtWrite x)) = .ok s' ∧ s'.barConfig x.other i = c ∧
      ∀ y, (s'.dev y).bars = (s.dev y).bars := by
  obtain ⟨w, hw, rfl⟩ := Option.map_eq_some_iff.1 hc
  obtain ⟨s', hs, rfl, hbars⟩ := exec_selection hw
  exact ⟨s', hs, rfl, hbars⟩

section
variable {ndev : IdtNtbDev} {pidx widx : ℤ} {addr size : BitVec 64} {w : Window}
  {prog : List (ConfigReg × BitVec 32)}

/-- **What `idt_ntb_mw_set_trans` leaves** in the entry of its window.  The limit of a 64-bit BAR
    goes on in the next entry. -/
theorem mwSetTrans_spec (hw : (ndev.mws widx.toNat).bar = w.idx)
    (h : idtNtbMwSetTrans ndev s x pidx widx addr size = .ok prog) :
    ∃ s', exec Sys.next s (prog.map (idtNtWrite x)) = .ok s' ∧
      s'.barConfig x.other w.idx = { s.barConfig x.other w.idx with
        limit := (((s.dev x).bars w.idx).val + size).setWidth 32
        ltbase := addr.setWidth 32
        utbase := (addr >>> 32).setWidth 32 } ∧
      ∀ y, (s'.dev y).bars = (s.dev y).bars := by
  unfold idtNtbMwSetTrans at h
  dsimp only at h
  rw [hw] at h
  split_ifs at h
  · cases h
    exact exec_entry (by cases w <;> rfl)
  · cases h
    exact exec_entry (by cases w <;> rfl)

/-- **What `idt_ntb_mw_clear_trans` leaves** there. -/
theorem mwClearTrans_spec (hw : (ndev.mws widx.toNat).bar = w.idx)
    (h : idtNtbMwClearTrans ndev s x pidx widx = .ok prog) :
    ∃ s', exec Sys.next s (prog.map (idtNtWrite x)) = .ok s' ∧
      s'.barConfig x.other w.idx = { s.barConfig x.other w.idx with limit := 0 } ∧
      ∀ y, (s'.dev y).bars = (s.dev y).bars := by
  unfold idtNtbMwClearTrans at h
  dsimp only at h
  rw [hw] at h
  split_ifs at h
  · cases h
    exact exec_entry (by cases w <;> rfl)
  · cases h
    exact exec_entry (by cases w <;> rfl)

end

end IdtNtb
