/-
  Where the out-of-spec window registers store.

  TPART stores into the writer's own block and LUTOFF into its selector, and the
  data registers store into the peer's BAR entries at the index that the selector
  holds.  The index is not checked.

  * `Contained` is what one such write may change, and `OofFrame` what any number
    of them by both machines may change;
  * `contained_iff` says that a register keeps to this for all values exactly
    while the selector is below 6: past the entries every data register reaches a
    word of something else (`storeBar_injective`);
  * `oof_frame` lifts it to the runs in which no selector was out of range when
    it was used.
-/
import IdtNtb.Driver

namespace IdtNtb

open Function (update)
open Runs

variable {s s' s₀ : Sys} {t : List (Sys × Act)} {x y : Vm} {r : ConfigReg} {v : BitVec 32}

/-! ## The stores -/

theorem setHalf_injective (v : BitVec 64) (high : Bool) {w w' : BitVec 32}
    (h : setHalf v high w = setHalf v high w') : w = w' := by
  have hhigh : ∀ (a b : BitVec 32) (i : ℕ), (a ++ b).getLsbD (32 + i) = a.getLsbD i := by
    intro a b i
    rw [BitVec.getLsbD_append]
    simp
  have hlow : ∀ (a b : BitVec 32) (i : ℕ), i < 32 → (a ++ b).getLsbD i = b.getLsbD i := by
    intro a b i hi
    rw [BitVec.getLsbD_append]
    simp [hi]
  apply BitVec.eq_of_getLsbD_eq
  intro i hi
  cases high with
  | true => exact (hhigh w _ i).symm.trans ((congrArg (·.getLsbD (32 + i)) h).trans (hhigh w' _ i))
  | false => exact (hlow _ w i hi).symm.trans ((congrArg (·.getLsbD i) h).trans (hlow _ w' i hi))

theorem storeRegs_injective (r : IdtSharedRegisters) (k : ℕ) {w w' : BitVec 32}
    (h : r.storeWord k w = r.storeWord k w') : w = w' := by
  have hupd : ∀ (a : Fin 4 → BitVec 64) (i : Fin 4) (high : Bool),
      update a i (setHalf (a i) high w) = update a i (setHalf (a i) high w') → w = w' :=
    fun a i high hu => setHalf_injective (a i) high (Function.update_injective a i hu)
  rcases k with _ | _ | _ | k
  · exact congrArg (·.db) h
  · exact congrArg (·.dbMask) h
  · exact congrArg (·.inboundMwPart) h
  · simp only [IdtSharedRegisters.storeWord] at h
    split at h
    case h_1 => exact setHalf_injective _ _ (congrArg (·.ntctl) h)
    case h_2 => exact setHalf_injective _ _ (congrArg (·.msgsts) h)
    case h_3 => exact setHalf_injective _ _ (congrArg (·.msgstsMask) h)
    case h_8 => exact setHalf_injective _ _ (congrArg (·.intsts) h)
    case h_4 | h_5 | h_6 | h_7 => exact hupd _ _ _ (congrArg (·.msg) h)
    case h_9 | h_10 | h_11 | h_12 => exact hupd _ _ _ (congrArg (·.part0MsgControl) h)
    case h_13 => exact hupd _ _ _ (congrArg (·.inbMsgSrc) h)

theorem storeBlock_injective (b : IdtIvshmemVmShmStorage) (k : ℕ) {w w' : BitVec 32}
    (h : b.storeWord k w = b.storeWord k w') : w = w' := by
  unfold IdtIvshmemVmShmStorage.storeWord at h
  split_ifs at h
  · exact congrArg (·.id) h
  · exact storeRegs_injective _ _ (congrArg (·.regs) h)
  · have hent := Function.update_injective _ _ (congrArg (·.barConfig) h)
    have hget := congrArg (·.get (BarField.ofWord ((k - 36) % 4))) hent
    simpa using hget

theorem storeWord_injective (m : IdtIvshmemShmStorage) {k : ℕ} (hk : ¬ k < 4) {w w' : BitVec 32}
    (h : m.storeWord k w = m.storeWord k w') : w = w' := by
  have hmod : ∀ (x : Vm) (j : ℕ), m.modVm x (·.storeWord j w) = m.modVm x (·.storeWord j w') →
      w = w' := by
    intro x j hj
    have hblock := congrArg (·.vm x) hj
    simp only [IdtIvshmemShmStorage.modVm_self] at hblock
    exact storeBlock_injective _ j hblock
  unfold IdtIvshmemShmStorage.storeWord at h
  by_cases h1 : k < 64
  · simp only [if_neg hk, if_pos h1] at h
    exact hmod _ _ h
  by_cases h2 : k < 124
  · simp only [if_neg hk, if_neg h1, if_pos h2] at h
    exact hmod _ _ h
  · simp only [if_neg hk, if_neg h1, if_neg h2] at h
    have hrest : update m.rest (k - 124) w = update m.rest (k - 124) w' :=
      congrArg IdtIvshmemShmStorage.rest h
    simpa using congrFun hrest (k - 124)

/-- **Every index reaches some word**: different values leave different memories. -/
theorem storeBar_injective (m : IdtIvshmemShmStorage) (y : Vm) (i : BitVec 32) (f : BarField)
    {w w' : BitVec 32} (h : m.storeBar y i f w = m.storeBar y i f w') : w = w' := by
  have hk : ¬ IdtIvshmemShmStorage.blockWord y + 36 + 4 * i.toNat + f.word < 4 := by omega
  exact storeWord_injective m hk h

/-! ## One write -/

/-- What the out-of-spec registers of both machines may change: selectors, partitions, and in the
    BAR entries everything but the set-up. -/
structure OofFrame (s s' : Sys) : Prop where
  gregs : s'.shm.gregs = s.shm.gregs
  rest : s'.shm.rest = s.shm.rest
  id : ∀ y, (s'.shm.vm y).id = (s.shm.vm y).id
  regs : ∀ y, s'.regs y = { s.regs y with inboundMwPart := (s'.regs y).inboundMwPart }
  setup : ∀ y i, (s'.barConfig y i).setup = (s.barConfig y i).setup
  dev : ∀ y, s'.dev y =
    { s.dev y with lregs := { s.lregs y with inboundMwBar := (s'.lregs y).inboundMwBar } }
  ram : s'.ram = s.ram

/-- What one write of `x` may change: its own partition and the entries of its peer, and nothing
    that is shared while the selector of a store names no entry. -/
structure Contained (x : Vm) (r : ConfigReg) (s s' : Sys) : Prop extends OofFrame s s' where
  own : s'.barConfig x = s.barConfig x
  part : (s'.regs x.other).inboundMwPart = (s.regs x.other).inboundMwPart
  unselected : OofData r → ¬ (s.ctx x).SelOk → s'.shm = s.shm

theorem OofFrame.refl (s : Sys) : OofFrame s s :=
  ⟨rfl, rfl, fun _ => rfl, fun _ => rfl, fun _ _ => rfl, fun _ => rfl, rfl⟩

theorem OofFrame.trans (h : OofFrame s₀ s) (h' : OofFrame s s') : OofFrame s₀ s' where
  gregs := h'.gregs.trans h.gregs
  rest := h'.rest.trans h.rest
  id y := (h'.id y).trans (h.id y)
  regs y := by rw [h'.regs y, h.regs y]
  setup y i := (h'.setup y i).trans (h.setup y i)
  dev y := by
    have h1 := h.dev y
    have h2 := h'.dev y
    unfold Sys.lregs at *
    rw [h2, h1]
  ram := h'.ram.trans h.ram

/-- The frame, from what is left in the two blocks. -/
theorem OofFrame.of_blocks (hg : s'.shm.gregs = s.shm.gregs) (hrest : s'.shm.rest = s.shm.rest)
    (hvm : ∀ y, ∃ p c, s'.shm.vm y =
      { s.shm.vm y with regs := { s.regs y with inboundMwPart := p }, barConfig := c } ∧
      ∀ i, (c i).setup = (s.barConfig y i).setup)
    (hdev : ∀ y, ∃ b, s'.dev y = { s.dev y with lregs := { s.lregs y with inboundMwBar := b } })
    (hram : s'.ram = s.ram) : OofFrame s s' where
  gregs := hg
  rest := hrest
  id y := by
    obtain ⟨p, c, h, -⟩ := hvm y
    rw [h]
  regs y := by
    obtain ⟨p, c, h, -⟩ := hvm y
    simp only [Sys.regs, h]
  setup y i := by
    obtain ⟨p, c, h, hc⟩ := hvm y
    rw [← hc i, Sys.barConfig, h]
  dev y := by
    obtain ⟨b, h⟩ := hdev y
    simp only [Sys.lregs, h]
  ram := hram

/-- A store through the selector. -/
theorem step_oofData {f : BarField} (hf : oofField r = some f) (h : Step s (.write x r.addr v) s') :
    s'.shm = s.shm.storeBar x.other (s.lregs x).inboundMwBar f v ∧ s'.dev = s.dev := by
  obtain ⟨c, hc, hshm, hdev⟩ := step_write h
  cases r with
  | oofLdata | oofHdata | oofLlimit | oofHlimit =>
    cases hf
    cases hc
    refine ⟨?_, ?_⟩
    · rw [hshm]
      simp [Ctx.setPeerBar, Sys.lregs]
    · rw [hdev]
      simp
  | _ => cases hf

theorem BARConfig.set_setup (c : BARConfig) {f : BarField} (hf : f ≠ .setup) (v : BitVec 32) :
    (c.set f v).setup = c.setup := by
  cases f with
  | setup => exact absurd rfl hf
  | limit | ltbase | utbase => rfl

/-- No data register stores into a set-up word. -/
theorem oofField_ne_setup {f : BarField} (hf : oofField r = some f) : f ≠ .setup := by
  cases r with
  | oofLdata | oofHdata | oofLlimit | oofHlimit =>
    cases hf
    decide
  | _ => cases hf

theorem contained_tpart (h : Step s (.write x ConfigReg.oofTpart.addr v) s') :
    Contained x .oofTpart s s' := by
  have hram : s'.ram = s.ram := step_ram h fun _ _ _ _ _ _ ha => by cases ha
  obtain ⟨c, hc, hshm, hdev⟩ := step_write h
  cases hc
  have hown : s'.shm.vm x = { s.shm.vm x with regs := { s.regs x with inboundMwPart := v } } := by
    rw [hshm]
    simp [Ctx.modRegs, Sys.regs]
  have hpeer : s'.shm.vm x.other = s.shm.vm x.other := by
    rw [hshm]
    simp [Ctx.modRegs]
  refine ⟨OofFrame.of_blocks (by rw [hshm]; rfl) (by rw [hshm]; rfl) (fun y => ?_) (fun y => ?_) hram,
    ?_, ?_, fun hr => hr.elim⟩
  · rcases Vm.eq_or_other x y with rfl | rfl
    · exact ⟨_, _, hown, fun i => rfl⟩
    · exact ⟨_, _, hpeer, fun i => rfl⟩
  · refine ⟨(s.lregs y).inboundMwBar, ?_⟩
    rw [hdev]
    simp [Sys.lregs]
  · rw [Sys.barConfig, hown]
    rfl
  · rw [Sys.regs, hpeer]
    rfl

theorem contained_lutoff (h : Step s (.write x ConfigReg.oofLutoff.addr v) s') :
    Contained x .oofLutoff s s' := by
  have hram : s'.ram = s.ram := step_ram h fun _ _ _ _ _ _ ha => by cases ha
  obtain ⟨c, hc, hshm, hdev⟩ := step_write h
  cases hc
  have hshm' : s'.shm = s.shm := hshm
  refine ⟨OofFrame.of_blocks (by rw [hshm']) (by rw [hshm']) (fun y => ?_) (fun y => ?_) hram,
    ?_, ?_, fun hr => hr.elim⟩
  · exact ⟨_, _, by rw [hshm']; rfl, fun i => rfl⟩
  · rw [hdev]
    by_cases hy : y = x
    · subst hy
      refine ⟨v, ?_⟩
      simp [Sys.lregs]
    · exact ⟨(s.lregs y).inboundMwBar, by simp [hy, Sys.lregs]⟩
  · rw [Sys.barConfig, hshm']
    rfl
  · rw [Sys.regs, hshm']
    rfl

/-- **A selector below 6 keeps the store in the peer's entries.** -/
theorem contained_data (hr : OofData r) (hs : (s.ctx x).SelOk)
    (h : Step s (.write x r.addr v) s') : Contained x r s s' := by
  have hram : s'.ram = s.ram := step_ram h fun _ _ _ _ _ _ ha => by cases ha
  obtain ⟨f, hf⟩ := Option.isSome_iff_exists.1 (oofField_isSome.2 hr)
  obtain ⟨hshm, hdev⟩ := step_oofData hf h
  -- the selector is the index of an entry
  have hsel : BitVec.ofNat 32 ((s.ctx x).sel hs) = (s.lregs x).inboundMwBar := by
    simp [Ctx.sel, Sys.lregs]
  rw [← hsel, IdtIvshmemShmStorage.storeBar_eq] at hshm
  have hown : s'.shm.vm x = s.shm.vm x := by
    rw [hshm]
    simp
  refine ⟨OofFrame.of_blocks (by rw [hshm]; rfl) (by rw [hshm]; rfl) (fun y => ?_) (fun y => ?_) hram,
    ?_, ?_, fun _ hno => absurd hs hno⟩
  · rcases Vm.eq_or_other x y with rfl | rfl
    · exact ⟨_, _, hown, fun i => rfl⟩
    · refine ⟨_, _, by rw [hshm, IdtIvshmemShmStorage.modVm_self]; rfl, fun i => ?_⟩
      by_cases hi : i = (s.ctx x).sel hs
      · subst hi
        rw [Function.update_self, BARConfig.set_setup _ (oofField_ne_setup hf)]
        rfl
      · simp [hi, Sys.barConfig]
  · exact ⟨(s.lregs y).inboundMwBar, by rw [hdev]; rfl⟩
  · rw [Sys.barConfig, hown]
    rfl
  · rw [Sys.regs, hshm]
    simp [Sys.regs]

/-- The out-of-spec registers. -/
def Oof (r : ConfigReg) : Prop := r = .oofTpart ∨ r = .oofLutoff ∨ OofData r

theorem contained_of_selOk (hr : Oof r) (hs : OofData r → (s.ctx x).SelOk)
    (h : Step s (.write x r.addr v) s') : Contained x r s s' := by
  rcases hr with rfl | rfl | hr
  · exact contained_tpart h
  · exact contained_lutoff h
  · exact contained_data hr (hs hr) h

/-- **One register**: its stores are contained, whatever the value, exactly while the selector is
    below 6 when it is used. -/
theorem contained_iff (hr : Oof r) :
    (∀ v s', Step s (.write x r.addr v) s' → Contained x r s s') ↔
      (OofData r → (s.ctx x).SelOk) := by
  constructor
  · intro hall hdata
    by_contra hno
    obtain ⟨f, hf⟩ := Option.isSome_iff_exists.1 (oofField_isSome.2 hdata)
    -- two different values cannot both leave the memory alone
    have hkept : ∀ v, s.shm.storeBar x.other (s.lregs x).inboundMwBar f v = s.shm := by
      intro v
      obtain ⟨s', hst⟩ : ∃ s', Step s (.write x r.addr v) s' := by
        cases r with
        | oofLdata | oofHdata | oofLlimit | oofHlimit => exact ⟨_, rfl⟩
        | _ => exact hdata.elim
      rw [← (step_oofData hf hst).1]
      exact (hall v s' hst).unselected hdata hno
    have := storeBar_injective _ _ _ _ ((hkept 0).trans (hkept 1).symm)
    exact absurd this (by decide)
  · intro hs v s' h
    exact contained_of_selOk hr hs h

/-! ## Runs -/

/-- The guests write out-of-spec registers only. -/
def OofWrite (a : Act) : Prop := ∃ x r v, a = .write x (ConfigReg.addr r) v ∧ Oof r

/-- **The out-of-spec registers stay in the peer's entries** for all values that a run could have
    written, exactly if each store of the run finds its selector below 6. -/
theorem oof_frame (h : Run Step s₀ t s) (hw : ∀ e ∈ t, OofWrite e.2) :
    ((∀ e ∈ t, ∀ x r v₀, e.2 = .write x (ConfigReg.addr r) v₀ →
        ∀ v s', Step e.1 (.write x r.addr v) s' → Contained x r e.1 s') ↔
      ∀ e ∈ t, e.1.SelFor e.2) ∧
    ((∀ e ∈ t, e.1.SelFor e.2) → OofFrame s₀ s) := by
  have hoof : ∀ e ∈ t, ∀ x r v, e.2 = .write x (ConfigReg.addr r) v → Oof r := by
    intro e he x r v ha
    obtain ⟨x', r', v', ha', hr⟩ := hw e he
    rw [ha'] at ha
    simp only [Act.write.injEq, ConfigReg.addr_inj] at ha
    exact ha.2.1 ▸ hr
  refine ⟨⟨fun hall e he x r v ha => ?_, fun hsel e he x r v₀ ha => ?_⟩, fun hsel => ?_⟩
  · exact (contained_iff (hoof e he x r v ha)).1 (hall e he x r v ha)
  · exact (contained_iff (hoof e he x r v₀ ha)).2 (hsel e he x r v₀ ha)
  · refine Run.inv_of (OofFrame s₀) (fun e => OofWrite e.2 ∧ e.1.SelFor e.2) (OofFrame.refl s₀) ?_ h
      fun e he => ⟨hw e he, hsel e he⟩
    rintro s a s' hi ⟨⟨x, r, v, rfl, hr⟩, hs⟩ hst
    exact hi.trans (contained_of_selOk hr (hs x r v rfl) hst).toOofFrame

/-- A machine selects an entry and stores a limit. -/
def selectAndStore (x : Vm) (sel : BitVec 32) : List Act :=
  [.write x ConfigReg.oofLutoff.addr sel, .write x ConfigReg.oofLlimit.addr 5]

theorem selectAndStore_oof {x : Vm} {sel : BitVec 32} :
    ∀ e ∈ trace Sys.next Sys.started (selectAndStore x sel), OofWrite e.2 := by
  intro e he
  have hacts := mem_of_mem_trace he
  simp only [selectAndStore, List.mem_cons, List.not_mem_nil, or_false] at hacts
  rcases hacts with h | h
  · exact ⟨_, _, _, h, Or.inr (Or.inl rfl)⟩
  · exact ⟨_, _, _, h, Or.inr (Or.inr trivial)⟩

theorem oof_frame_started : ∃ s,
    Run Step Sys.started (trace Sys.next Sys.started (selectAndStore .vm1 2)) s ∧
      OofFrame Sys.started s := by
  obtain ⟨s, hs⟩ : ∃ s, exec Sys.next Sys.started (selectAndStore .vm1 2) = .ok s := ⟨_, rfl⟩
  have hsel : ∀ e ∈ trace Sys.next Sys.started (selectAndStore .vm1 2), e.1.SelOk := by decide
  refine ⟨s, Run.of_exec hs, (oof_frame (Run.of_exec hs) selectAndStore_oof).2 ?_⟩
  exact fun e he => (hsel e he).selFor e.2

/-- **A limit stored behind the entries rings the writer's own doorbell.** -/
theorem selector_escapes : ¬ ∀ t s, Run Step Sys.started t s → (∀ e ∈ t, OofWrite e.2) →
    OofFrame Sys.started s := by
  intro hall
  obtain ⟨s, hs, hdb⟩ : ∃ s, exec Sys.next Sys.started (selectAndStore .vm2 6) = .ok s ∧
      (s.regs .vm2).db = 5 := ⟨_, rfl, by decide⟩
  have hframe := congrArg (·.db) ((hall _ s (Run.of_exec hs) selectAndStore_oof).regs .vm2)
  have hdb₀ : (s.regs .vm2).db = (Sys.started.regs .vm2).db := hframe
  rw [hdb] at hdb₀
  exact absurd hdb₀ (by decide)

end IdtNtb
