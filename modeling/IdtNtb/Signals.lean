/-
  What the accesses of the guests signal.

  * `Ctx.Alerts` says which register writes signal the other device
    (`writeReg_alerts`);
  * `access_delivers`: an access of a guest makes the notifier pending that its
    device has for the other one, or none.
-/
import IdtNtb.Notifiers
import IdtNtb.System

namespace IdtNtb

open Function (update)
open Runs

/-- The machine whose guest makes an access. -/
def Act.guest : Act → Option Vm
  | .write x _ _ | .read x _ | .barRead x _ _ _ _ | .barWrite x _ _ _ _ _ => some x
  | .notify _ _ => none

/-! ## Which writes signal the other device -/

section
variable {x : Vm} {c c' : Ctx x}

/-- The write of the register signals the other device. -/
def Ctx.Alerts (c : Ctx x) : ConfigReg → Prop
  | .outmsg i => ¬ c.PeerFull i ∧ c.dev.otherVmId ≠ -1 ∧ c.MessageArmed i
  | .outdbellset => c.dev.otherVmId ≠ -1 ∧ c.DoorbellArmed
  | .ntgsignal => c.SignalArmed
  | _ => False

/-- A signal that is sent if it is armed. -/
theorem signals_armed (hc : c.signals = []) (p : Prop) [Decidable p] (posn : ℤ) (vector : ℕ) :
    (p ∧ (c.emitIf p (.eventSet posn vector)).signals = [(posn, vector)]) ∨
      (¬ p ∧ (c.emitIf p (.eventSet posn vector)).signals = []) := by
  rw [Ctx.signals_emitIf, hc]
  by_cases hp : p
  · exact Or.inl ⟨hp, by rw [if_pos hp]; rfl⟩
  · exact Or.inr ⟨hp, by rw [if_neg hp]; rfl⟩

/-- **A register write signals the other device's interrupt notifier**, or nobody. -/
theorem writeReg_alerts {r : ConfigReg} {v : BitVec 64} (hc : c.signals = [])
    (h : writeReg c r v = .ok c') :
    (c.Alerts r ∧ c'.signals = [(c.dev.otherVmId, eventfdInterruptHost)]) ∨
      (¬ c.Alerts r ∧ c'.signals = []) := by
  unfold Ctx.Alerts
  cases r with
  | outmsg i =>
    cases h
    by_cases hf : c.PeerFull i
    · rw [writeOutboundMsg_refused c i v hf, Ctx.signals_emitIf]
      refine Or.inr ⟨fun hn => hn.1 hf, ?_⟩
      have hsig : (c.modRegs fun r => { r with
          msgsts := r.msgsts ||| (fldOutmsgsts i).setWidth 64
          intsts := if c.FailureArmed i then r.intsts ||| ntintstsMsg.setWidth 64
            else r.intsts }).signals = [] := hc
      rw [hsig]
      split_ifs <;> rfl
    by_cases hid : c.dev.otherVmId = -1
    · rw [writeOutboundMsg_lost c i v hf hid]
      exact Or.inr ⟨fun hn => hn.2.1 hid, hc⟩
    · rw [writeOutboundMsg_accepted c i v hf hid]
      have hsig : (c.modPeerRegs fun r => { r with
          msg := update r.msg i v
          msgsts := r.msgsts ||| (fldInmsgsts i).setWidth 64
          inbMsgSrc := update r.inbMsgSrc i (c.regs.inboundMwPart.setWidth 64)
          intsts := if c.MessageArmed i then r.intsts ||| ntintstsMsg.setWidth 64
            else r.intsts }).signals = [] := hc
      rcases signals_armed hsig (c.MessageArmed i) c.dev.otherVmId eventfdInterruptHost with
        ⟨ha, hs⟩ | ⟨ha, hs⟩
      · exact Or.inl ⟨⟨hf, hid, ha⟩, hs⟩
      · exact Or.inr ⟨fun hn => ha hn.2.2, hs⟩
  | outdbellset =>
    rw [writeReg_outdbellset] at h
    cases h
    exact signals_armed (c := c.modPeerRegs _) hc (c.dev.otherVmId ≠ -1 ∧ c.DoorbellArmed)
      c.dev.otherVmId eventfdInterruptHost
  | ntgsignal =>
    rw [writeReg_ntgsignal] at h
    by_cases hv : v = 1
    · rw [if_pos hv] at h
      cases h
      exact signals_armed (c := (c.modGregs _).modPeerRegs _) hc c.SignalArmed c.dev.otherVmId
        eventfdInterruptHost
    · rw [if_neg hv] at h
      cases h
  | gasadata =>
    cases h
    refine Or.inr ⟨fun hn => hn, ?_⟩
    unfold writeGasadata
    split <;> exact hc
  | ntmtbldata =>
    cases h
    refine Or.inr ⟨fun hn => hn, ?_⟩
    unfold setNtMtbData
    split_ifs <;> exact hc
  | _ =>
    cases h
    exact Or.inr ⟨fun hn => hn, hc⟩

end

/-! ## What a guest's access does to the events -/

section
variable {u u' : Sys} {a : Act} {x y : Vm} {fd : Fd}

/-- The access of the guest of `x` makes its device signal the other one. -/
def Alerting (x : Vm) (e : Sys × Act) : Prop :=
  ∃ (r : ConfigReg) (v : _), e.2 = .write x r.addr v ∧ (e.1.ctx x).Alerts r

/-- An access of one guest leaves the other device alone. -/
theorem step_guest_other {u u' : Sys} {a : Act} (ha : a.guest = some x) (h : Step u a u')
    (hy : y ≠ x) : u'.dev y = u.dev y := by
  obtain ⟨out, h⟩ := Sys.next_ok.1 h
  have hfin : ∀ {v : Sys} {c : Ctx x}, v.dev = u.dev → v.finish c = .ok (u', out) →
      u'.dev y = u.dev y := by
    intro v c hv hf
    obtain ⟨pending, -, rfl, -⟩ := Sys.finish_ok.1 hf
    exact (Function.update_of_ne hy _ _).trans (congrFun hv y)
  cases a with
  | write z addr v =>
    obtain rfl := Option.some_inj.1 ha
    obtain ⟨c, -, hf⟩ := bind_ok.1 h
    exact hfin rfl hf
  | read z addr =>
    cases h
    rfl
  | notify z vector => cases ha
  | barRead z w addr size map =>
    obtain rfl := Option.some_inj.1 ha
    obtain ⟨r, -, hf⟩ := bind_ok.1 h
    exact hfin rfl hf
  | barWrite z w addr value size map =>
    obtain rfl := Option.some_inj.1 ha
    obtain ⟨r, -, hf⟩ := bind_ok.1 h
    refine hfin ?_ hf
    rfl

theorem guest_ne_notify {a : Act} (ha : a.guest = some x) (y : Vm) (vector : ℕ) :
    a ≠ .notify y vector := by
  rintro rfl
  cases ha

/-- A signal that is delivered reaches the notifier in the slot, if there is one. -/
theorem deliver_slot {d : IVShmemState x} {out : List Effect} {posn : ℤ} {vector : ℕ}
    {p p' : Fd → Bool} (ho : out.filterMap Effect.signal? = [(posn, vector)])
    (h : out.foldlM (deliver d) p = .ok p') : ∃ o : Option Fd, d.notifier posn vector = .ok o ∧
      ((o = none ∧ p' = p) ∨ ∃ fd, o = some fd ∧ p' = update p fd true) := by
  rw [foldlM_deliver, ho, List.foldlM_cons] at h
  obtain ⟨q, h1, h2⟩ := bind_ok.1 h
  obtain rfl : q = p' := Except.ok.inj h2
  obtain ⟨o, ho, h1⟩ := bind_ok.1 h1
  refine ⟨o, ho, ?_⟩
  cases o with
  | none => exact Or.inl ⟨rfl, (Except.ok.inj h1).symm⟩
  | some fd => exact Or.inr ⟨fd, rfl, (Except.ok.inj h1).symm⟩

theorem finish_silent {c : Ctx x} {out : List Effect} (hc : c.signals = [])
    (h : u.finish c = .ok (u', out)) : u'.pending = u.pending := by
  obtain ⟨pending, hp, rfl, -⟩ := Sys.finish_ok.1 h
  unfold Ctx.signals at hc
  rw [foldlM_deliver, hc] at hp
  exact (Except.ok.inj hp).symm

/-- **An access signals the notifier that the device has for its peer**, or nobody. -/
theorem access_delivers (ha : a.guest = some x) (h : Step u a u') :
    (Alerting x (u, a) ∧ ∃ o : Option Fd,
      (u.dev x).notifier (u.dev x).otherVmId eventfdInterruptHost = .ok o ∧
      ((o = none ∧ u'.pending = u.pending) ∨
        ∃ fd, o = some fd ∧ u'.pending = update u.pending fd true)) ∨
      (¬ Alerting x (u, a) ∧ u'.pending = u.pending) := by
  obtain ⟨out, h⟩ := Sys.next_ok.1 h
  have hbar : ∀ {v : Sys} {c : Ctx x}, v.pending = u.pending → c.signals = [] →
      (∀ (r : ConfigReg) v, a ≠ .write x r.addr v) → v.finish c = .ok (u', out) →
      ¬ Alerting x (u, a) ∧ u'.pending = u.pending := by
    intro v c hv hc hno hf
    refine ⟨?_, (finish_silent hc hf).trans hv⟩
    rintro ⟨r, w, hw, -⟩
    exact hno r w hw
  cases a with
  | write z addr v =>
    obtain rfl := Option.some_inj.1 ha
    obtain ⟨c, hc, hf⟩ := bind_ok.1 h
    rcases ivshmemIoWrite_cases hc with ⟨r, rfl, hr⟩ | ⟨hno, rfl⟩
    · rcases writeReg_alerts rfl hr with ⟨halert, hsig⟩ | ⟨halert, hsig⟩
      · obtain ⟨pending, hp, rfl, -⟩ := Sys.finish_ok.1 hf
        obtain ⟨o, ho, hset⟩ := deliver_slot hsig hp
        rw [writeReg_dev hr] at ho
        exact Or.inl ⟨⟨r, v, rfl, halert⟩, o, ho, hset⟩
      · refine Or.inr ⟨?_, finish_silent hsig hf⟩
        rintro ⟨r', w, hw, halert'⟩
        simp only [Act.write.injEq, ConfigReg.addr_inj] at hw
        exact halert (hw.2.1 ▸ halert')
    · refine Or.inr (hbar rfl rfl ?_ hf)
      rintro r w hw
      simp only [Act.write.injEq] at hw
      exact hno r hw.2.1
  | read z addr =>
    cases h
    refine Or.inr ⟨?_, rfl⟩
    rintro ⟨r, w, hw, -⟩
    cases hw
  | notify z vector => cases ha
  | barRead z w addr size map =>
    obtain rfl := Option.some_inj.1 ha
    obtain ⟨r, hr, hf⟩ := bind_ok.1 h
    refine Or.inr (hbar rfl ?_ (fun _ _ h => Act.noConfusion h) hf)
    unfold idtBarRead at hr
    dsimp only at hr
    split_ifs at hr <;> cases hr <;> rfl
  | barWrite z w addr value size map =>
    obtain rfl := Option.some_inj.1 ha
    obtain ⟨r, hr, hf⟩ := bind_ok.1 h
    refine Or.inr (hbar ?_ ?_ (fun _ _ h => Act.noConfusion h) hf)
    · rfl
    · unfold idtBarWrite at hr
      dsimp only at hr
      split_ifs at hr <;> cases hr <;> rfl

/-- An access takes back no event. -/
theorem step_guest_pending (ha : a.guest = some x) (h : Step u a u') (hp : u.pending fd = true) :
    u'.pending fd = true := by
  rcases access_delivers ha h with ⟨-, o, -, ⟨-, he⟩ | ⟨fd', -, he⟩⟩ | ⟨-, he⟩
  · rw [he]
    exact hp
  · rw [he]
    by_cases hfd : fd = fd'
    · simp [hfd]
    · simp [hfd, hp]
  · rw [he]
    exact hp

end

end IdtNtb
