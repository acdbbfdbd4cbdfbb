/-
  What signals the other device.

  A doorbell, a message or a global signal that the masks let through makes the
  device signal the client whose id it holds, and the handler of the receiver
  turns what is pending into one MSI.

  * `alerting_iff`: a device that knows its peer signals it for what arrives there;
  * `msiRaised_iff`: the handler raises an MSI if the event is pending.
-/
import IdtNtb.Pairing

namespace IdtNtb

open Function (update)
open Runs

/-! ## Arrivals -/

section
variable {u u' : Sys} {a : Act} {x y : Vm} {fd : Fd}

/-- A global signal of the peer, made while the SEVENT bit of NTINTMSK is clear. -/
def SignalArrives (y : Vm) (e : Sys × Act) : Prop :=
  (∃ v, e.2 = .write y.other ConfigReg.ntgsignal.addr v) ∧
    e.1.shm.gregs.ntIntMask.getLsbD 3 = false

theorem signalArmed_iff : (u.ctx x).SignalArmed ↔ u.shm.gregs.ntIntMask.getLsbD 3 = false := by
  have h := Bits.and_mask_ne_zero (w := 32) (n := 32) (k := 3) (by omega) (by omega)
    (~~~u.shm.gregs.ntIntMask)
  simpa [Ctx.SignalArmed, ntintstsSevent] using h

/-- A device that knows its peer is made to signal it by what arrives there. -/
theorem alerting_iff (hid : (u.dev y.other).otherVmId ≠ -1) : Alerting y.other (u, a) ↔
    DoorbellArrives y (u, a) ∨ (∃ i, MessageArrives y i (u, a)) ∨ SignalArrives y (u, a) := by
  have hfull : ∀ i, (u.ctx y.other).PeerFull i ↔ Full y i u := by
    intro i
    unfold Ctx.PeerFull
    rw [full_iff, Sys.ctx_peerRegs, Vm.other_other]
  constructor
  · rintro ⟨r, v, ha, halert⟩
    cases r with
    | outmsg i =>
      obtain ⟨hf, -, harmed⟩ := halert
      obtain ⟨hmask, hmsg⟩ := messageArmed_iff.1 harmed
      exact Or.inr (Or.inl ⟨i, ⟨v, ha⟩, fun h => hf ((hfull i).2 h), hmsg, hmask⟩)
    | outdbellset => exact Or.inl ⟨⟨v, ha⟩, doorbellArmed_iff.1 halert.2⟩
    | ntgsignal => exact Or.inr (Or.inr ⟨⟨v, ha⟩, signalArmed_iff.1 halert⟩)
    | _ => exact False.elim halert
  · rintro (⟨⟨v, ha⟩, harmed⟩ | ⟨i, ⟨v, ha⟩, hf, hmsg, hmask⟩ | ⟨⟨v, ha⟩, harmed⟩)
    · exact ⟨.outdbellset, v, ha, hid, doorbellArmed_iff.2 harmed⟩
    · exact ⟨.outmsg i, v, ha, fun h => hf ((hfull i).1 h), hid, messageArmed_iff.2 ⟨hmask, hmsg⟩⟩
    · exact ⟨.ntgsignal, v, ha, signalArmed_iff.2 harmed⟩

end

/-- A doorbell, a message or a global signal arrives at `y`, and the masks let it through. -/
def Arrives (n : ℕ) (y : Vm) (e : Bridge × BridgeAct) : Prop := ∃ a, e.2 = .access a ∧
  (DoorbellArrives y (e.1.sys n, a) ∨ (∃ i, MessageArrives y i (e.1.sys n, a)) ∨
    SignalArrives y (e.1.sys n, a))

/-- The handler of the device of `y` for its interrupt notifier raises an MSI. -/
def MsiRaised (y : Vm) (e : Bridge × BridgeAct) : Prop :=
  e.2 = .net (.notify y eventfdInterruptHost) ∧ ∃ c ∈ e.1.net.client y, ∃ fd r,
    vectorNotifier (c.ctx e.1.net.shm) eventfdInterruptHost = .ok fd ∧
    ivshmemVectorNotify (c.ctx e.1.net.shm) eventfdInterruptHost (fd.any e.1.net.pending) = .ok r ∧
    .msiNotify 0 ∈ r.out

section
variable {n : ℕ} {s s' : Bridge} {a : BridgeAct} {t t' : List (Bridge × BridgeAct)}
  {shm : IdtIvshmemShmStorage} {ram : Vm → Ram} {y : Vm} {c : Client y}

theorem not_arrives {b : NetAct} : ¬ Arrives n y (s, .net b) := by
  rintro ⟨a, ha, -⟩
  cases ha

/-- What arrives is the doing of the other guest. -/
theorem arrives_guest {b : Act} (h : Arrives n y (s, .access b)) : b.guest = some y.other := by
  obtain ⟨b', hb, harr⟩ := h
  obtain rfl := BridgeAct.access.inj hb
  rcases harr with ⟨⟨v, hw⟩, -⟩ | ⟨i, ⟨v, hw⟩, -⟩ | ⟨⟨v, hw⟩, -⟩
  all_goals
    have hw' : b = .write y.other _ v := hw
    rw [hw']
    rfl

/-- A device that looks at one of its notifiers takes the event. -/
theorem notify_takes {s s' : Net} {x : Vm} {k : ℕ} (hok : s.Ok n) (hs : s.Served)
    (h : NetStep n s (.notify x k) s') : ∃ c : Client x, s.client x = some c ∧
      s'.pending = update s.pending ⟨c.id, k⟩ false := by
  obtain ⟨c, fd, r, hc, hfd, hv, hf⟩ := net_notify h
  obtain ⟨c₁, c', fd', hgoes, hr, -⟩ := goes_notify hok h
  obtain rfl := Option.some_inj.1 (hc.symm.trans hgoes.client)
  have hlt : k < c.dev.nbEventfds c.id := by
    obtain ⟨e, he, hslot⟩ := bind_ok.1 hfd
    split_ifs at hslot with hpdev
    rw [← (hok.client hc).vmId hr]
    by_contra hge
    have hno := (hs.attends hc hr).unwired k (Nat.not_lt.1 hge) e he
    rw [hpdev] at hno
    cases hno
  obtain rfl := Except.ok.inj (hfd.symm.trans (hs.watched hok hc hr hlt))
  obtain ⟨pending, hp, hs'⟩ := Net.finish_ok hf
  have hsig : r.out.filterMap Effect.signal? = [] := (ivshmemVectorNotify_spec hv).2.1
  rw [foldlM_deliver, hsig] at hp
  refine ⟨c, hc, ?_⟩
  rw [hs']
  exact (Except.ok.inj hp).symm

/-- The handler raises an MSI if the event is pending. -/
theorem msiRaised_iff (hok : s.net.Ok n) (hs : s.net.Served) (hc : s.net.client y = some c)
    (hi : c.Inited) : MsiRaised y (s, .net (.notify y eventfdInterruptHost)) ↔
      s.net.pending ⟨c.id, eventfdInterruptHost⟩ = true := by
  have hfd := hs.watched hok hc ((hok.client hc).realized hi) hi
  have hvec : ¬ eventfdInterruptHost = eventfdVmId := by decide
  constructor
  · rintro ⟨-, c', hc', fd, r, hfd', hv, hmem⟩
    have hc' : s.net.client y = some c' := hc'
    rw [hc, Option.some_inj] at hc'
    subst hc'
    rw [hfd, Except.ok.injEq] at hfd'
    subst hfd'
    by_contra hno
    have hno' : s.net.pending ⟨c.id, eventfdInterruptHost⟩ = false := by simpa using hno
    rw [Option.any_some, hno'] at hv
    cases hv
    cases hmem
  · intro hpend
    refine ⟨rfl, c, hc, _, interruptNotify (c.ctx s.net.shm) 0, hfd, ?_, ?_⟩
    · unfold ivshmemVectorNotify
      rw [Option.any_some, if_pos hpend, if_neg hvec, if_pos rfl]
    · exact List.mem_singleton_self _

end

end IdtNtb
