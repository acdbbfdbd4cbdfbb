/-
  Guest accesses that end the process.

  On a connected device every access is handled to its end, whatever the offset,
  the value and the state of the registers, but for two kinds: NTGSIGNAL asserts
  that the value is 1, and nothing keeps the out-of-spec selector and the windows
  inside what the process has mapped (`Sys.Mapped`).

  * `Linked`: both devices know the other one, and its notifier is there;
  * `access_step`: an access keeps that, or it writes another value than 1 to
    NTGSIGNAL and fails;
  * `harmless_iff` says which accesses are handled, and `accesses_complete_iff`
    that those of both guests in any order are all handled exactly if each of
    them is harmless.
-/
import IdtNtb.Mapping

namespace IdtNtb

open Function (update)
open Runs

variable {x : Vm} {c c' : Ctx x} {s s' : Sys} {a : Act} {behind : ℕ}

/-- An access as it reaches the device: the memory core splits what the guest does into accesses of
    4 bytes for BAR 0 and of 4 or 8 for the windows.  In between the devices take their
    interrupts. -/
def Act.IsAccess : Act → Prop
  | .write _ _ _ | .read _ _ => True
  | .barRead _ _ _ size _ | .barWrite _ _ _ _ size _ => size = 4 ∨ size = 8
  | .notify _ vector => vector = eventfdInterruptHost

/-- The guest writes another value than 1 to NTGSIGNAL. -/
def Act.BadSignal (a : Act) : Prop := ∃ x v, a = .write x ConfigReg.ntgsignal.addr v ∧ v ≠ 1

/-- Each device reaches the interrupt notifier of the other one, and its own. -/
def Linked (s : Sys) : Prop := ∀ x,
  (∃ n, (s.dev x).notifier (s.dev x).otherVmId eventfdInterruptHost = .ok n) ∧
  ∃ n, vectorNotifier (s.ctx x) eventfdInterruptHost = .ok n

/-- The handler signals at most the interrupt notifier of the other device. -/
def SignalsPeer (c : Ctx x) : Prop :=
  ∀ posn vector, .eventSet posn vector ∈ c.out → posn = c.dev.otherVmId ∧ vector = eventfdInterruptHost

theorem signalsPeer_nil (h : c.out = []) : SignalsPeer c := by
  intro posn vector he
  rw [h] at he
  cases he

/-- The interrupt notifier of the other device is signalled, if at all. -/
theorem signalsPeer_eventSet {posn : ℤ} (h : c.out = []) (hposn : posn = c.dev.otherVmId) (p : Prop)
    [Decidable p] : SignalsPeer (c.emitIf p (.eventSet posn eventfdInterruptHost)) := by
  unfold Ctx.emitIf
  split_ifs
  · intro posn' vector hmem
    rw [Ctx.emit_out, h, List.nil_append, List.mem_singleton] at hmem
    cases hmem
    exact ⟨hposn, rfl⟩
  · exact signalsPeer_nil h

/-- Other effects are no signals. -/
theorem signalsPeer_emit (h : c.out = []) {e : Effect} (he : ∀ posn vector, e ≠ .eventSet posn vector) :
    SignalsPeer (c.emit e) := by
  intro posn vector hmem
  rw [Ctx.emit_out, h, List.nil_append, List.mem_singleton] at hmem
  exact absurd hmem.symm (he posn vector)

/-! ## The handlers -/

/-- A refused message, an accepted one and one for an unknown peer are all handled. -/
theorem writeOutboundMsg_signals (hc : c.out = []) (i : Fin 4) (v : BitVec 64) :
    SignalsPeer (writeOutboundMsg c i v) := by
  by_cases hf : c.PeerFull i
  · rw [writeOutboundMsg_refused c i v hf]
    unfold Ctx.emitIf
    split_ifs
    · exact signalsPeer_emit hc (by simp)
    · exact signalsPeer_nil hc
  by_cases hid : c.dev.otherVmId = -1
  · rw [writeOutboundMsg_lost c i v hf hid]
    exact signalsPeer_nil hc
  · rw [writeOutboundMsg_accepted c i v hf hid]
    exact signalsPeer_eventSet (by exact hc) rfl _

/-- **A register write is handled**, unless it is the one that the assertion is about. -/
theorem writeReg_completes (hc : c.out = []) (r : ConfigReg) (v : BitVec 64)
    (hv : r = .ntgsignal → v = 1) : ∃ c', writeReg c r v = .ok c' ∧ SignalsPeer c' := by
  cases r with
  | outmsg i => exact ⟨_, rfl, writeOutboundMsg_signals hc i v⟩
  | outdbellset => exact ⟨_, writeReg_outdbellset c v, signalsPeer_eventSet (by exact hc) rfl _⟩
  | ntgsignal =>
    exact ⟨_, (writeReg_ntgsignal c v).trans (if_pos (hv rfl)),
      signalsPeer_eventSet (by exact hc) rfl _⟩
  | gasadata =>
    refine ⟨_, rfl, signalsPeer_nil ?_⟩
    unfold writeGasadata
    split <;> exact hc
  | ntmtbldata =>
    refine ⟨_, rfl, signalsPeer_nil ?_⟩
    unfold setNtMtbData
    split_ifs <;> exact hc
  | _ => exact ⟨_, rfl, signalsPeer_nil hc⟩

theorem ivshmemIoWrite_completes (hc : c.out = []) (addr val : BitVec 64)
    (hv : addr = ConfigReg.ntgsignal.addr → val = 1) :
    ∃ c', ivshmemIoWrite c addr val = .ok c' ∧ SignalsPeer c' := by
  unfold ivshmemIoWrite
  cases hd : ConfigReg.decode addr with
  | some r =>
    refine writeReg_completes hc r val ?_
    rintro rfl
    exact hv (ConfigReg.decode_eq_some.1 hd)
  | none => exact ⟨c, rfl, signalsPeer_nil hc⟩

theorem idtBarRead_completes (hc : c.out = []) (mem : Ram) (map : Bool) (addr : BitVec 64) {size : ℕ}
    (hsize : size = 4 ∨ size = 8) (idx : Fin 6) :
    ∃ r, idtBarRead c mem map addr size idx = .ok r ∧ SignalsPeer r.ctx := by
  unfold idtBarRead
  dsimp only
  split_ifs
  · exact ⟨_, rfl, signalsPeer_emit hc (by simp)⟩
  · exact ⟨_, rfl, signalsPeer_emit hc (by simp)⟩
  · exact ⟨_, rfl, signalsPeer_nil hc⟩
  · exact ⟨_, rfl, signalsPeer_nil hc⟩

theorem idtBarWrite_completes (hc : c.out = []) (mem : Ram) (map : Bool) (addr value : BitVec 64)
    {size : ℕ} (hsize : size = 4 ∨ size = 8) (idx : Fin 6) :
    ∃ r, idtBarWrite c mem map addr value size idx = .ok r ∧ SignalsPeer r.ctx := by
  unfold idtBarWrite
  dsimp only
  split_ifs
  · exact ⟨_, rfl, signalsPeer_emit hc (by simp)⟩
  · exact ⟨_, rfl, signalsPeer_emit hc (by simp)⟩
  · exact ⟨_, rfl, signalsPeer_nil hc⟩
  · exact ⟨_, rfl, signalsPeer_nil hc⟩

theorem notifyInterrupt_completes (hc : c.out = []) (pending : Bool) :
    ∃ c', ivshmemVectorNotify c eventfdInterruptHost pending = .ok c' ∧ SignalsPeer c' := by
  cases pending with
  | false => exact ⟨c, rfl, signalsPeer_nil hc⟩
  | true => exact ⟨_, rfl, signalsPeer_emit hc (by simp)⟩

/-! ## Steps -/

/-- What a handler signalled is delivered when the notifier is there. -/
theorem finish_completes (h : SignalsPeer c) {n : Option Fd}
    (hn : c.dev.notifier c.dev.otherVmId eventfdInterruptHost = .ok n) (s : Sys) :
    ∃ s', s.finish c = .ok (s', c.out) := by
  have hdeliver : ∀ (l : List Effect) (pending : Fd → Bool),
      (∀ e ∈ l, ∀ posn vector, e = .eventSet posn vector →
        posn = c.dev.otherVmId ∧ vector = eventfdInterruptHost) →
      ∃ pending', l.foldlM (deliver c.dev) pending = .ok pending' := by
    intro l
    induction l with
    | nil => exact fun pending _ => ⟨pending, rfl⟩
    | cons e l ih =>
      intro pending hl
      obtain ⟨p₁, h₁⟩ : ∃ p₁, deliver c.dev pending e = .ok p₁ := by
        cases e with
        | eventSet posn vector =>
          obtain ⟨rfl, rfl⟩ := hl _ List.mem_cons_self posn vector rfl
          simp only [deliver, hn]
          cases n <;> exact ⟨_, rfl⟩
        | _ => exact ⟨pending, rfl⟩
      obtain ⟨p', h'⟩ := ih p₁ fun e he => hl e (List.mem_cons_of_mem _ he)
      refine ⟨p', ?_⟩
      rw [List.foldlM_cons, h₁]
      exact h'
  obtain ⟨pending, hp⟩ := hdeliver c.out s.pending fun e he posn vector heq =>
    h posn vector (heq ▸ he)
  exact ⟨_, Sys.finish_ok.2 ⟨pending, hp, rfl, rfl⟩⟩

/-- An access changes nothing that the notifiers are found by. -/
theorem linked_step (hs : Linked s) (ha : a.IsAccess) (h : Step s a s') : Linked s' := by
  intro x
  have hnot : a ≠ .notify x eventfdVmId := by
    rintro rfl
    cases ha
  obtain ⟨l, i, m, hdev, hid, -⟩ := step_dev h x
  obtain rfl := hid hnot
  have hown : vectorNotifier (s'.ctx x) eventfdInterruptHost =
      vectorNotifier (s.ctx x) eventfdInterruptHost := by
    unfold vectorNotifier msiVector
    rw [Sys.ctx_dev, hdev]
    rfl
  rw [hown, hdev]
  exact hs x

/-- The peer's notifier is found in what a handler leaves of the device. -/
theorem notifier_idle {p : Prop} (hs : Linked s) (h : (s.ctx x).Idle c p) (hp : p) :
    ∃ n, c.dev.notifier c.dev.otherVmId eventfdInterruptHost = .ok n := by
  obtain ⟨-, i, m, hdev, hid⟩ := h
  obtain rfl := hid hp
  obtain ⟨n, hn⟩ := (hs x).1
  refine ⟨n, ?_⟩
  rw [hdev]
  exact hn

/-- **An access is handled**, and the devices stay connected, unless it is the bad signal. -/
theorem access_step (hs : Linked s) (ha : a.IsAccess) (hbad : ¬ a.BadSignal) :
    ∃ s', s.next a = .ok s' ∧ Linked s' := by
  obtain ⟨s', out, hst⟩ : ∃ s' out, s.handle a = .ok (s', out) := by
    cases a with
    | write x addr v =>
      obtain ⟨c, hc, hsig⟩ : ∃ c, ivshmemIoWrite (s.ctx x) addr (v.setWidth 64) = .ok c ∧
          SignalsPeer c := by
        refine ivshmemIoWrite_completes rfl addr _ ?_
        rintro rfl
        by_contra hv
        refine hbad ⟨x, v, rfl, ?_⟩
        rintro rfl
        exact hv rfl
      have hn : ∃ n, c.dev.notifier c.dev.otherVmId eventfdInterruptHost = .ok n := by
        rcases ivshmemIoWrite_cases hc with ⟨r, -, hr⟩ | ⟨-, rfl⟩
        · rw [writeReg_dev hr]
          exact (hs x).1
        · exact (hs x).1
      obtain ⟨n, hn⟩ := hn
      obtain ⟨s', hs'⟩ := finish_completes hsig hn s
      exact ⟨s', c.out, bind_ok.2 ⟨c, hc, hs'⟩⟩
    | read x addr => exact ⟨s, [], rfl⟩
    | notify x vector =>
      obtain rfl : vector = eventfdInterruptHost := ha
      obtain ⟨n, hown⟩ := (hs x).2
      obtain ⟨c, hc, hsig⟩ := notifyInterrupt_completes (c := s.ctx x) rfl (n.any s.pending)
      obtain ⟨m, hn⟩ := notifier_idle hs (ivshmemVectorNotify_idle hc) (by decide)
      obtain ⟨s', hs'⟩ := finish_completes hsig hn (s.testAndClear n)
      exact ⟨s', c.out, bind_ok.2 ⟨n, hown, bind_ok.2 ⟨c, hc, hs'⟩⟩⟩
    | barRead x w addr size map =>
      obtain ⟨r, hr, hsig⟩ := idtBarRead_completes (c := s.ctx x) rfl (s.ram x.other) map addr ha w.idx
      obtain ⟨n, hn⟩ := notifier_idle hs (idtBarRead_idle hr) trivial
      obtain ⟨s', hs'⟩ := finish_completes hsig hn s
      exact ⟨s', r.ctx.out, bind_ok.2 ⟨r, hr, hs'⟩⟩
    | barWrite x w addr value size map =>
      obtain ⟨r, hr, hsig⟩ :=
        idtBarWrite_completes (c := s.ctx x) rfl (s.ram x.other) map addr value ha w.idx
      obtain ⟨n, hn⟩ := notifier_idle hs (idtBarWrite_idle hr) trivial
      obtain ⟨s', hs'⟩ := finish_completes hsig hn { s with ram := update s.ram x.other r.mem }
      exact ⟨s', r.ctx.out, bind_ok.2 ⟨r, hr, hs'⟩⟩
  have hnext : s.next a = .ok s' := Sys.next_ok.2 ⟨out, hst⟩
  exact ⟨s', hnext, linked_step hs ha hnext⟩

/-- The bad signal fails the assertion, in any state. -/
theorem badSignal_step (h : a.BadSignal) : s.next a = .error .assertion := by
  obtain ⟨x, v, rfl, hv⟩ := h
  have hval : v.setWidth 64 ≠ 1 := by
    intro he
    apply hv
    have hlow := congrArg (BitVec.setWidth 32) he
    simpa using hlow
  simp only [Sys.next, Sys.handle, ivshmemIoWrite_addr, writeReg_ntgsignal, if_neg hval]
  rfl

/-- The access touches nothing but mapped memory, and does not signal with another value than 1. -/
structure Harmless (behind : ℕ) (e : Sys × Act) : Prop where
  mapped : e.1.Mapped behind e.2
  signal : ∀ x v, e.2 = .write x ConfigReg.ntgsignal.addr v → v = 1

/-- **A harmless access is handled**, and no other one. -/
theorem harmless_iff (behind : ℕ) (hs : Linked s) (ha : a.IsAccess) :
    Harmless behind (s, a) ↔ ∃ s', s.nextMapped behind a = .ok s' := by
  simp only [Sys.nextMapped_ok]
  constructor
  · intro h
    obtain ⟨s', hst, -⟩ := access_step hs ha fun ⟨x, v, hw, hv⟩ => hv (h.signal x v hw)
    exact ⟨s', h.mapped, hst⟩
  · rintro ⟨s', hmapped, hst⟩
    refine ⟨hmapped, fun x v hw => ?_⟩
    by_contra hv
    rw [badSignal_step ⟨x, v, hw, hv⟩] at hst
    cases hst

theorem linked_nextMapped (hs : Linked s) (ha : a.IsAccess) (h : s.nextMapped behind a = .ok s') :
    Linked s' :=
  linked_step hs ha (Sys.nextMapped_ok.1 h).2

/-- **Accesses of both guests are all handled** exactly if each of them is harmless in the state in
    which it is made. -/
theorem accesses_complete_iff {l : List Act} (behind : ℕ) (hs : Linked s)
    (hl : ∀ a ∈ l, a.IsAccess) :
    (∃ s', exec (Sys.nextMapped behind) s l = .ok s') ↔
      ∀ e ∈ trace (Sys.nextMapped behind) s l, Harmless behind e := by
  induction l generalizing s with
  | nil => exact iff_of_true ⟨s, rfl⟩ forall_trace_nil
  | cons a l ih =>
    have ha := hl a List.mem_cons_self
    cases hst : s.nextMapped behind a with
    | error f =>
      refine iff_of_false ?_ fun hall => ?_
      · rintro ⟨s', h⟩
        rw [exec, hst] at h
        cases h
      · obtain ⟨s', h⟩ := (harmless_iff behind hs ha).1 (hall (s, a) List.mem_cons_self)
        rw [hst] at h
        cases h
    | ok s₁ =>
      have hexec : exec (Sys.nextMapped behind) s (a :: l) = exec (Sys.nextMapped behind) s₁ l := by
        rw [exec, hst]
        rfl
      rw [hexec, forall_trace_cons hst, ih (linked_nextMapped hs ha hst)
        fun a ha => hl a (List.mem_cons_of_mem _ ha)]
      exact (and_iff_right ((harmless_iff behind hs ha).2 ⟨s₁, hst⟩)).symm

/-- Both guests signal, and one of them moves the other's window and reads through its own. -/
def bothSignal : List Act :=
  [.write .vm1 ConfigReg.ntintmsk.addr 0, .write .vm1 ConfigReg.ntgsignal.addr 1,
    .notify .vm2 eventfdInterruptHost, .write .vm2 (ConfigReg.bar .limit 2).addr 0x1000,
    .write .vm1 ConfigReg.oofLutoff.addr 2, .write .vm1 ConfigReg.oofLdata.addr 0x100,
    .barRead .vm2 .bar2 0 8 true, .write .vm2 ConfigReg.ntgsignal.addr 1]

theorem linked_started : Linked Sys.started := by
  intro x
  cases x <;> exact ⟨⟨_, rfl⟩, ⟨_, rfl⟩⟩

theorem linked_signals : ∃ s', exec (Sys.nextMapped 0) Sys.started bothSignal = .ok s' := by
  refine (accesses_complete_iff 0 linked_started ?_).2 fun e he => ⟨?_, ?_⟩
  · intro a ha
    simp only [bothSignal, List.mem_cons, List.not_mem_nil, or_false] at ha
    rcases ha with rfl | rfl | rfl | rfl | rfl | rfl | rfl | rfl
    case inr.inr.inl => rfl
    case inr.inr.inr.inr.inr.inr.inl => exact Or.inr rfl
    all_goals trivial
  · have hmapped : ∀ e ∈ trace (Sys.nextMapped 0) Sys.started bothSignal, e.1.Mapped 0 e.2 := by
      decide +kernel
    exact hmapped e he
  · intro x v hw
    have hacts := mem_of_mem_trace he
    rw [hw] at hacts
    simp only [bothSignal, List.mem_cons, List.not_mem_nil, or_false] at hacts
    rcases hacts with h | h | h | h | h | h | h | h <;> cases h <;> rfl

/-- **A guest writes 0 to NTGSIGNAL**, and the process ends. -/
theorem signal_aborts : (¬ ∀ l : List Act, (∀ a ∈ l, a.IsAccess) →
      ∃ s', exec (Sys.nextMapped 0) Sys.started l = .ok s') ∧
    exec (Sys.nextMapped 0) Sys.started [.write .vm1 ConfigReg.ntgsignal.addr 0] =
      .error .assertion := by
  have hbad : exec (Sys.nextMapped 0) Sys.started [.write .vm1 ConfigReg.ntgsignal.addr 0] =
      .error .assertion := rfl
  refine ⟨fun hall => ?_, hbad⟩
  obtain ⟨s', h⟩ := hall [.write .vm1 ConfigReg.ntgsignal.addr 0] fun a ha => by
    rw [List.mem_singleton.1 ha]
    trivial
  rw [hbad] at h
  cases h

end IdtNtb
